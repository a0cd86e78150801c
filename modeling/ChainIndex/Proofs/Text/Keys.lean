import ChainIndex.Store.Memory
import ChainIndex.Text.Hex
import Mathlib.Algebra.Group.Nat.Defs
import Mathlib.Tactic.Common

/-!
# Keys and sort keys

Keys of records are put together from parts with hyphens between them, and most parts may
hold hyphens themselves. The last part never does: it is an id of a transaction or a
number in decimal digits. So a key is taken apart at its last hyphen, and that is all that
keeps the records of different transactions and blocks from meeting.

Sort keys are put together from numbers of eight hexadecimal digits. Texts of one width
compare as the numbers do, whatever follows them.

## Main definitions

* `Text.DashFree`: A text without a hyphen.

## Theorems

* `append_dash_injective`: A key is taken apart at its last hyphen.
* `dash_append_injective`: A key whose first part holds none is taken apart at its first.
* `dash_dash_injective`: A key of three parts that hold none is taken apart in one way.
* `dashFree_toString`, `toString_injective`: Decimal digits.
* `encodeHeight_lt`: Fixed-width digits compare as the numbers do.
* `sortKey_lt`: Sort keys compare by height, then by position.
-/

namespace ChainIndex

namespace Text

/-- A text without a hyphen. -/
def DashFree (s : String) : Prop := '-' ∉ s.toList

instance (s : String) : Decidable (DashFree s) :=
  inferInstanceAs (Decidable ('-' ∉ s.toList))

theorem toList_of_dash {a b x y : String} (h : a ++ "-" ++ x = b ++ "-" ++ y) :
    a.toList ++ '-' :: x.toList = b.toList ++ '-' :: y.toList := by
  have hlist := congrArg String.toList h
  simpa [String.toList_append] using hlist

/-- A key is taken apart at its last hyphen. -/
theorem append_dash_injective {a b x y : String} (hx : DashFree x) (hy : DashFree y)
    (h : a ++ "-" ++ x = b ++ "-" ++ y) : a = b ∧ x = y := by
  have hlists := toList_of_dash h
  rcases List.append_eq_append_iff.mp hlists with ⟨mid, hb, hrest⟩ | ⟨mid, ha, hrest⟩
  · rcases List.cons_eq_append_iff.mp hrest with ⟨rfl, hcons⟩ | ⟨tail, rfl, htail⟩
    · rw [List.append_nil] at hb
      rw [List.cons.injEq] at hcons
      exact ⟨String.toList_injective hb.symm, String.toList_injective hcons.2.symm⟩
    · -- The hyphen ahead of `y` would stand within `x`.
      exact absurd (htail ▸ List.mem_append_right tail List.mem_cons_self) hx
  · rcases List.cons_eq_append_iff.mp hrest with ⟨rfl, hcons⟩ | ⟨tail, rfl, htail⟩
    · rw [List.append_nil] at ha
      rw [List.cons.injEq] at hcons
      exact ⟨String.toList_injective ha, String.toList_injective hcons.2⟩
    · exact absurd (htail ▸ List.mem_append_right tail List.mem_cons_self) hy

/-- Two parts without hyphens are taken apart at the only one between them. -/
theorem append_dash_injective_of_dashFree {a b x y : String} (hb : DashFree b) (hy : DashFree y)
    (h : a ++ "-" ++ x = b ++ "-" ++ y) : a = b ∧ x = y := by
  have hlists := toList_of_dash h
  have hx : DashFree x := by
    rcases List.append_eq_append_iff.mp hlists with ⟨mid, hmid, hrest⟩ | ⟨mid, _, hrest⟩
    · rcases List.cons_eq_append_iff.mp hrest with ⟨_, hcons⟩ | ⟨tail, rfl, _⟩
      · rw [List.cons.injEq] at hcons
        exact fun hmem => hy (hcons.2 ▸ hmem)
      · exact absurd (hmid ▸ List.mem_append_right _ List.mem_cons_self) hb
    · rcases List.cons_eq_append_iff.mp hrest with ⟨_, hcons⟩ | ⟨tail, _, htail⟩
      · rw [List.cons.injEq] at hcons
        exact fun hmem => hy (hcons.2.symm ▸ hmem)
      · exact absurd (htail ▸ List.mem_append_right tail List.mem_cons_self) hy
  exact append_dash_injective hx hy h

/-- A key whose first part holds no hyphen is taken apart at its first. -/
theorem dash_append_injective {a b x y : String} (ha : DashFree a) (hb : DashFree b)
    (h : a ++ "-" ++ x = b ++ "-" ++ y) : a = b ∧ x = y := by
  have hlists := toList_of_dash h
  have hsame : a.toList = b.toList := by
    rcases List.append_eq_append_iff.mp hlists with ⟨mid, hmid, hrest⟩ | ⟨mid, hmid, hrest⟩
    · rcases List.cons_eq_append_iff.mp hrest with ⟨rfl, _⟩ | ⟨tail, rfl, _⟩
      · rw [hmid, List.append_nil]
      · exact absurd (hmid ▸ List.mem_append_right _ List.mem_cons_self) hb
    · rcases List.cons_eq_append_iff.mp hrest with ⟨rfl, _⟩ | ⟨tail, rfl, _⟩
      · rw [hmid, List.append_nil]
      · exact absurd (hmid ▸ List.mem_append_right _ List.mem_cons_self) ha
  rw [hsame, List.append_cancel_left_eq, List.cons.injEq] at hlists
  exact ⟨String.toList_injective hsame, String.toList_injective hlists.2⟩

/-- A text of three parts without hyphens is made of these parts only. -/
theorem dash_dash_injective {a b c x y z : String} (ha : DashFree a) (hb : DashFree b)
    (hc : DashFree c) (h : a ++ "-" ++ b ++ "-" ++ c = x ++ "-" ++ y ++ "-" ++ z) :
    a = x ∧ b = y ∧ c = z := by
  -- Two hyphens are on the left, so there is none to spare on the right.
  have hcount := congrArg (fun s : String => s.toList.count '-') h
  simp only [String.toList_append, List.count_append, List.count_eq_zero.mpr ha,
    List.count_eq_zero.mpr hb, List.count_eq_zero.mpr hc,
    show ("-" : String).toList.count '-' = 1 from rfl] at hcount
  have hy : DashFree y := List.count_eq_zero.mp (by omega)
  have hz : DashFree z := List.count_eq_zero.mp (by omega)
  rcases append_dash_injective hc hz h with ⟨hrest, hlast⟩
  rcases append_dash_injective hb hy hrest with ⟨hfirst, hsecond⟩
  exact ⟨hfirst, hsecond, hlast⟩

theorem dashFree_toString (n : Nat) : DashFree (toString n) := by
  intro hmem
  rw [Nat.toString_eq_repr, Nat.toList_repr] at hmem
  have hdigit := Nat.isDigit_of_mem_toDigits (by omega) (by omega) hmem
  exact absurd hdigit (by decide)

theorem toString_injective {m n : Nat} (h : toString m = toString n) : m = n := by
  rw [Nat.toString_eq_repr, Nat.toString_eq_repr] at h
  have hlist := congrArg String.toList h
  rw [Nat.toList_repr, Nat.toList_repr] at hlist
  rw [← Nat.ofDigitChars_toDigits (b := 10) (n := m) (by omega) (by omega), hlist,
    Nat.ofDigitChars_toDigits (by omega) (by omega)]

/-! ## Fixed-width digits -/

theorem lt_append_of_lt {l k : List Char} (hlength : l.length = k.length) (h : l < k)
    (x y : List Char) : l ++ x < k ++ y := by
  induction l generalizing k with
  | nil =>
      rw [List.length_nil, eq_comm, List.length_eq_zero_iff] at hlength
      rw [hlength] at h
      exact absurd h (List.lt_irrefl [])
  | cons c rest ih =>
      cases k with
      | nil => simp at hlength
      | cons d others =>
          rw [List.cons_lt_cons_iff] at h
          rw [List.cons_append, List.cons_append, List.cons_lt_cons_iff]
          rcases h with hlt | ⟨heq, hlt⟩
          · exact Or.inl hlt
          · refine Or.inr ⟨heq, ih ?_ hlt⟩
            simpa using hlength

theorem length_hexDigits (width n : Nat) : (hexDigits width n).length = width := by
  induction width generalizing n with
  | zero => rfl
  | succ width ih => rw [hexDigits, List.length_append, ih, List.length_singleton]

theorem hexDigit_lt {m n : Nat} (h : m < n) (hn : n < 16) : hexDigit m < hexDigit n := by
  have hall : ∀ n : Fin 16, ∀ m : Fin 16, m < n → hexDigit m.val < hexDigit n.val := by decide
  exact hall ⟨n, hn⟩ ⟨m, by omega⟩ h

theorem hexDigits_lt {width m n : Nat} (hn : n < 16 ^ width) (h : m < n) :
    hexDigits width m < hexDigits width n := by
  induction width generalizing m n with
  | zero => omega
  | succ width ih =>
      rw [Nat.pow_succ] at hn
      rw [hexDigits, hexDigits]
      by_cases hhigh : m / 16 < n / 16
      · refine lt_append_of_lt ?_ (ih (by omega) hhigh) _ _
        rw [length_hexDigits, length_hexDigits]
      · -- The digits ahead of the last agree, so the last ones decide.
        have heq : m / 16 = n / 16 := by omega
        rw [heq]
        refine List.append_left_lt ?_
        rw [List.cons_lt_cons_iff]
        exact Or.inl (hexDigit_lt (by omega) (by omega))

theorem encodeHeight_lt_append {a b : UInt32} (h : a < b) (x y : String) :
    encodeHeight a ++ x < encodeHeight b ++ y := by
  change (encodeHeight a ++ x).toList < (encodeHeight b ++ y).toList
  rw [String.toList_append, String.toList_append, encodeHeight, encodeHeight,
    String.toList_ofList, String.toList_ofList]
  refine lt_append_of_lt ?_ (hexDigits_lt ?_ ?_) _ _
  · rw [length_hexDigits, length_hexDigits]
  · exact b.toNat_lt
  · exact UInt32.lt_iff_toNat_lt.mp h

/-- Fixed-width digits compare as the numbers do. -/
theorem encodeHeight_lt {a b : UInt32} (h : a < b) : encodeHeight a < encodeHeight b := by
  simpa using encodeHeight_lt_append h "" ""

/-- Sort keys compare by height, then by position. -/
theorem sortKey_lt {h h' o o' : UInt32} (hlt : h < h' ∨ h = h' ∧ o < o') (t t' : String) :
    encodeHeight h ++ "-" ++ encodeHeight o ++ "-" ++ t
      < encodeHeight h' ++ "-" ++ encodeHeight o' ++ "-" ++ t' := by
  simp only [String.append_assoc]
  rcases hlt with hheight | ⟨rfl, horder⟩
  · exact encodeHeight_lt_append hheight _ _
  · have hrest := encodeHeight_lt_append horder ("-" ++ t) ("-" ++ t')
    change (_ : String).toList < (_ : String).toList at hrest
    change (_ : String).toList < (_ : String).toList
    simp only [String.toList_append] at hrest ⊢
    exact List.append_left_lt (List.append_left_lt hrest)

end Text

/-- Places are ordered by their sort keys first. -/
theorem Place.compare_of_lt {p q : Place} (h : p.sort < q.sort) : compare p q = .lt := by
  change (compareLex (compareOn Place.sort) (compareOn Place.key)) p q = .lt
  have hsort : compare p.sort q.sort = .lt := by
    rw [show compare p.sort q.sort = compareOfLessAndEq p.sort q.sort from rfl]
    simp [compareOfLessAndEq, h]
  simp [compareLex, compareOn, hsort]

end ChainIndex
