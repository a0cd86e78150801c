import ChainIndex.Proofs.Entity.Shapes
import ChainIndex.Proofs.Text.Bytes

/-!
# Sort keys order like what they are made of

A sort key is a number of eight digits, or such a number with a hyphen and more behind it,
which may begin with a number again. The number has one width whatever it is, and so it
decides before anything behind it is looked at, and where two numbers agree the keys go on
alike. So a key compares as the list of its parts does, and none of the characters that an
id may have can change that.

The comparison is that of the bytes of the keys, which is also how the stores compare them.

## Main definitions

* `Text.numberFirst`: By a number, and then by what stands behind it.
* `Text.SortsLike`: Keys compare as what they are made of.

## Theorems

* `compare_bytes_encodeHeight_append`: A number decides before what stands behind it.
* `SortsLike.behindNumber`: A number in front is compared first.
* `sort_keys_order_like_parts`: The sort keys of blocks, oracles, prices, tokens and
  masternodes.
-/

namespace ChainIndex

namespace Text

/-- By a number, and where it is the same by what stands behind it. -/
def numberFirst {β : Type} (cmp : β → β → Ordering) : UInt32 × β → UInt32 × β → Ordering :=
  compareLex (compareOn Prod.fst) fun p q => cmp p.2 q.2

/-- Byte by byte, keys compare as what they are made of does, and so they give it away. -/
structure SortsLike {α β : Type} (key : α → String) (parts : α → β)
    (cmp : β → β → Ordering) : Prop where
  compare_eq : ∀ a b, compare (bytes (key a)) (bytes (key b)) = cmp (parts a) (parts b)
  determines : ∀ a b, key a = key b → parts a = parts b

theorem bytes_append (s t : String) : bytes (s ++ t) = bytes s ++ bytes t := by
  rw [bytes_eq, bytes_eq, bytes_eq, String.toList_append, List.flatMap_append]

theorem compare_append (l x y : List UInt8) : compare (l ++ x) (l ++ y) = compare x y := by
  induction l with
  | nil => rfl
  | cons first rest ih =>
      rw [List.cons_append, List.cons_append, List.compare_cons_cons, Std.compare_self,
        Ordering.eq_then, ih]

/-- A number decides before what stands behind it. -/
theorem compare_bytes_encodeHeight_append (a b : UInt32) (x y : String) :
    compare (bytes (encodeHeight a ++ x)) (bytes (encodeHeight b ++ y)) =
      (compare a b).then (compare (bytes x) (bytes y)) := by
  have hlt : ∀ {a b : UInt32} (x y : String), compare a b = .lt →
      compare (bytes (encodeHeight a ++ x)) (bytes (encodeHeight b ++ y)) = .lt := by
    intro a b x y h
    exact compare_of_lt (bytes_lt (encodeHeight_lt_append (Std.compare_eq_lt.mp h) x y))
  cases hcompare : compare a b with
  | lt => rw [hlt x y hcompare, Ordering.lt_then]
  | eq =>
      -- The digits are the same, and what stands behind them is compared.
      rw [Std.LawfulEqOrd.eq_of_compare hcompare, bytes_append, bytes_append, compare_append,
        Ordering.eq_then]
  | gt =>
      rw [Std.OrientedOrd.eq_swap, Ordering.swap_eq_gt] at hcompare
      rw [Std.OrientedOrd.eq_swap, hlt y x hcompare]
      rfl

namespace SortsLike

variable {α β γ : Type} {key : α → String} {parts : α → β} {cmp : β → β → Ordering}

/-- A text compares as its bytes do. -/
theorem text : SortsLike (fun t : String => t) (fun t => t) compare where
  compare_eq := compare_bytes
  determines _ _ h := h

/-- A number of fixed width compares as the number. -/
theorem number : SortsLike encodeHeight (fun n => n) compare where
  compare_eq a b := by
    have h := compare_bytes_encodeHeight_append a b "" ""
    rwa [String.append_empty, String.append_empty, Std.compare_self, Ordering.then_eq] at h
  determines _ _ h := encodeHeight_injective h

/-- A number in front of a key is compared first. -/
theorem behindNumber (h : SortsLike key parts cmp) :
    SortsLike (fun p : UInt32 × α => encodeHeight p.1 ++ "-" ++ key p.2)
      (fun p => (p.1, parts p.2)) (numberFirst cmp) where
  compare_eq p q := by
    rw [String.append_assoc, String.append_assoc, compare_bytes_encodeHeight_append,
      bytes_append, bytes_append, compare_append, h.compare_eq]
    rfl
  determines p q hkey := by
    rcases encodeHeight_append_injective hkey with ⟨hnumber, hrest⟩
    exact Prod.ext hnumber (h.determines _ _ hrest)

/-- Keys of other values that are made of the same parts. -/
theorem comp (h : SortsLike key parts cmp) (f : γ → α) {other : γ → String}
    (hother : ∀ c, other c = key (f c)) : SortsLike other (fun c => parts (f c)) cmp where
  compare_eq a b := by rw [hother, hother, h.compare_eq]
  determines a b hkey := h.determines _ _ (by rw [← hother, ← hother, hkey])

end SortsLike

end Text

open Entity Text in
/-- **Sort keys order like what they are made of.** The bytes of a height or a position in
    fixed width compare as the number does. Those of the sort keys of snapshots and of prices
    compare by the height, then by the position, then by the id of the transaction; those of
    tokens and of masternodes by the height and then by the id. So each sort key is made of
    its parts only. That of two ids is the order of texts, which the stores go by. -/
theorem sort_keys_order_like_parts :
    SortsLike encodeHeight (fun n => n) compare ∧
    SortsLike (sortKey OracleSnapshot.byOracle)
      (fun s : OracleSnapshot => (s.block.height, s.order, s.txid))
      (numberFirst (numberFirst compare)) ∧
    SortsLike (sortKey PriceFeed.byOraclePair)
      (fun f : PriceFeed => (f.block.height, f.order, f.txid))
      (numberFirst (numberFirst compare)) ∧
    SortsLike (sortKey Token.byCreation) (fun t : Token => (t.block.height, t.id))
      (numberFirst compare) ∧
    SortsLike (sortKey Masternode.byCreation)
      (fun m : Masternode => (m.creationHeight, m.id)) (numberFirst compare) ∧
    SortsLike (fun text : String => text) (fun text => text) compare := by
  have hone := SortsLike.text.behindNumber
  have htwo := hone.behindNumber
  refine ⟨.number, htwo.comp (fun s : OracleSnapshot => (s.block.height, s.order, s.txid)) ?_,
    htwo.comp (fun f : PriceFeed => (f.block.height, f.order, f.txid)) ?_,
    hone.comp (fun t : Token => (t.block.height, t.id)) ?_,
    hone.comp (fun m : Masternode => (m.creationHeight, m.id)) ?_, .text⟩
  · intro s
    refine (sortKey_of_entry (α := RecordKind.snapshot.Value) (List.mem_singleton_self _)).trans ?_
    simp only [String.append_assoc]
  · intro f
    refine (sortKey_of_entry (α := RecordKind.feed.Value) (List.mem_singleton_self _)).trans ?_
    simp only [String.append_assoc]
  · intro t
    exact sortKey_of_entry (α := RecordKind.token.Value) (List.mem_singleton_self _)
  · intro m
    exact sortKey_of_entry (α := RecordKind.masternode.Value) (List.mem_singleton_self _)

end ChainIndex
