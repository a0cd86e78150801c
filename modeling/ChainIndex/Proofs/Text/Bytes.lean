import Mathlib.Tactic.Common
import Mathlib.Tactic.SplitIfs

/-!
# Texts and their bytes

Texts are compared by code point, and where they are kept elsewhere they are compared by the
bytes of their encoding. It is one order. Of two encoded characters the lesser one has the
lesser first byte if it is the shorter one, and if they are of one length then their bytes are
the digits of their numbers, so the first byte that differs decides either way, and no
encoding is the beginning of another one.

## Main definitions

* `Text.bytes`: The bytes of a text.

## Theorems

* `utf8EncodeChar_lt`: Encoded characters compare as the characters do.
* `bytes_lt`: So do texts.
* `compare_bytes`: The two orders of texts are the same.
-/

namespace ChainIndex

namespace Text

/-- The bytes of a text, in UTF-8. -/
def bytes (s : String) : List UInt8 :=
  s.toUTF8.data.toList

theorem bytes_eq (s : String) : bytes s = s.toList.flatMap String.utf8EncodeChar := by
  unfold bytes String.toUTF8
  rw [← String.utf8Encode_toList]
  exact List.toList_data_toByteArray

/-! ## Characters -/

theorem ofNat_lt_iff {m n : Nat} (hm : m < 256) (hn : n < 256) :
    UInt8.ofNat m < UInt8.ofNat n ↔ m < n := by
  rw [UInt8.lt_iff_toNat_lt, UInt8.toNat_ofNat_of_lt' hm, UInt8.toNat_ofNat_of_lt' hn]

theorem ofNat_eq_iff {m n : Nat} (hm : m < 256) (hn : n < 256) :
    UInt8.ofNat m = UInt8.ofNat n ↔ m = n := by
  rw [← UInt8.toNat_inj, UInt8.toNat_ofNat_of_lt' hm, UInt8.toNat_ofNat_of_lt' hn]

/-- Of the digits in base 64 the first that differs decides. -/
theorem digits_lt {m n : Nat} (h : m < n) :
    m / 262144 < n / 262144 ∨ m / 262144 = n / 262144 ∧
      (m / 4096 % 64 < n / 4096 % 64 ∨ m / 4096 % 64 = n / 4096 % 64 ∧
        (m / 64 % 64 < n / 64 % 64 ∨ m / 64 % 64 = n / 64 % 64 ∧ m % 64 < n % 64)) := by
  have hquotients : ∀ k : Nat, k / 64 / 64 = k / 4096 ∧ k / 4096 / 64 = k / 262144 := by
    intro k
    exact ⟨Nat.div_div_eq_div_mul k 64 64, Nat.div_div_eq_div_mul k 4096 64⟩
  have hm := hquotients m
  have hn := hquotients n
  omega

/-- Encoded characters compare as the characters do, whatever stands behind them. -/
theorem utf8EncodeChar_lt {c d : Char} (h : c < d) (x y : List UInt8) :
    String.utf8EncodeChar c ++ x < String.utf8EncodeChar d ++ y := by
  have hlt : c.val.toNat < d.val.toNat := UInt32.lt_iff_toNat_lt.mp h
  have hd : d.val.toNat < 2097152 := by
    have hvalid := d.valid
    unfold UInt32.isValidChar Nat.isValidChar at hvalid
    omega
  unfold String.utf8EncodeChar
  generalize c.val.toNat = m at hlt ⊢
  generalize d.val.toNat = n at hlt hd ⊢
  have hdigits := digits_lt hlt
  -- The first of four bytes holds one digit in full.
  have hm : m / 262144 % 8 = m / 262144 := by omega
  have hn : n / 262144 % 8 = n / 262144 := by omega
  dsimp only
  -- One case for each two lengths. The lesser character is never the longer one.
  split_ifs
  all_goals
    simp only [List.cons_append, List.nil_append, List.cons_lt_cons_iff]
    simp (disch := omega) only [ofNat_lt_iff, ofNat_eq_iff]
    omega

/-! ## Texts -/

theorem flatMap_utf8EncodeChar_lt {l k : List Char} (h : l < k) :
    l.flatMap String.utf8EncodeChar < k.flatMap String.utf8EncodeChar := by
  induction h with
  | nil =>
      rename_i c rest
      rw [List.flatMap_nil, List.flatMap_cons]
      rcases hbytes : String.utf8EncodeChar c with _ | ⟨first, others⟩
      · exact absurd hbytes String.utf8EncodeChar_ne_nil
      · exact List.nil_lt_cons _ _
  | rel hlt =>
      rw [List.flatMap_cons, List.flatMap_cons]
      exact utf8EncodeChar_lt hlt _ _
  | cons _ ih =>
      rw [List.flatMap_cons, List.flatMap_cons]
      exact List.append_left_lt ih

/-- A lesser text has the lesser bytes. -/
theorem bytes_lt {s t : String} (h : s < t) : bytes s < bytes t := by
  rw [bytes_eq, bytes_eq]
  exact flatMap_utf8EncodeChar_lt h

theorem compare_of_lt {l k : List UInt8} (h : l < k) : compare l k = .lt := by
  induction h with
  | nil => rfl
  | rel hlt => rw [List.compare_cons_cons, Std.compare_eq_lt.mpr hlt, Ordering.lt_then]
  | cons _ ih => rw [List.compare_cons_cons, Std.compare_self, Ordering.eq_then, ih]

/-- To compare texts is to compare their bytes. -/
theorem compare_bytes (s t : String) : compare (bytes s) (bytes t) = compare s t := by
  have hlt : ∀ s t : String, compare s t = .lt → compare (bytes s) (bytes t) = .lt := by
    intro s t h
    exact compare_of_lt (bytes_lt (compareOfLessAndEq_eq_lt.mp h))
  cases hcompare : compare s t with
  | lt => exact hlt s t hcompare
  | eq => rw [Std.LawfulEqOrd.eq_of_compare hcompare, Std.compare_self]
  | gt =>
      rw [Std.OrientedOrd.eq_swap, Ordering.swap_eq_gt] at hcompare
      rw [Std.OrientedOrd.eq_swap, hlt t s hcompare]
      rfl

end Text

end ChainIndex
