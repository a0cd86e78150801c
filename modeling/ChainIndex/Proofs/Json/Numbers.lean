import ChainIndex.Json.Parse
import ChainIndex.Json.Print
import Mathlib.Algebra.Group.Int.Defs
import Mathlib.Data.List.Induction
import Mathlib.Data.List.TakeWhile
import Mathlib.Tactic.Common

/-!
# Numbers in texts

A number is written in one of two ways and read in one. Digits are gathered as long as there
are any, so what follows a number has to be something that no number goes on with, and then
the number that was written is the number that is read, and what follows is left.

An integer that fits into a word is read as it was written. A double is written with a point
or an exponent, whatever its layout, and so it is read as a double; which one that is is up
to the rounding of the reader, and `FiniteFloat.reread` says no more than that it is told by
the digits and the power.

## Main definitions

* `Json.Ends`: No number goes on with a text.
* `Json.Digits`: Digits, one at least.
* `Json.StartsNumber`: A text starts as a number does.
* `Decimal.DoubleText`: A text that is read as a double.
* `FiniteFloat.reread`: The double that the text of a double is read as.

## Theorems

* `parseNumber_append`: A number is read up to where it ends.
* `parseNumber_int`: An integer that fits into a word is read as it was written.
* `FiniteFloat.parseNumber_text`: A double is read as a double.
-/

namespace ChainIndex

namespace Json

/-- No number goes on with this text. -/
def Ends (rest : List Char) : Prop :=
  ∀ c, rest.head? = some c → c.isDigit = false ∧ c ≠ '.' ∧ c ≠ 'e' ∧ c ≠ 'E'

theorem ends_nil : Ends [] := by simp [Ends]

theorem ends_cons {c : Char} (hdigit : c.isDigit = false) (hpoint : c ≠ '.')
    (hsmall : c ≠ 'e') (hgreat : c ≠ 'E') (rest : List Char) : Ends (c :: rest) := by
  intro d hd
  rw [List.head?_cons, Option.some.injEq] at hd
  subst hd
  exact ⟨hdigit, hpoint, hsmall, hgreat⟩

/-- Digits, one at least. -/
structure Digits (ds : List Char) : Prop where
  ne_nil : ds ≠ []
  isDigit : ∀ c ∈ ds, c.isDigit = true

theorem Digits.sublist {ds es : List Char} (h : Digits ds) (hes : es.Sublist ds) (hne : es ≠ []) :
    Digits es :=
  ⟨hne, fun c hc => h.isDigit c (hes.subset hc)⟩

theorem Digits.append_zeros {ds : List Char} (h : Digits ds) (n : Nat) :
    Digits (ds ++ List.replicate n '0') := by
  refine ⟨by simp [h.ne_nil], fun c hc => ?_⟩
  rw [List.mem_append, List.mem_replicate] at hc
  rcases hc with hc | ⟨-, rfl⟩
  · exact h.isDigit c hc
  · decide

theorem Digits.zeros_append {ds : List Char} (h : Digits ds) (n : Nat) :
    Digits (List.replicate n '0' ++ ds) := by
  refine ⟨by simp [h.ne_nil], fun c hc => ?_⟩
  rw [List.mem_append, List.mem_replicate] at hc
  rcases hc with ⟨-, rfl⟩ | hc
  · decide
  · exact h.isDigit c hc

theorem takeWhile_digits {ds rest : List Char} (h : ∀ c ∈ ds, c.isDigit = true)
    (hrest : ∀ c, rest.head? = some c → c.isDigit = false) :
    (ds ++ rest).takeWhile Char.isDigit = ds := by
  rw [List.takeWhile_append_of_pos h]
  cases rest with
  | nil => simp
  | cons c rest => rw [List.takeWhile_cons_of_neg (by simp [hrest c rfl]), List.append_nil]

theorem dropWhile_digits {ds rest : List Char} (h : ∀ c ∈ ds, c.isDigit = true)
    (hrest : ∀ c, rest.head? = some c → c.isDigit = false) :
    (ds ++ rest).dropWhile Char.isDigit = rest := by
  rw [List.dropWhile_append_of_pos h]
  cases rest with
  | nil => rfl
  | cons c rest => rw [List.dropWhile_cons_of_neg (by simp [hrest c rfl])]

/-- An exponent with its sign is read up to its end. -/
theorem parseExponent_append {negative : Bool} {ds rest : List Char} (h : Digits ds)
    (hrest : Ends rest) :
    parseExponent ((if negative then '-' else '+') :: (ds ++ rest)) =
      some (if negative then -(decimalValue ds : Int) else decimalValue ds, rest) := by
  have hstop : ∀ c, rest.head? = some c → c.isDigit = false := fun c hc => (hrest c hc).1
  rcases ds with _ | ⟨d, ds⟩
  · exact absurd rfl h.ne_nil
  · have htake := takeWhile_digits h.isDigit hstop
    have hdrop := dropWhile_digits h.isDigit hstop
    rw [List.cons_append] at htake hdrop
    cases negative <;> simp [parseExponent, htake, hdrop]

/-- What is behind the digits of a whole number is not of it. -/
theorem parseTail_whole (negative : Bool) (whole : Significand) {rest : List Char}
    (hrest : Ends rest) :
    parseTail negative whole rest = (toInteger? negative whole).map fun v => (v, rest) := by
  rcases rest with _ | ⟨c, rest⟩
  · simp [parseTail]
  · rcases hrest c rfl with ⟨-, hpoint, hsmall, hgreat⟩
    simp [parseTail, hpoint, hsmall, hgreat]

theorem parseTail_fraction (negative : Bool) (whole : Significand) {ds rest : List Char}
    (h : Digits ds) (hrest : Ends rest) :
    parseTail negative whole ('.' :: (ds ++ rest)) =
      (toDouble? negative (ds.foldl Significand.pushFraction { whole with full := false }) 0).map
        fun v => (v, rest) := by
  have hstop : ∀ c, rest.head? = some c → c.isDigit = false := fun c hc => (hrest c hc).1
  simp only [parseTail, takeWhile_digits h.isDigit hstop, dropWhile_digits h.isDigit hstop]
  rcases ds with _ | ⟨d, ds⟩
  · exact absurd rfl h.ne_nil
  · rcases rest with _ | ⟨c, rest⟩
    · rfl
    · rcases hrest c rfl with ⟨-, -, hsmall, hgreat⟩
      simp [hsmall, hgreat]

/-- An exponent makes a double of the digits before it. -/
theorem readExponent_append (negative : Bool) (s : Significand) {sign : Bool}
    {es rest : List Char} (h : Digits es) (hrest : Ends rest) :
    (do
      let (power, rest) ← parseExponent ((if sign then '-' else '+') :: (es ++ rest))
      let value ← toDouble? negative s power
      return (value, rest)) =
      (toDouble? negative s
        (if sign then -(decimalValue es : Int) else decimalValue es)).map fun v => (v, rest) := by
  rw [parseExponent_append h hrest]
  exact Option.map_eq_bind.symm

theorem parseTail_exponent (negative : Bool) (whole : Significand) {sign : Bool}
    {es rest : List Char} (h : Digits es) (hrest : Ends rest) :
    parseTail negative whole ('e' :: (if sign then '-' else '+') :: (es ++ rest)) =
      (toDouble? negative whole
        (if sign then -(decimalValue es : Int) else decimalValue es)).map fun v => (v, rest) :=
  readExponent_append negative whole h hrest

theorem parseTail_scientific (negative : Bool) (whole : Significand) {sign : Bool}
    {ds es rest : List Char} (hds : Digits ds) (hes : Digits es) (hrest : Ends rest) :
    parseTail negative whole
        ('.' :: (ds ++ 'e' :: (if sign then '-' else '+') :: (es ++ rest))) =
      (toDouble? negative (ds.foldl Significand.pushFraction { whole with full := false })
        (if sign then -(decimalValue es : Int) else decimalValue es)).map fun v => (v, rest) := by
  have hstop : ∀ c, ('e' :: (if sign then '-' else '+') :: (es ++ rest)).head? = some c →
      c.isDigit = false := by simp
  simp only [parseTail, takeWhile_digits hds.isDigit hstop, dropWhile_digits hds.isDigit hstop]
  rcases ds with _ | ⟨d, ds⟩
  · exact absurd rfl hds.ne_nil
  · exact readExponent_append negative _ hes hrest

/-! ## Significands -/

theorem decimalValue_snoc (ds : List Char) (d : Char) :
    decimalValue (ds ++ [d]) = decimalValue ds * 10 + digitValue d := by
  rw [decimalValue, List.foldl_append, ← decimalValue, List.foldl_cons, List.foldl_nil]

/-- Digits that fit a word are all kept. -/
theorem foldl_pushWhole {ds : List Char} (h : decimalValue ds < UInt64.size) :
    ds.foldl Significand.pushWhole ⟨0, 0, false⟩ = ⟨decimalValue ds, 0, false⟩ := by
  induction ds using List.reverseRecOn with
  | nil => rfl
  | append_singleton ds d ih =>
      rw [decimalValue_snoc] at h
      rw [List.foldl_append, ih (by omega), List.foldl_cons, List.foldl_nil, decimalValue_snoc,
        Significand.pushWhole]
      simp [Nat.not_le.mpr h]

theorem decimalValue_toDigits (n : Nat) : decimalValue (Nat.toDigits 10 n) = n := by
  have hvalue := Nat.ofDigitChars_toDigits (b := 10) (n := n) (by omega) (by omega)
  simpa only [Nat.ofDigitChars, decimalValue, digitValue, Nat.mul_comm] using hvalue

theorem digits_toDigits (n : Nat) : Digits (Nat.toDigits 10 n) where
  ne_nil := Nat.toDigits_ne_nil
  isDigit _ hc := Nat.isDigit_of_mem_toDigits (by omega) (by omega) hc

/-- Does a zero stand ahead of another digit? -/
def LeadingZero (ds : List Char) : Prop :=
  ∃ d rest, ds = '0' :: d :: rest

/-- Only zero itself is written with a zero first. -/
theorem head?_toDigits {n : Nat} (h : n ≠ 0) : (Nat.toDigits 10 n).head? ≠ some '0' := by
  -- The first digit of a number is that of its tenth, down to a number of one digit.
  induction n using Nat.strongRecOn with
  | ind n ih =>
      rcases Nat.lt_or_ge n 10 with hlt | hge
      · rw [Nat.toDigits_of_lt_base hlt, List.head?_cons, ne_eq, Option.some.injEq]
        have hdigit : ∀ m : Nat, m < 10 → m ≠ 0 → m.digitChar ≠ '0' := by decide
        exact hdigit n hlt h
      · rw [Nat.toDigits_of_base_le (by omega) hge, List.head?_append,
          Option.or_of_isSome (by simp [Nat.toDigits_ne_nil])]
        exact ih (n / 10) (by omega) (by omega)

theorem not_leadingZero_toDigits (n : Nat) : ¬ LeadingZero (Nat.toDigits 10 n) := by
  rintro ⟨d, rest, heq⟩
  by_cases hzero : n = 0
  · rw [hzero, Nat.toDigits_of_lt_base (by omega)] at heq
    exact absurd heq (by simp)
  · exact head?_toDigits hzero (by rw [heq, List.head?_cons])

/-- A number is its sign, its digits and what follows them. -/
theorem parseNumber_append (negative : Bool) {whole tail : List Char} (h : Digits whole)
    (hzero : ¬ LeadingZero whole)
    (htail : ∀ c, tail.head? = some c → c.isDigit = false) :
    parseNumber ((if negative then ['-'] else []) ++ (whole ++ tail)) =
      parseTail negative (whole.foldl Significand.pushWhole ⟨0, 0, false⟩) tail := by
  have htake := takeWhile_digits h.isDigit htail
  have hdrop := dropWhile_digits h.isDigit htail
  rcases whole with _ | ⟨d, ds⟩
  · exact absurd rfl h.ne_nil
  · -- No digit is taken for a sign.
    have hd : d ≠ '-' := by
      rintro rfl
      exact absurd (h.isDigit '-' List.mem_cons_self) (by decide)
    rw [List.cons_append] at htake hdrop
    cases negative with
    | true =>
        change parseNumber ('-' :: d :: (ds ++ tail)) = _
        rw [parseNumber, htake, hdrop]
        split
        · next heq => cases heq
        · next heq => exact absurd ⟨_, _, heq⟩ hzero
        · rfl
    | false =>
        change parseNumber (d :: (ds ++ tail)) = _
        rw [parseNumber, htake, hdrop]
        · split
          · next heq => cases heq
          · next heq => exact absurd ⟨_, _, heq⟩ hzero
          · rfl
        · exact fun rest heq => hd (List.cons.inj heq).1

/-! ## Integers -/

/-- The text of an integer that fits a word is read as the integer. -/
theorem parseNumber_int {n : Int} (hlow : -(2 ^ 63) ≤ n) (hhigh : n < 2 ^ 64)
    {rest : List Char} (hrest : Ends rest) :
    parseNumber ((toString n).toList ++ rest) = some (.int n, rest) := by
  have hstop : ∀ c, rest.head? = some c → c.isDigit = false := fun c hc => (hrest c hc).1
  -- A magnitude is read alike with either sign.
  have hread : ∀ (negative : Bool) (m : Nat), m < UInt64.size →
      parseNumber ((if negative then ['-'] else []) ++ (Nat.toDigits 10 m ++ rest)) =
        (toInteger? negative ⟨m, 0, false⟩).map fun v => (v, rest) := by
    intro negative m hm
    rw [parseNumber_append negative (digits_toDigits m) (not_leadingZero_toDigits m) hstop,
      foldl_pushWhole (by rwa [decimalValue_toDigits]), decimalValue_toDigits,
      parseTail_whole negative _ hrest]
  rw [show toString n = n.repr from rfl, Int.repr_eq_if]
  split
  · next hsign =>
      rw [Nat.toList_repr]
      refine (hread false n.toNat (by simp only [UInt64.size]; omega)).trans ?_
      simp [toInteger?, Int.toNat_of_nonneg hsign]
  · next hsign =>
      have hvalue : toInteger? true ⟨(-n).toNat, 0, false⟩ = some (.int n) := by
        have hnot : ¬ ((-n).toNat = 0 ∨ Nat.pow 2 63 < (-n).toNat) := by
          simp only [Nat.pow_eq]
          omega
        simp only [toInteger?, Bool.false_eq_true, if_false, Bool.not_true, if_neg hnot]
        rw [Int.toNat_of_nonneg (by omega), Int.neg_neg]
      rw [String.toList_append, Nat.toList_repr, List.append_assoc]
      refine (hread true (-n).toNat (by simp only [UInt64.size]; omega)).trans ?_
      rw [hvalue, Option.map_some]

/-- A number starts with its sign or a digit. -/
def StartsNumber (cs : List Char) : Prop :=
  ∃ c rest, cs = c :: rest ∧ (c = '-' ∨ c.isDigit = true)

theorem Digits.startsNumber {whole : List Char} (h : Digits whole) (tail : List Char) :
    StartsNumber (whole ++ tail) := by
  rcases whole with _ | ⟨c, rest⟩
  · exact absurd rfl h.ne_nil
  · exact ⟨c, _, rfl, Or.inr (h.isDigit c List.mem_cons_self)⟩

theorem startsNumber_int (n : Int) : StartsNumber (toString n).toList := by
  rw [show toString n = n.repr from rfl, Int.repr_eq_if]
  split
  · rw [Nat.toList_repr]
    simpa using (digits_toDigits n.toNat).startsNumber []
  · rw [String.toList_append]
    exact ⟨'-', _, rfl, Or.inl rfl⟩

end Json

/-! ## Doubles -/

namespace Decimal

open Json

/-- What follows the digits of a number, when the number is then read as a double. -/
def ReadAsDouble (tail : List Char) : Prop :=
  ∀ negative significand, ∃ y : Option FiniteFloat, ∀ rest, Ends rest →
    parseTail negative significand (tail ++ rest) = y.map fun y => (.float y, rest)

theorem exists_toDouble? (negative : Bool) (significand : Significand) (power : Int) :
    ∃ y : Option FiniteFloat, toDouble? negative significand power = y.map .float :=
  ⟨_, rfl⟩

theorem readAsDouble_fraction {ds : List Char} (h : Digits ds) : ReadAsDouble ('.' :: ds) := by
  intro negative significand
  rcases exists_toDouble? negative
    (ds.foldl Significand.pushFraction { significand with full := false }) 0 with ⟨y, hy⟩
  refine ⟨y, fun rest hrest => ?_⟩
  rw [List.cons_append, parseTail_fraction negative significand h hrest, hy, Option.map_map]
  rfl

theorem readAsDouble_exponent {es : List Char} (h : Digits es) (sign : Bool) :
    ReadAsDouble ('e' :: (if sign then '-' else '+') :: es) := by
  intro negative significand
  rcases exists_toDouble? negative significand
    (if sign then -(decimalValue es : Int) else decimalValue es) with ⟨y, hy⟩
  refine ⟨y, fun rest hrest => ?_⟩
  rw [List.cons_append, List.cons_append, parseTail_exponent negative significand h hrest, hy,
    Option.map_map]
  rfl

theorem readAsDouble_scientific {ds es : List Char} (hds : Digits ds) (hes : Digits es)
    (sign : Bool) : ReadAsDouble ('.' :: (ds ++ 'e' :: (if sign then '-' else '+') :: es)) := by
  intro negative significand
  rcases exists_toDouble? negative
    (ds.foldl Significand.pushFraction { significand with full := false })
    (if sign then -(decimalValue es : Int) else decimalValue es) with ⟨y, hy⟩
  refine ⟨y, fun rest hrest => ?_⟩
  rw [List.cons_append, List.append_assoc, List.cons_append, List.cons_append,
    parseTail_scientific negative significand hds hes hrest, hy, Option.map_map]
  rfl

/-- A whole number, without needless zeros ahead, and something by which it is read as a
    double. -/
def DoubleText (cs : List Char) : Prop :=
  ∃ whole tail, cs = whole ++ tail ∧ Digits whole ∧ ¬ LeadingZero whole ∧
    (∃ c rest, tail = c :: rest ∧ c.isDigit = false) ∧ ReadAsDouble tail

theorem doubleText_fraction {whole ds : List Char} (hwhole : Digits whole)
    (hzero : ¬ LeadingZero whole) (hds : Digits ds) : DoubleText (whole ++ '.' :: ds) :=
  ⟨whole, _, rfl, hwhole, hzero, ⟨_, _, rfl, by decide⟩, readAsDouble_fraction hds⟩

theorem doubleText_scientific {whole fraction es : List Char} {mark : Char}
    (hwhole : Digits whole) (hzero : ¬ LeadingZero whole)
    (hfraction : fraction = [] ∨ ∃ ds, fraction = '.' :: ds ∧ Digits ds)
    (hmark : ∃ sign : Bool, mark = if sign then '-' else '+') (hes : Digits es) :
    DoubleText ((whole ++ fraction) ++ 'e' :: mark :: es) := by
  rcases hmark with ⟨sign, rfl⟩
  rcases hfraction with rfl | ⟨ds, rfl, hds⟩
  · exact ⟨whole, _, by rw [List.append_nil], hwhole, hzero, ⟨_, _, rfl, by decide⟩,
      readAsDouble_exponent hes sign⟩
  · refine ⟨whole, _, ?_, hwhole, hzero, ⟨_, _, rfl, ?_⟩, readAsDouble_scientific hds hes sign⟩
    · rw [List.append_assoc, List.cons_append]
    · decide

theorem not_leadingZero_of_head? {whole : List Char} (h : whole.head? ≠ some '0') :
    ¬ LeadingZero whole := by
  rintro ⟨d, rest, rfl⟩
  exact h rfl

/-- The text of a decimal is read as a double. -/
theorem doubleText_layout (d : Decimal) : DoubleText d.layout := by
  have hds : Digits (digitChars d.digits) := digits_toDigits d.digits
  have hhead : d.digits ≠ 0 → (digitChars d.digits).head? ≠ some '0' := head?_toDigits
  have hzero : ¬ LeadingZero ['0'] := by simp [LeadingZero]
  have hdigit : Digits ['0'] := ⟨by simp, List.forall_mem_singleton.mpr rfl⟩
  unfold layout
  generalize digitChars d.digits = ds at hds hhead
  have hlength := List.length_pos_iff.mpr hds.ne_nil
  simp only
  -- Zero; a whole number; a point among the digits; a point ahead of them; an exponent.
  split
  · exact doubleText_fraction hdigit hzero hdigit
  next hne =>
  have hhead := hhead hne
  split
  · refine doubleText_fraction (hds.append_zeros _) (not_leadingZero_of_head? ?_) hdigit
    rwa [List.head?_append, Option.or_of_isSome (by simp [hds.ne_nil])]
  split
  · -- The exponent is negative here, so there are digits left behind the point.
    refine doubleText_fraction (hds.sublist (List.take_sublist _ _) ?_)
      (not_leadingZero_of_head? ?_) (hds.sublist (List.drop_sublist _ _) ?_)
    · rw [ne_eq, List.take_eq_nil_iff, not_or]
      exact ⟨by omega, hds.ne_nil⟩
    · rwa [List.head?_take, if_neg (by omega)]
    · rw [ne_eq, List.drop_eq_nil_iff]
      omega
  split
  · exact doubleText_fraction hdigit hzero (hds.zeros_append _)
  · refine doubleText_scientific (hds.sublist (List.take_sublist _ _) ?_)
      (not_leadingZero_of_head? ?_) ?_ ?_ ?_
    · simp [hds.ne_nil]
    · rwa [List.head?_take, if_neg (by omega)]
    · split
      · exact Or.inl rfl
      · next hlong =>
        refine Or.inr ⟨_, rfl, hds.sublist (List.drop_sublist _ _) ?_⟩
        rw [ne_eq, List.drop_eq_nil_iff]
        omega
    · split
      · exact ⟨true, rfl⟩
      · exact ⟨false, rfl⟩
    · split
      · exact (digits_toDigits _).zeros_append 1
      · exact digits_toDigits _

end Decimal

namespace FiniteFloat

open Json

/-- The double that the text of a double is read as, if it is read. -/
def reread (x : FiniteFloat) : Option FiniteFloat :=
  match parseNumber x.text.toList with
  | some (.float y, _) => some y
  | _ => none

theorem startsNumber_text (x : FiniteFloat) : StartsNumber x.text.toList := by
  rcases (Dyadic.ofFloat x.val).shortest.doubleText_layout with ⟨whole, tail, hlayout, hwhole, -⟩
  rw [text, String.toList_ofList, hlayout]
  split
  · exact ⟨'-', _, rfl, Or.inl rfl⟩
  · exact hwhole.startsNumber tail

/-- Whatever the text of a double is read as, it is read as a double and to its end. -/
theorem parseNumber_text (x : FiniteFloat) {rest : List Char} (hrest : Ends rest) :
    parseNumber (x.text.toList ++ rest) = x.reread.map fun y => (.float y, rest) := by
  rcases (Dyadic.ofFloat x.val).shortest.doubleText_layout with
    ⟨whole, _, hlayout, hwhole, hzero, ⟨c, tail, rfl, hc⟩, hread⟩
  rcases hread (Dyadic.ofFloat x.val).negative
    (whole.foldl Significand.pushWhole ⟨0, 0, false⟩) with ⟨y, hy⟩
  -- What the text is read as does not depend on what follows, so it is that of the text alone.
  have hparse : ∀ rest, Ends rest →
      parseNumber (x.text.toList ++ rest) = y.map fun y => (.float y, rest) := by
    intro rest hrest
    rw [← hy rest hrest, ← parseNumber_append _ hwhole hzero (by simpa using hc), text,
      String.toList_ofList, hlayout]
    cases (Dyadic.ofFloat x.val).negative <;> simp
  have hreread : x.reread = y := by
    have hself := hparse [] ends_nil
    rw [List.append_nil] at hself
    rw [reread, hself]
    cases y <;> rfl
  rw [hreread]
  exact hparse rest hrest

end FiniteFloat

end ChainIndex
