import ChainIndex.Decimal.Finite

/-!
# Shortest decimals

The shortest decimal that reads back as a given double, and its written form.

A double stands for the interval of reals that round to it: half the gap to each
neighbour, ends included when the mantissa is even. Below a power of two the gap
is half as wide. Among the decimals with one significant digit, then two, and so
on, only the two nearest to the number on that grid can lie in the interval when
any does, so those two are tried. The first grid with a hit wins, of two hits the
nearer, and of two equally near the one with the even digit. Seventeen digits are
always enough; should a search ever find none, the exact value itself is taken.

The written form has a point and at least one digit on each side of it while the
leading digit stands between the fifth place behind the point and the sixteenth
place before it, and an exponent with a sign and at least two digits otherwise.

## Main definitions

* `Decimal`: Digits and a power of ten.
* `Dyadic.readsBack`: Does a decimal round to this double?
* `Dyadic.shortest`: The shortest decimal that does.
* `FiniteFloat.text`: The written form.
-/

namespace ChainIndex

/-- `digits · 10 ^ exponent`. -/
structure Decimal where
  /-- The significant digits as one number. -/
  digits : Nat
  /-- The power of ten. -/
  exponent : Int
deriving DecidableEq, Repr

namespace Decimal

/-- `d` against `n · 2 ^ e`, compared by cross-multiplication. -/
def compareDyadic (d : Decimal) (n : Nat) (e : Int) : Ordering :=
  compare (d.digits * Nat.pow 10 d.exponent.toNat * Nat.pow 2 (-e).toNat)
    (n * Nat.pow 2 e.toNat * Nat.pow 10 (-d.exponent).toNat)

/-- Moves trailing zeros of the digits into the exponent. At most `fuel` of them. -/
def stripZeros : Nat → Decimal → Decimal
  | 0, d => d
  | fuel + 1, d =>
    if d.digits ≠ 0 ∧ d.digits % 10 = 0 then
      stripZeros fuel ⟨d.digits / 10, d.exponent + 1⟩
    else d

end Decimal

namespace Dyadic

/-- Is the gap to the double below half the gap to the double above? True for a
    power of two that is not the least normal one. -/
def narrowBelow (x : Dyadic) : Bool :=
  x.mantissa == Nat.pow 2 52 && decide (-1074 < x.exponent)

/-- Does `d` lie in the interval of reals that round to `|x|`? The ends are a
    half or a quarter of a unit of the mantissa away, counted here in quarters. -/
def readsBack (x : Dyadic) (d : Decimal) : Bool :=
  let lower := 4 * x.mantissa - (if x.narrowBelow then 1 else 2)
  let upper := 4 * x.mantissa + 2
  let closed := x.mantissa % 2 == 0
  let below := d.compareDyadic lower (x.exponent - 2)
  let above := d.compareDyadic upper (x.exponent - 2)
  (below == .gt || (closed && below == .eq)) && (above == .lt || (closed && above == .eq))

/-- The least `k` with `|x| < 10 ^ k`, searched upwards from `k` for at most
    `fuel` steps. -/
def scaleFrom (x : Dyadic) : Nat → Int → Int
  | 0, k => k
  | fuel + 1, k =>
    if Decimal.compareDyadic ⟨1, k⟩ x.mantissa x.exponent == .gt then k
    else scaleFrom x fuel (k + 1)

/-- The least `k` with `|x| < 10 ^ k`. The search starts from the binary length,
    scaled by a little more than the number of decimal digits in a bit and then
    taken two lower, and so needs a few steps only. -/
def scale (x : Dyadic) : Int :=
  let bits : Int := x.mantissa.log2 + x.exponent
  x.scaleFrom 24 (bits * 30103 / 100000 - 2)

/-- The nearest of the two grid points around `|x|` that reads back, on the grid
    of multiples of `10 ^ e`. -/
def onGrid? (x : Dyadic) (e : Int) : Option Decimal :=
  let (numerator, denominator) := x.ratio
  let scaledNumerator := numerator * Nat.pow 10 (-e).toNat
  let scaledDenominator := denominator * Nat.pow 10 e.toNat
  let down := scaledNumerator / scaledDenominator
  let low : Decimal := ⟨down, e⟩
  let high : Decimal := ⟨down + 1, e⟩
  match x.readsBack low, x.readsBack high with
  | true, true =>
    -- Both do: twice the fraction against the middle between them.
    match compare (2 * scaledNumerator) ((2 * down + 1) * scaledDenominator) with
    | .lt => some low
    | .gt => some high
    | .eq => some (if down % 2 = 0 then low else high)
  | true, false => some low
  | false, true => some high
  | false, false => none

/-- The exact value as a decimal. -/
def exactDecimal (x : Dyadic) : Decimal :=
  ⟨x.mantissa * Nat.pow 2 x.exponent.toNat * Nat.pow 5 (-x.exponent).toNat, min x.exponent 0⟩

/-- The shortest decimal that reads back as `|x|`, without trailing zeros. -/
def shortest (x : Dyadic) : Decimal :=
  if x.mantissa = 0 then ⟨0, 0⟩
  else
    let k := x.scale
    let found := (List.range 17).findSome? fun n => x.onGrid? (k - (n + 1 : Nat))
    (found.getD x.exactDecimal).stripZeros 800

end Dyadic

namespace Decimal

/-- The digits of `n` in base ten, most significant first. -/
def digitChars (n : Nat) : List Char :=
  Nat.toDigits 10 n

/-- Positional or scientific text of a decimal. `point` counts the digits before
    the decimal point; up to sixteen of them are written out, and so are up to
    five zeros behind the point. -/
def layout (d : Decimal) : List Char :=
  let digits := digitChars d.digits
  let point : Int := digits.length + d.exponent
  -- A whole number, then a point among the digits, then zeros ahead of them.
  if d.digits = 0 then ['0', '.', '0']
  else if 0 ≤ d.exponent ∧ point ≤ 16 then
    digits ++ List.replicate d.exponent.toNat '0' ++ ['.', '0']
  else if 0 < point ∧ point ≤ 16 then
    digits.take point.toNat ++ '.' :: digits.drop point.toNat
  else if -5 < point ∧ point ≤ 0 then
    '0' :: '.' :: (List.replicate (-point).toNat '0' ++ digits)
  else
    let power := point - 1
    let powerDigits := digitChars power.natAbs
    let padded := if powerDigits.length < 2 then '0' :: powerDigits else powerDigits
    let fraction := if digits.length = 1 then [] else '.' :: digits.drop 1
    digits.take 1 ++ fraction ++ 'e' :: (if power < 0 then '-' else '+') :: padded

end Decimal

/-- The shortest text that reads back as `x`. A minus is kept on zero too. -/
def FiniteFloat.text (x : FiniteFloat) : String :=
  let exact := Dyadic.ofFloat x.val
  let body := exact.shortest.layout
  String.ofList (if exact.negative then '-' :: body else body)

example : FiniteFloat.text ⟨1.0, by decide⟩ = "1.0" := by decide +kernel
example : FiniteFloat.text ⟨0.1, by decide⟩ = "0.1" := by decide +kernel
example : FiniteFloat.text ⟨1e15, by decide⟩ = "1000000000000000.0" := by decide +kernel
example : FiniteFloat.text ⟨18446744073709551616.0, by decide⟩ = "1.8446744073709552e+19" := by
  decide +kernel

end ChainIndex
