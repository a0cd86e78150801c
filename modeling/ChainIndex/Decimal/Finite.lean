/-!
# Finite doubles

The double-precision numbers that a document can hold: neither an infinity nor a
NaN has a written form, so a number that was read, stored or is about to be
written is always finite. The proof travels with the number, which is why no
reader or writer below ever has to ask again.

`Dyadic` is the exact value of such a number, a sign, a mantissa and a power of
two. Everything that depends on the exact value (rounding to whole units, the
shortest text) works on it with natural numbers only.

Reading a decimal keeps the leading digits that fit a 64-bit word as an integer
significand, rounds that to a double and scales it once by a power of ten, itself
rounded. The result is the nearest double whenever the significand is below
2^53 and the power of ten at most 22, and within an ulp or so otherwise.

## Main definitions

* `FiniteFloat`: A double together with the proof that it is finite.
* `FiniteFloat.ofInt?`: The double nearest to an integer.
* `FiniteFloat.scaled?`: A significand times a power of ten.
* `Dyadic.ofFloat`: The exact value of a double.
-/

namespace ChainIndex

/-- A double that is a number of the real line. -/
structure FiniteFloat where
  /-- The number. -/
  val : Float
  /-- It is neither infinite nor a NaN. -/
  finite : val.isFinite = true
deriving DecidableEq

namespace FiniteFloat

/-- The double `x`, when it is finite. -/
def ofFloat? (x : Float) : Option FiniteFloat :=
  if h : x.isFinite = true then some ⟨x, h⟩ else none

instance : Inhabited FiniteFloat := ⟨⟨0.0, by decide⟩⟩

/-- The double nearest to `n`, ties to the even neighbour. -/
def ofInt? (n : Int) : Option FiniteFloat :=
  match n with
  | .ofNat k => ofFloat? (Float.ofNat k)
  | .negSucc k => ofFloat? (-Float.ofNat (k + 1))

/-- The double nearest to `10 ^ k`. -/
def powerOfTen (k : Nat) : Float :=
  Float.ofScientific 1 false k

/-- `significand · 10 ^ exponent` with at most one rounding for the significand,
    one for the power of ten and one for their product or quotient. Powers above
    308 are not doubles: a quotient by one of them is taken in several steps and
    reaches zero after three, a product with one overflows. An overflow has no
    finite value, except that zero stays zero. -/
def scaled? (negative : Bool) (significand : UInt64) (exponent : Int) : Option FiniteFloat :=
  let start := significand.toFloat
  let magnitude :=
    match exponent with
    | .ofNat e =>
      -- Past the greatest power the product overflows on purpose.
      if e ≤ 308 then start * powerOfTen e
      else if significand = 0 then start
      else powerOfTen 308 * powerOfTen 308
    | .negSucc e =>
      let steps := e / 308
      let shrunk := (List.replicate (min steps 3) ()).foldl (fun x _ => x / powerOfTen 308) start
      shrunk / powerOfTen (e + 1 - 308 * steps)
  ofFloat? (if negative then -magnitude else magnitude)

end FiniteFloat

/-- A sign, a mantissa and a power of two: `± mantissa · 2 ^ exponent`. -/
structure Dyadic where
  /-- Is the sign a minus? Zero has a sign too. -/
  negative : Bool
  /-- The mantissa, below 2^53 for a double. -/
  mantissa : Nat
  /-- The power of two. -/
  exponent : Int
deriving DecidableEq, Repr

namespace Dyadic

/-- The exact value of a finite double, from its sign, exponent and fraction
    fields. The lowest exponent field stands for the numbers without the implicit
    leading bit. -/
def ofFloat (x : Float) : Dyadic :=
  let bits : Nat := x.toBits.toNat
  let fraction : Nat := bits % Nat.pow 2 52
  let field : Nat := bits / Nat.pow 2 52 % Nat.pow 2 11
  { negative := bits / Nat.pow 2 63 == 1
    mantissa := if field = 0 then fraction else Nat.pow 2 52 + fraction
    exponent := (if field = 0 then 1 else field : Int) - 1075 }

/-- The absolute value as a fraction, numerator first. -/
def ratio (d : Dyadic) : Nat × Nat :=
  match d.exponent with
  | .ofNat e => (d.mantissa * Nat.pow 2 e, 1)
  | .negSucc e => (d.mantissa, Nat.pow 2 (e + 1))

end Dyadic

end ChainIndex
