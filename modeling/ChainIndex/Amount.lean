import ChainIndex.Decimal.Finite

/-!
# Base units

Amounts come as decimal coin counts and are kept as whole base units, a hundred
million to the coin. The product with the number of units in a coin is rounded as
a double first, then to the nearest whole number with halves away from zero, and
what does not fit an unsigned 64-bit word is clamped to the nearest end of it.

## Main definitions

* `unitsPerCoin`: Base units in one coin.
* `toUnits`: A coin amount in base units.
-/

namespace ChainIndex

/-- Base units in one coin. -/
def unitsPerCoin : UInt64 := 100000000

/-- `numerator / denominator` to the nearest whole number, a half upwards. -/
def roundHalfUp (numerator denominator : Nat) : Nat :=
  (2 * numerator + denominator) / (2 * denominator)

/-- The unsigned word nearest to `n`. -/
def clampToWord (n : Nat) : UInt64 :=
  UInt64.ofNat (min n (UInt64.size - 1))

/-- `value` coins in base units. What is not a number counts as nothing, and so
    does everything below zero; what is too large is the largest word. -/
def toUnits (value : Float) : UInt64 :=
  let product := value * unitsPerCoin.toFloat
  let exact := Dyadic.ofFloat product
  if product.isNaN || exact.negative then 0
  else if product.isFinite then
    let (numerator, denominator) := exact.ratio
    clampToWord (roundHalfUp numerator denominator)
  else clampToWord UInt64.size

end ChainIndex
