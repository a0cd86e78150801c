/-!
# Fixed-width hexadecimal

Numbers as eight lowercase hexadecimal digits, so that the order of the texts is the
order of the numbers. Sort keys are built from heights and positions written so.

## Main definitions

* `Text.hexDigits`: The last digits of a number in base sixteen.
* `encodeHeight`: A 32-bit number in eight digits.
-/

namespace ChainIndex

/-- A hexadecimal digit of a number below sixteen. -/
def Text.hexDigit (n : Nat) : Char :=
  if n < 10 then Char.ofNat (48 + n) else Char.ofNat (87 + n)

/-- The last `width` digits of `n` in base sixteen, most significant first. -/
def Text.hexDigits : Nat → Nat → List Char
  | 0, _ => []
  | width + 1, n => Text.hexDigits width (n / 16) ++ [Text.hexDigit (n % 16)]

/-- A height or a position as eight hexadecimal digits. -/
def encodeHeight (height : UInt32) : String :=
  String.ofList (Text.hexDigits 8 height.toNat)

example : encodeHeight 0xdeadbeef = "deadbeef" := by decide
example : encodeHeight 10 = "0000000a" := by decide

end ChainIndex
