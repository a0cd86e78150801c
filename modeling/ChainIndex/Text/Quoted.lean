import ChainIndex.Text.Unprintable

/-!
# Quoted text

Text as an error message quotes it: between double quotes, with a backslash before
a quote or a backslash, the short escapes for NUL, tab, line feed and carriage
return, and a braced hexadecimal escape for every other character that would not
show.

## Main definitions

* `Text.quoted`: A text between quotes.
-/

namespace ChainIndex.Text

/-- One character inside the quotes. -/
def quotedChar (c : Char) : List Char :=
  if c = '"' || c = '\\' then ['\\', c]
  else if c = '\x00' then ['\\', '0']
  else if c = '\t' then ['\\', 't']
  else if c = '\n' then ['\\', 'n']
  else if c = '\r' then ['\\', 'r']
  else if isUnprintable c then '\\' :: 'u' :: '{' :: (Nat.toDigits 16 c.toNat ++ ['}'])
  else [c]

/-- `text` between double quotes, with everything that would not show escaped. -/
def quoted (text : String) : String :=
  String.ofList ('"' :: (text.toList.flatMap quotedChar ++ ['"']))

end ChainIndex.Text
