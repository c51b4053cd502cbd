import Contracts.Text.Hidden

/-!
# Contracts.Text.Quoted

Names between quotes, for inspection.

* `quotedChar` — one character; quotes, backslashes and hidden characters are escaped.
* `quoted`     — a text between quotes.
-/

namespace Contracts.Text

/-- One character between quotes; the hidden ones by their number in base 16. -/
def quotedChar (c : Char) : List Char :=
  if c = '\"' then ['\\', '\"']
  else if c = '\\' then ['\\', '\\']
  else if c = '\n' then ['\\', 'n']
  else if c = '\r' then ['\\', 'r']
  else if c = '\t' then ['\\', 't']
  else if c.toNat = 0 then ['\\', '0']
  else if isHidden c then ['\\', 'u', '{'] ++ Nat.toDigits 16 c.toNat ++ ['}']
  else [c]

def quoted (s : String) : String :=
  String.ofList ('\"' :: (s.toList.flatMap quotedChar ++ ['\"']))

end Contracts.Text
