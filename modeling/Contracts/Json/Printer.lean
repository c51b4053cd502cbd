import Contracts.Json.Basic

/-!
# Contracts.Json.Printer

The compact text of a JSON tree: no blanks, members in order.

* `quote`        — a string between quotes, with the short escapes and `\u00xx` for the other
  control characters; nothing else is escaped.
* `write`        — the characters of a tree's text in front of others.
* `compactText`  — the text of a whole tree.
* `write_append` — the characters that follow a text do not change it.
-/

namespace Contracts
namespace Json

/-- A digit of a number in base 16, in lower case. -/
def hexDigit (n : Nat) : Char := "0123456789abcdef".toList.getD n '0'

/-- How one character of a string is written. -/
def escape (c : Char) : List Char :=
  if c = '\"' then ['\\', '\"']
  else if c = '\\' then ['\\', '\\']
  else if c = '\n' then ['\\', 'n']
  else if c = '\r' then ['\\', 'r']
  else if c = '\t' then ['\\', 't']
  else if c.toNat = 8 then ['\\', 'b']
  else if c.toNat = 12 then ['\\', 'f']
  else if c.toNat < 32 then
    ['\\', 'u', '0', '0', hexDigit (c.toNat / 16), hexDigit (c.toNat % 16)]
  else [c]

def quoteChars (cs : List Char) : List Char := '\"' :: (cs.flatMap escape ++ ['\"'])

/-- A string as JSON text. -/
def quote (s : String) : String := String.ofList (quoteChars s.toList)

mutual

/-- The characters of a tree's text, in front of `rest`. -/
def write : Json → List Char → List Char
  | .null, rest => "null".toList ++ rest
  | .bool true, rest => "true".toList ++ rest
  | .bool false, rest => "false".toList ++ rest
  | .number literal, rest => literal.toList ++ rest
  | .string text, rest => quoteChars text.toList ++ rest
  | .array [], rest => '[' :: ']' :: rest
  | .array (item :: items), rest => '[' :: write item (writeItems items rest)
  | .object [], rest => '{' :: '}' :: rest
  | .object ((key, value) :: members), rest =>
    '{' :: (quoteChars key.toList ++ ':' :: write value (writeMembers members rest))

/-- The items after the first, and the closing bracket. -/
def writeItems : List Json → List Char → List Char
  | [], rest => ']' :: rest
  | item :: items, rest => ',' :: write item (writeItems items rest)

/-- The members after the first, and the closing brace. -/
def writeMembers : List (String × Json) → List Char → List Char
  | [], rest => '}' :: rest
  | (key, value) :: members, rest =>
    ',' :: (quoteChars key.toList ++ ':' :: write value (writeMembers members rest))

end

/-- The characters of a tree's text. -/
def chars (j : Json) : List Char := write j []

/-! ## What follows a text does not change it -/

mutual

theorem write_append (j : Json) (a b : List Char) : write j (a ++ b) = write j a ++ b := by
  match j with
  | .null | .bool true | .bool false | .number _ | .string _ => simp [write]
  | .array [] | .object [] => simp [write]
  | .array (item :: items) =>
    simp only [write, writeItems_append items a b, write_append item, List.cons_append]
  | .object ((key, value) :: members) =>
    simp only [write, writeMembers_append members a b, write_append value, List.cons_append,
      List.append_assoc]

theorem writeItems_append (items : List Json) (a b : List Char) :
    writeItems items (a ++ b) = writeItems items a ++ b := by
  match items with
  | [] => simp [writeItems]
  | item :: items =>
    simp only [writeItems, writeItems_append items a b, write_append item, List.cons_append]

theorem writeMembers_append (members : List (String × Json)) (a b : List Char) :
    writeMembers members (a ++ b) = writeMembers members a ++ b := by
  match members with
  | [] => simp [writeMembers]
  | (key, value) :: members =>
    simp only [writeMembers, writeMembers_append members a b, write_append value,
      List.cons_append, List.append_assoc]

end

/-- A tree's text, and then what follows it. -/
theorem write_eq_chars_append (j : Json) (rest : List Char) : write j rest = chars j ++ rest :=
  write_append j [] rest

/-- The compact text of a tree. -/
def compactText (j : Json) : String := String.ofList (chars j)

end Json
end Contracts
