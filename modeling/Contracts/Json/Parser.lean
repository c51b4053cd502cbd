import Contracts.Json.Basic

/-!
# Contracts.Json.Parser

Reading JSON text.

* `scanString`, `scanNumber` — the leaves: a string after its opening quote, and a number literal.
* `value`                    — a value and what is left of the text, with a bound on the steps.
* `parseTree`, `parse`       — a whole text, as a tree of literals and as a tree of strings.
* `JsonReader`               — what reads whole texts, and the reader of the program.

A string literal is read even when its escapes name a lone surrogate; it then denotes no string,
and only a reader that wants the string refuses the text.
-/

namespace Contracts
namespace Json

def isSpace (c : Char) : Bool := c == ' ' || c == '\n' || c == '\r' || c == '\t'

def skipSpace (cs : List Char) : List Char := cs.dropWhile isSpace

/-! ## Strings -/

def hexValue? (c : Char) : Option Nat :=
  let n := c.toNat
  if 48 ≤ n ∧ n ≤ 57 then some (n - 48)
  else if 97 ≤ n ∧ n ≤ 102 then some (n - 87)
  else if 65 ≤ n ∧ n ≤ 70 then some (n - 55)
  else none

/-- The number written by four digits in base 16. -/
def hex4? (a b c d : Char) : Option Nat := do
  let a ← hexValue? a
  let b ← hexValue? b
  let c ← hexValue? c
  let d ← hexValue? d
  pure (((a * 16 + b) * 16 + c) * 16 + d)

def shortEscape? (c : Char) : Option Char :=
  if c = '\"' ∨ c = '\\' ∨ c = '/' then some c
  else if c = 'n' then some '\n'
  else if c = 'r' then some '\r'
  else if c = 't' then some '\t'
  else if c = 'b' then some (Char.ofNat 8)
  else if c = 'f' then some (Char.ofNat 12)
  else none

/-- A piece of a string literal: a character, or a surrogate written by its number. -/
inductive Piece where
  | char (c : Char)
  | surrogate (n : Nat)

def Piece.ofUnit (n : Nat) : Piece :=
  if 0xD800 ≤ n ∧ n < 0xE000 then .surrogate n else .char (Char.ofNat n)

/-- The characters of the pieces; a high surrogate needs a low one right after it. -/
def joinPieces : List Piece → Option (List Char)
  | [] => some []
  | .char c :: rest => (joinPieces rest).map (c :: ·)
  | .surrogate hi :: .surrogate lo :: rest =>
    if hi < 0xDC00 ∧ 0xDC00 ≤ lo then
      (joinPieces rest).map (Char.ofNat (0x10000 + (hi - 0xD800) * 0x400 + (lo - 0xDC00)) :: ·)
    else none
  | .surrogate _ :: _ => none

/-- The pieces of a string after its opening quote, and what follows the closing one. -/
def scanString : List Char → Option (List Piece × List Char)
  | [] => none
  | '\"' :: rest => some ([], rest)
  | '\\' :: 'u' :: a :: b :: c :: d :: rest => do
    let n ← hex4? a b c d
    let (ps, rest) ← scanString rest
    pure (Piece.ofUnit n :: ps, rest)
  | '\\' :: c :: rest => do
    let c ← shortEscape? c
    let (ps, rest) ← scanString rest
    pure (.char c :: ps, rest)
  | c :: rest =>
    if c.toNat < 32 then none
    else do
      let (ps, rest) ← scanString rest
      pure (.char c :: ps, rest)

/-- A string literal after its opening quote; the text is missing when it names no string. -/
def stringText? (cs : List Char) : Option (Option String × List Char) :=
  (scanString cs).map fun (ps, rest) => ((joinPieces ps).map String.ofList, rest)

/-! ## Numbers -/

/-- The digits at the front, of which there has to be one. -/
def scanDigits (cs : List Char) : Option (List Char × List Char) :=
  match cs.takeWhile Char.isDigit with
  | [] => none
  | ds => some (ds, cs.dropWhile Char.isDigit)

/-- The part before the point: a zero, or digits that do not start with one. -/
def scanWhole : List Char → Option (List Char × List Char)
  | '0' :: rest => some (['0'], rest)
  | cs => scanDigits cs

def scanFraction : List Char → Option (List Char × List Char)
  | '.' :: rest => (scanDigits rest).map fun (ds, rest) => ('.' :: ds, rest)
  | cs => some ([], cs)

def scanExponent : List Char → Option (List Char × List Char)
  | c :: rest =>
    if c = 'e' ∨ c = 'E' then
      match rest with
      | '+' :: rest => (scanDigits rest).map fun (ds, rest) => (c :: '+' :: ds, rest)
      | '-' :: rest => (scanDigits rest).map fun (ds, rest) => (c :: '-' :: ds, rest)
      | rest => (scanDigits rest).map fun (ds, rest) => (c :: ds, rest)
    else some ([], c :: rest)
  | [] => some ([], [])

def scanSign : List Char → List Char × List Char
  | '-' :: rest => (['-'], rest)
  | cs => ([], cs)

def scanNumber (cs : List Char) : Option (List Char × List Char) := do
  let (sign, rest) := scanSign cs
  let (whole, rest) ← scanWhole rest
  let (fraction, rest) ← scanFraction rest
  let (exponent, rest) ← scanExponent rest
  pure (sign ++ whole ++ fraction ++ exponent, rest)

/-! ## Values -/

/-- What a string literal denotes, where it denotes anything. -/
abbrev Literal := Option String

mutual

/-- A value at the front of the text, blanks before it aside. -/
def value : Nat → List Char → Option (JsonTree Literal × List Char)
  | 0, _ => none
  | fuel + 1, cs =>
    match skipSpace cs with
    | 'n' :: 'u' :: 'l' :: 'l' :: rest => some (.null, rest)
    | 't' :: 'r' :: 'u' :: 'e' :: rest => some (.bool true, rest)
    | 'f' :: 'a' :: 'l' :: 's' :: 'e' :: rest => some (.bool false, rest)
    | '\"' :: rest => (stringText? rest).map fun (s, rest) => (.string s, rest)
    | '[' :: rest =>
      match skipSpace rest with
      | ']' :: rest => some (.array [], rest)
      | rest => (items fuel rest).map fun (js, rest) => (.array js, rest)
    | '{' :: rest =>
      match skipSpace rest with
      | '}' :: rest => some (.object [], rest)
      | rest => (members fuel rest).map fun (ms, rest) => (.object ms, rest)
    | cs => (scanNumber cs).map fun (ds, rest) => (.number (String.ofList ds), rest)

/-- The items of an array, up to and with the closing bracket. -/
def items : Nat → List Char → Option (List (JsonTree Literal) × List Char)
  | 0, _ => none
  | fuel + 1, cs => do
    let (j, rest) ← value fuel cs
    match skipSpace rest with
    | ',' :: rest =>
      let (js, rest) ← items fuel rest
      pure (j :: js, rest)
    | ']' :: rest => pure ([j], rest)
    | _ => none

/-- The members of an object, up to and with the closing brace. -/
def members : Nat → List Char → Option (List (Literal × JsonTree Literal) × List Char)
  | 0, _ => none
  | fuel + 1, cs =>
    match skipSpace cs with
    | '\"' :: rest => do
      let (key, rest) ← stringText? rest
      match skipSpace rest with
      | ':' :: rest =>
        let (j, rest) ← value fuel rest
        match skipSpace rest with
        | ',' :: rest =>
          let (ms, rest) ← members fuel rest
          pure ((key, j) :: ms, rest)
        | '}' :: rest => pure ([(key, j)], rest)
        | _ => none
      | _ => none
    | _ => none

end

/-- Every step of `value` spends a unit and two steps read a character, so twice the length is
enough for any text. -/
def parseTree (text : List Char) : Option (JsonTree Literal) :=
  match value (2 * text.length + 2) text with
  | some (j, rest) => if (skipSpace rest).isEmpty then some j else none
  | none => none

/-- The tree that a text denotes. -/
def parse (text : String) : Option Json := (parseTree text.toList).bind JsonTree.denote?

end Json

/-- A reader of JSON text. -/
class JsonReader where
  tree? : String → Option (JsonTree Json.Literal)

/-- The reader of the program. -/
instance Json.standardReader : JsonReader where
  tree? text := parseTree text.toList

end Contracts
