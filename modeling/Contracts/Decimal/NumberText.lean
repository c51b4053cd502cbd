import Contracts.Decimal.Shortest

/-!
# Contracts.Decimal.NumberText

The text of a double.

* `layout`      — a decimal in fixed or scientific notation.
* `doubleText?` — the text of a finite double.
-/

namespace Contracts

/-- Fixed notation is used when the leading digit stands for `10 ^ e` with `e` from -5 to 15. -/
def isFixedExponent (e : Int) : Bool := -5 ≤ e && e ≤ 15

/-- Digits with a point after the first `e + 1` of them, filled with zeros on either side. -/
def fixedText (ds : List Char) (e : Int) : List Char :=
  if e < 0 then '0' :: '.' :: (List.replicate (-e - 1).toNat '0' ++ ds)
  else
    let whole := e.toNat + 1
    if ds.length ≤ whole then ds ++ List.replicate (whole - ds.length) '0' ++ ['.', '0']
    else ds.take whole ++ '.' :: ds.drop whole

/-- One digit, the others after a point, and the exponent with its sign. -/
def scientificText (ds : List Char) (e : Int) : List Char :=
  let sign := if e < 0 then '-' else '+'
  let tail := 'e' :: sign :: Nat.toDigits 10 e.natAbs
  match ds with
  | [] => tail
  | [d] => d :: tail
  | d :: rest => d :: '.' :: rest ++ tail

def layout (d : Decimal) : List Char :=
  let ds := Nat.toDigits 10 d.digits
  let e := d.exponent + ds.length - 1
  if isFixedExponent e then fixedText ds e else scientificText ds e

/-- The text of a finite double: its sign and the shortest decimal that reads back. Infinities and
what is no number have no such text. -/
def doubleText? (x : Float) : Option String :=
  (Binary.ofFloat? x).map fun b =>
    String.ofList ((if b.negative then ['-'] else []) ++
      if b.mantissa = 0 then ['0', '.', '0'] else layout b.shortest)

end Contracts
