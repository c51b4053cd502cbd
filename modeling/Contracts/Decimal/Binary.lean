/-!
# Contracts.Decimal.Binary

The exact value of a double.

* `Binary` — a number `± mantissa · 2 ^ exponent`.
* `Binary.ofFloat?` — the finite doubles, read off their bits.
* `Binary.toInt?`, `integer?` — the integer that a number, or a double, is when it is one.
* `safeInteger?` — the integers that doubles hold without gaps.
-/

namespace Contracts

def twoPow (n : Nat) : Nat := Nat.pow 2 n

def tenPow (n : Nat) : Nat := Nat.pow 10 n

/-- The number `± mantissa · 2 ^ exponent`. -/
structure Binary where
  negative : Bool
  mantissa : Nat
  exponent : Int
  deriving DecidableEq, Repr

namespace Binary

/-- The value of a bit pattern with 52 bits of fraction and 11 of exponent. Patterns whose
exponent bits are all set stand for no number. -/
def ofBits? (bits : Nat) : Option Binary :=
  let fraction : Nat := bits % twoPow 52
  let biased : Nat := bits / twoPow 52 % twoPow 11
  let negative : Bool := bits / twoPow 63 % 2 == 1
  if biased = 2047 then none
  else if biased = 0 then some ⟨negative, fraction, -1074⟩
  else some ⟨negative, twoPow 52 + fraction, (biased : Int) - 1075⟩

def ofFloat? (x : Float) : Option Binary := ofBits? x.toBits.toNat

def toInt? (b : Binary) : Option Int :=
  let magnitude : Option Nat :=
    if 0 ≤ b.exponent then some (b.mantissa * twoPow b.exponent.toNat)
    else
      let unit := twoPow (-b.exponent).toNat
      if b.mantissa % unit = 0 then some (b.mantissa / unit) else none
  magnitude.map fun (n : Nat) => if b.negative then -(n : Int) else n

end Binary

/-- The integer that a double is, when it has no fraction. -/
def integer? (x : Float) : Option Int := (Binary.ofFloat? x).bind Binary.toInt?

/-- The greatest integer below which every integer is a double: `2 ^ 53 - 1`. -/
def maxSafeInteger : Nat := 9007199254740991

/-- The integer that a double is, when its magnitude is at most `maxSafeInteger`. -/
def safeInteger? (x : Float) : Option Int :=
  (integer? x).filter fun n => n.natAbs ≤ maxSafeInteger

end Contracts
