import Contracts.Decimal.Binary

/-!
# Contracts.Decimal.Shortest

The shortest decimal that reads back to a double.

* `Decimal`          — a number `digits · 10 ^ exponent`.
* `Binary.reads`     — the decimals that are nearer to a double than to its neighbours.
* `Binary.shortest`  — among them the one on the coarsest decimal grid, nearest to the double.

A decimal with fewer digits lies on a coarser grid `10 ^ k`, so the grids are tried from coarse
to fine. If any point of a grid reads back, one of the two points around the double does.
-/

namespace Contracts

/-- The number `digits · 10 ^ exponent`. -/
structure Decimal where
  digits : Nat
  exponent : Int
  deriving DecidableEq, Repr

/-- `a · 2 ^ p` and `b · 10 ^ k`, over a common denominator, so that they can be compared. -/
def scaled (a : Nat) (p : Int) (b : Nat) (k : Int) : Nat × Nat :=
  (a * twoPow p.toNat * tenPow (-k).toNat, b * tenPow k.toNat * twoPow (-p).toNat)

namespace Binary

/-- The number is the least of its power of two, so that the neighbour below it is twice as near
as the one above it. -/
def atPowerOfTwo (b : Binary) : Bool := b.mantissa == twoPow 52 && -1074 < b.exponent

/-- The decimal rounds to this double: it lies between the midpoints to the two neighbours, and
may be a midpoint when the mantissa is even. The midpoints are counted in quarters of the
last place. -/
def reads (b : Binary) (d : Decimal) : Bool :=
  let low := if b.atPowerOfTwo then 4 * b.mantissa - 1 else 4 * b.mantissa - 2
  let high := 4 * b.mantissa + 2
  let (l, x) := scaled low (b.exponent - 2) d.digits d.exponent
  let (h, x') := scaled high (b.exponent - 2) d.digits d.exponent
  if b.mantissa % 2 = 0 then l ≤ x && x' ≤ h else l < x && x' < h

/-- The point of the grid `10 ^ k` at or below the number. -/
def floorAt (b : Binary) (k : Int) : Nat :=
  let (n, d) := scaled b.mantissa b.exponent 1 k
  n / d

/-- The number is nearer to `n · 10 ^ k` than to the next point of the grid; halfway, the even
one counts as the nearer. -/
def nearerBelow (b : Binary) (n : Nat) (k : Int) : Bool :=
  let (x, m) := scaled (2 * b.mantissa) b.exponent (2 * n + 1) k
  if x = m then n % 2 == 0 else x < m

/-- The point of the grid that reads back, the nearer one if both neighbours do. -/
def hit? (b : Binary) (k : Int) : Option Decimal :=
  let n := b.floorAt k
  let below : Decimal := ⟨n, k⟩
  let above : Decimal := ⟨n + 1, k⟩
  if b.reads below then
    if b.reads above && !b.nearerBelow n k then some above else some below
  else if b.reads above then some above
  else none

/-- The first hit on the grids `10 ^ k`, `10 ^ (k - 1)`, … -/
def search (b : Binary) : Nat → Int → Decimal
  | 0, k => ⟨b.floorAt k, k⟩
  | steps + 1, k =>
    match b.hit? k with
    | some d => d
    | none => b.search steps (k - 1)

/-- A power of ten that is above the number, and not far above it. -/
def ceilingExponent (b : Binary) : Int :=
  ((Nat.log2 b.mantissa : Int) + 1 + b.exponent) * 30103 / 100000 + 1

/-- The decimal with the fewest digits that reads back, nearest to the number. Seventeen digits
are enough, and the start is at most two powers of ten above the first digit. -/
def shortest (b : Binary) : Decimal := b.search 24 b.ceilingExponent

end Binary
end Contracts
