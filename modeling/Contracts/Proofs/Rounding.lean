import Contracts.Proofs.Doubles

/-!
# Contracts.Proofs.Rounding

Rounding a number to a double.

* `RoundsTo`           — the double is a nearest one, with an even mantissa where there are two.
* `InCell`             — the numbers between the midpoints to the two neighbours of a magnitude.
* `InCell.roundsTo`     — they are rounded to a double of that magnitude.
* `RoundsTo.iff_beq`    — no number is rounded to two doubles, but for the two zeros.
-/

namespace Contracts

/-- A number of this magnitude is no longer rounded to a finite double: it is half a unit in the
last place above the greatest. -/
def overflowBound : ℚ := 2 ^ 1024 - 2 ^ 970

/-- Rounding to nearest: no finite double is nearer to the number than `x`, and where another one
is as near, `x` is the one with the even mantissa. -/
def RoundsTo (q : ℚ) (x : Float) : Prop :=
  |q| < overflowBound ∧ ∃ b, Binary.ofFloat? x = some b ∧
    ∀ y c, Binary.ofFloat? y = some c → |q - b.value| ≤ |q - c.value| ∧
      (|q - b.value| = |q - c.value| → b.value ≠ c.value → b.mantissa % 2 = 0)

/-! ## Between the midpoints -/

theorem abs_sub_le_iff_add_le {a m d : ℚ} (h : a < m) : |d - m| ≤ |d - a| ↔ a + m ≤ 2 * d := by
  rw [← sq_le_sq]
  constructor <;> intro hle <;> nlinarith

theorem abs_sub_le_iff_le_add {a m d : ℚ} (h : a < m) : |d - a| ≤ |d - m| ↔ 2 * d ≤ a + m := by
  rw [← sq_le_sq]
  constructor <;> intro hle <;> nlinarith

/-- The midpoint above the greatest finite double. -/
theorem add_magnitude_infiniteBits :
    magnitude (infiniteBits - 1) + magnitude infiniteBits = 2 * overflowBound := by
  have hunits (p : Nat) : (9007199254740991 : ℚ) * 2 ^ (p + 1) + 4503599627370496 * 2 ^ (p + 2) =
      2 * (2 ^ (p + 54) - 2 ^ p) := by ring
  have hlast : magnitude (infiniteBits - 1) = 9007199254740991 * 2 ^ (970 + 1) := by
    norm_num [magnitude, mantissaAt, exponentAt, infiniteBits]
  have hnext : magnitude infiniteBits = 4503599627370496 * 2 ^ (970 + 2) := by
    norm_num [magnitude, mantissaAt, exponentAt, infiniteBits]
  rw [hlast, hnext, overflowBound]
  exact hunits 970

/-- The number lies between the midpoints to the neighbours of the magnitude, and may be a midpoint
where the mantissa is even. -/
structure InCell (k : Nat) (d : ℚ) : Prop where
  nonneg : 0 ≤ d
  low : ∀ j, j + 1 = k → magnitude j + magnitude k ≤ 2 * d
  high : 2 * d ≤ magnitude k + magnitude (k + 1)
  even_of_low : ∀ j, j + 1 = k → magnitude j + magnitude k = 2 * d → k % 2 = 0
  even_of_high : 2 * d = magnitude k + magnitude (k + 1) → k % 2 = 0

namespace InCell

variable {k l : Nat} {d : ℚ} (hd : InCell k d)

/-- A magnitude lies in its own cell. -/
theorem self (k : Nat) : InCell k (magnitude k) where
  nonneg := magnitude_nonneg k
  low := by
    rintro j rfl
    linarith [magnitude_lt_succ j]
  high := by linarith [magnitude_lt_succ k]
  even_of_low := by
    rintro j rfl heq
    linarith [magnitude_lt_succ j]
  even_of_high heq := by linarith [magnitude_lt_succ k]

include hd

/-- No magnitude is nearer. -/
theorem dist_le (l : Nat) : |d - magnitude k| ≤ |d - magnitude l| := by
  rcases lt_trichotomy l k with hlt | rfl | hlt
  · obtain ⟨j, rfl⟩ : ∃ j, k = j + 1 := ⟨k - 1, by omega⟩
    have hlow := hd.low j rfl
    have hle : magnitude l ≤ magnitude j := magnitude_strictMono.monotone (by omega)
    rw [abs_sub_le_iff_add_le (magnitude_strictMono hlt)]
    linarith
  · exact le_refl _
  · have hhigh := hd.high
    have hle : magnitude (k + 1) ≤ magnitude l := magnitude_strictMono.monotone hlt
    rw [abs_sub_le_iff_le_add (magnitude_strictMono hlt)]
    linarith

/-- A magnitude that is as near is a neighbour, and its mantissa is odd. -/
theorem tie (hne : l ≠ k) (heq : |d - magnitude k| = |d - magnitude l|) :
    k % 2 = 0 ∧ l % 2 = 1 := by
  -- a tie is a midpoint, and no midpoint but that to a neighbour is in the cell
  rcases Nat.lt_or_gt_of_ne hne with hlt | hlt
  · obtain ⟨j, rfl⟩ : ∃ j, k = j + 1 := ⟨k - 1, by omega⟩
    have hlow := hd.low j rfl
    have hmid := (abs_sub_le_iff_le_add (magnitude_strictMono hlt)).mp heq.ge
    have hle : magnitude j ≤ magnitude l := by linarith
    have hlj : l = j := by
      have := magnitude_strictMono.le_iff_le.mp hle
      omega
    subst hlj
    have heven := hd.even_of_low l rfl (by linarith)
    omega
  · have hhigh := hd.high
    have hmid := (abs_sub_le_iff_add_le (magnitude_strictMono hlt)).mp heq.ge
    have hle : magnitude l ≤ magnitude (k + 1) := by linarith
    have hlk : l = k + 1 := by
      have := magnitude_strictMono.le_iff_le.mp hle
      omega
    subst hlk
    have heven := hd.even_of_high (by linarith)
    omega

/-- What is nearest among the magnitudes is nearest among the negated ones too. -/
theorem dist_le_signed {z : ℚ} (hz : z = magnitude l ∨ z = -magnitude l) :
    |d - magnitude k| ≤ |d - z| := by
  rcases hz with rfl | rfl
  · exact hd.dist_le l
  · have hzero := hd.dist_le 0
    have hnonneg := magnitude_nonneg l
    rw [magnitude_zero, sub_zero, abs_of_nonneg hd.nonneg] at hzero
    rw [sub_neg_eq_add, abs_of_nonneg (add_nonneg hd.nonneg hnonneg)]
    linarith

theorem tie_signed {z : ℚ} (hz : z = magnitude l ∨ z = -magnitude l) (hne : z ≠ magnitude k)
    (heq : |d - magnitude k| = |d - z|) : k % 2 = 0 ∧ l % 2 = 1 := by
  rcases hz with rfl | rfl
  · refine hd.tie ?_ heq
    rintro rfl
    exact hne rfl
  · -- zero is at least as near as a number of the other sign
    have hzero := hd.dist_le 0
    have hnonneg := magnitude_nonneg l
    rw [magnitude_zero, sub_zero, abs_of_nonneg hd.nonneg, heq, sub_neg_eq_add,
      abs_of_nonneg (add_nonneg hd.nonneg hnonneg)] at hzero
    have hl0 : magnitude l = magnitude 0 := by
      rw [magnitude_zero]
      linarith
    have hl : l = 0 := magnitude_strictMono.injective hl0
    subst hl
    rw [magnitude_zero, neg_zero, ← magnitude_zero] at heq hne
    refine hd.tie ?_ heq
    rintro rfl
    exact hne rfl

theorem lt_overflowBound (hk : k < infiniteBits) : d < overflowBound := by
  have hhigh := hd.high
  have hk' : magnitude k ≤ magnitude (infiniteBits - 1) :=
    magnitude_strictMono.monotone (by omega)
  have hk1 : magnitude (k + 1) ≤ magnitude infiniteBits := magnitude_strictMono.monotone (by omega)
  have hbound := add_magnitude_infiniteBits
  -- the greatest finite double has an odd mantissa, so the midpoint above it is not in its cell
  refine lt_of_le_of_ne (by linarith) fun heq => ?_
  have heq1 : magnitude (k + 1) = magnitude infiniteBits := by linarith
  have hk2 : k + 1 = infiniteBits := magnitude_strictMono.injective heq1
  have heven := hd.even_of_high (by rw [hk2]; linarith)
  rw [infiniteBits] at hk2
  omega

end InCell

/-! ## Signs -/

theorem abs_signValue_mul_sub (negative : Bool) (d v : ℚ) :
    |Json.signValue negative * d - v| = |d - Json.signValue negative * v| := by
  cases negative with
  | false => simp [Json.signValue]
  | true =>
    simp only [Json.signValue, if_true, neg_mul, one_mul]
    rw [← abs_neg]
    congr 1
    ring

variable {x y : Float} {b c : Binary} {k l : Nat} {d : ℚ}

/-- Up to a sign a double is a magnitude or its negation. -/
theorem signValue_mul_value (negative : Bool) (hc : c.HasBits l) :
    Json.signValue negative * c.value = magnitude l ∨
      Json.signValue negative * c.value = -magnitude l := by
  rw [hc.value_eq]
  cases negative <;> cases c.negative <;> simp [Json.signValue]

theorem signValue_mul_self (hb : b.HasBits k) :
    Json.signValue b.negative * b.value = magnitude k := by
  rw [hb.value_eq]
  cases b.negative <;> simp [Json.signValue]

/-- What is between the midpoints is rounded to that magnitude. -/
theorem InCell.roundsTo (hd : InCell k d) (hx : Binary.ofFloat? x = some b) (hb : b.HasBits k) :
    RoundsTo (Json.signValue b.negative * d) x := by
  refine ⟨?_, b, hx, fun y c hy => ?_⟩
  · rw [abs_mul, abs_signValue, one_mul, abs_of_nonneg hd.nonneg]
    exact hd.lt_overflowBound hb.lt
  · obtain ⟨l, hc⟩ := Binary.exists_hasBits hy
    have hz := signValue_mul_value b.negative hc
    rw [abs_signValue_mul_sub, abs_signValue_mul_sub, signValue_mul_self hb]
    refine ⟨hd.dist_le_signed hz, fun htie hne => ?_⟩
    rw [hb.mantissa, mantissaAt_mod_two]
    refine (hd.tie_signed hz ?_ htie).1
    rw [← signValue_mul_self hb]
    exact fun h => hne (mul_left_cancel₀ (signValue_ne_zero _) h).symm

/-! ## No number is rounded to two doubles -/

/-- The values of the doubles in ascending order, counted from zero. -/
def signedMagnitude (i : ℤ) : ℚ := if 0 ≤ i then magnitude i.toNat else -magnitude (-i).toNat

theorem signedMagnitude_natCast (m : ℕ) : signedMagnitude m = magnitude m := by
  rw [signedMagnitude, if_pos (Int.natCast_nonneg m), Int.toNat_natCast]

theorem signedMagnitude_neg_natCast (m : ℕ) : signedMagnitude (-(m : ℤ)) = -magnitude m := by
  rw [signedMagnitude]
  split_ifs with hm
  · obtain rfl : m = 0 := by omega
    simp [magnitude_zero]
  · rw [neg_neg, Int.toNat_natCast]

theorem signedMagnitude_strictMono : StrictMono signedMagnitude := by
  refine strictMono_int_of_lt_succ fun i => ?_
  obtain ⟨m, rfl | rfl⟩ := i.eq_nat_or_neg
  · have hlt := magnitude_lt_succ m
    rw [← signedMagnitude_natCast, ← signedMagnitude_natCast] at hlt
    exact_mod_cast hlt
  · cases m with
    | zero =>
      have hlt := magnitude_lt_succ 0
      rw [← signedMagnitude_natCast, ← signedMagnitude_natCast] at hlt
      exact_mod_cast hlt
    | succ m =>
      have hpred : -((m + 1 : ℕ) : ℤ) + 1 = -(m : ℤ) := by
        push_cast
        ring
      rw [hpred, signedMagnitude_neg_natCast, signedMagnitude_neg_natCast]
      exact neg_lt_neg (magnitude_lt_succ m)

/-- The value of a double is one of these, and the mantissa is odd for every other one of them. -/
theorem exists_signedMagnitude (hx : Binary.ofFloat? x = some b) :
    ∃ i : ℤ, i.natAbs < infiniteBits ∧ b.value = signedMagnitude i ∧
      b.mantissa % 2 = i.natAbs % 2 := by
  obtain ⟨k, hb⟩ := Binary.exists_hasBits hx
  have hparity : b.mantissa % 2 = k % 2 := by rw [hb.mantissa, mantissaAt_mod_two]
  cases hsign : b.negative with
  | false =>
    refine ⟨k, hb.lt, ?_, hparity⟩
    rw [hb.value_eq, hsign, signedMagnitude_natCast]
    simp [Json.signValue]
  | true =>
    refine ⟨-k, by simpa using hb.lt, ?_, by simpa using hparity⟩
    rw [hb.value_eq, hsign, signedMagnitude_neg_natCast]
    simp [Json.signValue]

/-- Each of them is the value of a double. -/
theorem exists_value_eq {i : ℤ} (hi : i.natAbs < infiniteBits) :
    ∃ x b, Binary.ofFloat? x = some b ∧ b.value = signedMagnitude i := by
  obtain ⟨m, rfl | rfl⟩ := i.eq_nat_or_neg
  · obtain ⟨x, hx⟩ := exists_float false hi
    refine ⟨x, _, hx, ?_⟩
    rw [signedMagnitude_natCast, Binary.value]
    simp [Json.signValue, magnitude]
  · obtain ⟨x, hx⟩ := exists_float true hi
    refine ⟨x, _, hx, ?_⟩
    rw [signedMagnitude_neg_natCast, Binary.value]
    simp [Json.signValue, magnitude]

theorem two_mul_eq_of_abs_sub_eq {q a c : ℚ} (hac : a ≠ c) (h : |q - a| = |q - c|) :
    2 * q = a + c := by
  rcases abs_eq_abs.mp h with h | h
  · exact absurd (by linarith) hac
  · linarith

/-- Two doubles cannot both be nearest with an even mantissa: there would be one between them. -/
theorem not_both_even {q : ℚ} {i j : ℤ} (hij : i < j) (hj : j.natAbs < infiniteBits)
    (hi : i.natAbs < infiniteBits) (hmid : 2 * q = signedMagnitude i + signedMagnitude j)
    (hnearest : ∀ y c, Binary.ofFloat? y = some c → |q - signedMagnitude i| ≤ |q - c.value|) :
    i.natAbs % 2 = 1 ∨ j.natAbs % 2 = 1 := by
  by_contra heven
  have hgap : i + 1 < j := by omega
  obtain ⟨y, c, hy, hc⟩ := exists_value_eq (i := i + 1) (by omega)
  have hlow : signedMagnitude i < signedMagnitude (i + 1) :=
    signedMagnitude_strictMono (by omega)
  have hhigh : signedMagnitude (i + 1) < signedMagnitude j := signedMagnitude_strictMono hgap
  have hle := hnearest y c hy
  have hfar : |q - signedMagnitude i| = q - signedMagnitude i := abs_of_pos (by linarith)
  rw [hc, hfar] at hle
  rcases abs_cases (q - signedMagnitude (i + 1)) with ⟨habs, -⟩ | ⟨habs, -⟩ <;>
    rw [habs] at hle <;> linarith

/-- What is rounded to a double is rounded to those that are equal to it, and to no others. -/
theorem RoundsTo.iff_beq {q : ℚ} (h : RoundsTo q x) : RoundsTo q y ↔ (x == y) = true := by
  obtain ⟨hlt, b, hx, hnearest⟩ := h
  obtain ⟨i, hi, hbi, hbparity⟩ := exists_signedMagnitude hx
  constructor
  · rintro ⟨-, c, hy, hnearestY⟩
    obtain ⟨j, hj, hcj, hcparity⟩ := exists_signedMagnitude hy
    rw [beq_iff_value_eq hx hy]
    by_contra hne
    have htie := le_antisymm (hnearest y c hy).1 (hnearestY x b hx).1
    have hb := (hnearest y c hy).2 htie hne
    have hc := (hnearestY x b hx).2 htie.symm (Ne.symm hne)
    have hmid := two_mul_eq_of_abs_sub_eq hne htie
    rw [hbi, hcj] at hmid hne
    rcases lt_or_gt_of_ne (fun hij : i = j => hne (hij ▸ rfl)) with hij | hji
    · have hodd := not_both_even hij hj hi hmid fun y c hy => hbi ▸ (hnearest y c hy).1
      omega
    · have hodd := not_both_even hji hi hj (by rw [hmid, add_comm]) fun y c hy =>
        hcj ▸ (hnearestY y c hy).1
      omega
  · intro heq
    obtain ⟨c, hy⟩ := finite_of_beq hx heq
    have hvalue := (beq_iff_value_eq hx hy).mp heq
    obtain ⟨j, -, hcj, hcparity⟩ := exists_signedMagnitude hy
    have hij : i = j := signedMagnitude_strictMono.injective (by rw [← hbi, ← hcj, hvalue])
    have hparity : b.mantissa % 2 = c.mantissa % 2 := by rw [hbparity, hcparity, hij]
    refine ⟨hlt, c, hy, ?_⟩
    rw [← hvalue, ← hparity]
    exact hnearest

end Contracts
