import Contracts.Decimal.Shortest
import Contracts.Proofs.Rounding

/-!
# Contracts.Proofs.Shortest

The decimal that is written for a double reads back to it.

* `scaled_le_iff`, `scaled_lt_iff` — a comparison over a common denominator, as one of numbers.
* `Binary.reads_iff`   — what is taken for reading back lies between the midpoints.
* `Binary.reads_above` — on a grid finer than half a unit in the last place, the point above the
  number reads back.
* `Binary.shortest_spec` — the search comes to such a grid, so what it finds reads back.
-/

namespace Contracts

/-! ## Comparing over a common denominator -/

section Scaled

variable {a b : Nat} {p k : Int}

/-- What both numbers are multiplied with. -/
def commonDenominator (p k : Int) : ℚ := 10 ^ (-k).toNat * 2 ^ (-p).toNat

theorem commonDenominator_pos (p k : Int) : 0 < commonDenominator p k := by
  rw [commonDenominator]
  positivity

theorem pow_toNat_eq {r : ℚ} (hr : r ≠ 0) (n : Int) : r ^ n.toNat = r ^ n * r ^ (-n).toNat := by
  rw [← zpow_natCast, ← zpow_natCast, ← zpow_add₀ hr]
  congr 1
  omega

theorem scaled_fst (a b : Nat) (p k : Int) :
    ((scaled a p b k).1 : ℚ) = a * 2 ^ p * commonDenominator p k := by
  simp only [scaled, twoPow_eq, tenPow_eq, commonDenominator]
  push_cast
  rw [pow_toNat_eq two_ne_zero]
  ring

theorem scaled_snd (a b : Nat) (p k : Int) :
    ((scaled a p b k).2 : ℚ) = b * 10 ^ k * commonDenominator p k := by
  simp only [scaled, twoPow_eq, tenPow_eq, commonDenominator]
  push_cast
  rw [pow_toNat_eq (by norm_num : (10 : ℚ) ≠ 0)]
  ring

theorem scaled_le_iff : (scaled a p b k).1 ≤ (scaled a p b k).2 ↔
    (a : ℚ) * 2 ^ p ≤ b * 10 ^ k := by
  rw [← Nat.cast_le (α := ℚ), scaled_fst, scaled_snd,
    mul_le_mul_iff_left₀ (commonDenominator_pos p k)]

theorem scaled_ge_iff : (scaled a p b k).2 ≤ (scaled a p b k).1 ↔
    (b : ℚ) * 10 ^ k ≤ a * 2 ^ p := by
  rw [← Nat.cast_le (α := ℚ), scaled_fst, scaled_snd,
    mul_le_mul_iff_left₀ (commonDenominator_pos p k)]

theorem scaled_lt_iff : (scaled a p b k).1 < (scaled a p b k).2 ↔
    (a : ℚ) * 2 ^ p < b * 10 ^ k := by
  rw [← not_le, scaled_ge_iff, not_le]

theorem scaled_gt_iff : (scaled a p b k).2 < (scaled a p b k).1 ↔
    (b : ℚ) * 10 ^ k < a * 2 ^ p := by
  rw [← not_le, scaled_le_iff, not_le]

end Scaled

namespace Binary

variable {b : Binary} {j : Nat} {d : Decimal}

/-! ## Reading back -/

theorem HasBits.atPowerOfTwo_iff (hb : b.HasBits (j + 1)) :
    b.atPowerOfTwo = true ↔ (j + 1) % 2 ^ 52 = 0 ∧ 2 ≤ (j + 1) / 2 ^ 52 := by
  have hpow : b.atPowerOfTwo = true ↔
      mantissaAt (j + 1) = 2 ^ 52 ∧ -1074 < exponentAt (j + 1) := by
    simp [atPowerOfTwo, hb.mantissa, hb.exponent, twoPow_eq]
  rw [hpow, mantissaAt, exponentAt]
  split_ifs <;> omega

/-- Below a power of two the unit in the last place is half as large. -/
theorem HasBits.exponentAt_pred (hb : b.HasBits (j + 1)) :
    exponentAt j = if b.atPowerOfTwo then b.exponent - 1 else b.exponent := by
  by_cases hpow : b.atPowerOfTwo
  · have hbits := hb.atPowerOfTwo_iff.mp hpow
    rw [if_pos hpow, hb.exponent, exponentAt, exponentAt]
    omega
  · have hbits := mt hb.atPowerOfTwo_iff.mpr hpow
    rw [if_neg hpow, hb.exponent, exponentAt, exponentAt]
    omega

theorem zpow_eq_quarters (e : Int) : (2 : ℚ) ^ e = 4 * 2 ^ (e - 2) := by
  rw [zpow_sub₀ two_ne_zero]
  norm_num
  ring

theorem zpow_pred_eq_quarters (e : Int) : (2 : ℚ) ^ (e - 1) = 2 * 2 ^ (e - 2) := by
  rw [zpow_sub₀ two_ne_zero, zpow_sub₀ two_ne_zero]
  norm_num
  ring

theorem HasBits.magnitude_eq {k : Nat} (hb : b.HasBits k) :
    magnitude k = 4 * b.mantissa * 2 ^ (b.exponent - 2) := by
  rw [magnitude, ← hb.mantissa, ← hb.exponent, zpow_eq_quarters]
  ring

theorem HasBits.mantissa_pos (hb : b.HasBits (j + 1)) : 0 < b.mantissa := by
  rw [hb.mantissa]
  exact Nat.pos_of_ne_zero (mt mantissaAt_eq_zero.mp (Nat.succ_ne_zero j))

/-- Four times the mantissa of the midpoint to the neighbour below. -/
def lowMidpoint (b : Binary) : Nat :=
  if b.atPowerOfTwo then 4 * b.mantissa - 1 else 4 * b.mantissa - 2

theorem HasBits.add_pred (hb : b.HasBits (j + 1)) :
    magnitude j + magnitude (j + 1) = 2 * (b.lowMidpoint * 2 ^ (b.exponent - 2)) := by
  have hsucc := magnitude_succ j
  have hmag := hb.magnitude_eq
  have hpos := hb.mantissa_pos
  rw [hb.exponentAt_pred] at hsucc
  rw [lowMidpoint]
  split_ifs at hsucc ⊢
  · rw [zpow_pred_eq_quarters] at hsucc
    rw [Nat.cast_sub (by omega)]
    push_cast
    linarith
  · rw [zpow_eq_quarters] at hsucc
    rw [Nat.cast_sub (by omega)]
    push_cast
    linarith

theorem HasBits.add_succ {k : Nat} (hb : b.HasBits k) :
    magnitude k + magnitude (k + 1) =
      2 * ((4 * b.mantissa + 2 : Nat) * 2 ^ (b.exponent - 2)) := by
  have hmag := hb.magnitude_eq
  rw [magnitude_succ, ← hb.exponent, zpow_eq_quarters]
  push_cast
  linarith

theorem reads_eq (b : Binary) (d : Decimal) : b.reads d = true ↔
    if b.mantissa % 2 = 0 then
      (b.lowMidpoint : ℚ) * 2 ^ (b.exponent - 2) ≤ d.digits * 10 ^ d.exponent ∧
        (d.digits : ℚ) * 10 ^ d.exponent ≤ (4 * b.mantissa + 2 : Nat) * 2 ^ (b.exponent - 2)
    else (b.lowMidpoint : ℚ) * 2 ^ (b.exponent - 2) < d.digits * 10 ^ d.exponent ∧
        (d.digits : ℚ) * 10 ^ d.exponent < (4 * b.mantissa + 2 : Nat) * 2 ^ (b.exponent - 2) := by
  let low := scaled b.lowMidpoint (b.exponent - 2) d.digits d.exponent
  let high := scaled (4 * b.mantissa + 2) (b.exponent - 2) d.digits d.exponent
  have hreads : b.reads d =
      if b.mantissa % 2 = 0 then low.1 ≤ low.2 && high.2 ≤ high.1
      else low.1 < low.2 && high.2 < high.1 := rfl
  rw [hreads, ← scaled_le_iff, ← scaled_ge_iff, ← scaled_lt_iff, ← scaled_gt_iff]
  split_ifs <;> simp [low, high]

/-- What is taken for reading back lies between the midpoints. -/
theorem reads_iff (hb : b.HasBits (j + 1)) : b.reads d = true ↔ InCell (j + 1) d.value := by
  have hlow := hb.add_pred
  have hhigh := hb.add_succ
  have hparity : b.mantissa % 2 = (j + 1) % 2 := by rw [hb.mantissa, mantissaAt_mod_two]
  have hnonneg : (0 : ℚ) ≤ b.lowMidpoint * 2 ^ (b.exponent - 2) := by positivity
  rw [reads_eq, hparity, ← Decimal.value]
  generalize (b.lowMidpoint : ℚ) * 2 ^ (b.exponent - 2) = low at *
  generalize ((4 * b.mantissa + 2 : Nat) : ℚ) * 2 ^ (b.exponent - 2) = high at *
  constructor
  · intro h
    have hle : low ≤ d.value ∧ d.value ≤ high := by
      split_ifs at h
      · exact h
      · exact ⟨h.1.le, h.2.le⟩
    refine ⟨hnonneg.trans hle.1, fun i hi => ?_, by linarith [hle.2], fun i hi heq => ?_,
      fun heq => ?_⟩
    · cases hi
      linarith [hle.1]
    · cases hi
      by_contra hodd
      rw [if_neg hodd] at h
      linarith [h.1]
    · by_contra hodd
      rw [if_neg hodd] at h
      linarith [h.2]
  · intro h
    have hl : low ≤ d.value := by linarith [h.low j rfl]
    have hh : d.value ≤ high := by linarith [h.high]
    split_ifs with heven
    · exact ⟨hl, hh⟩
    · refine ⟨lt_of_le_of_ne hl fun heq => heven ?_, lt_of_le_of_ne hh fun heq => heven ?_⟩
      · exact h.even_of_low j rfl (by linarith)
      · exact h.even_of_high (by linarith)

/-! ## The search -/

theorem reads_of_hit? {k : Int} (h : b.hit? k = some d) : b.reads d = true := by
  simp only [hit?] at h
  split_ifs at h with hbelow hboth habove
  · cases h
    exact (Bool.and_eq_true_iff.mp hboth).1
  · cases h
    exact hbelow
  · cases h
    exact habove

theorem hit?_ne_none {k : Int} (h : b.reads ⟨b.floorAt k + 1, k⟩ = true) : b.hit? k ≠ none := by
  simp only [hit?, h]
  split_ifs <;> simp

theorem floorAt_le (b : Binary) (k : Int) :
    (b.floorAt k : ℚ) * 10 ^ k ≤ b.mantissa * 2 ^ b.exponent := by
  have hdiv := Nat.div_mul_le_self (scaled b.mantissa b.exponent 1 k).1
    (scaled b.mantissa b.exponent 1 k).2
  rw [← Nat.cast_le (α := ℚ), Nat.cast_mul, scaled_fst, scaled_snd, Nat.cast_one, one_mul,
    ← mul_assoc, mul_le_mul_iff_left₀ (commonDenominator_pos _ k)] at hdiv
  exact hdiv

theorem lt_floorAt_succ (b : Binary) (k : Int) :
    (b.mantissa : ℚ) * 2 ^ b.exponent < (b.floorAt k + 1 : Nat) * 10 ^ k := by
  have hpos : 0 < (scaled b.mantissa b.exponent 1 k).2 := by
    rw [← Nat.cast_pos (α := ℚ), scaled_snd]
    have := commonDenominator_pos b.exponent k
    positivity
  have hdiv := Nat.lt_mul_div_succ (scaled b.mantissa b.exponent 1 k).1 hpos
  rw [mul_comm, ← Nat.cast_lt (α := ℚ), Nat.cast_mul, scaled_fst, scaled_snd, Nat.cast_one, one_mul,
    ← mul_assoc, mul_lt_mul_iff_left₀ (commonDenominator_pos _ k)] at hdiv
  exact hdiv

/-- On a grid finer than half a unit in the last place, the point above the number reads back. -/
theorem reads_above {k : Int} (hb : b.HasBits (j + 1)) (hk : (10 : ℚ) ^ k < 2 ^ (b.exponent - 1)) :
    b.reads ⟨b.floorAt k + 1, k⟩ = true := by
  -- the point is above the number by at most a unit of the grid, so below the midpoint
  have hfloor := b.floorAt_le k
  have hlt := b.lt_floorAt_succ k
  have hmag : magnitude (j + 1) = b.mantissa * 2 ^ b.exponent := by
    rw [magnitude, hb.mantissa, hb.exponent]
  have hunit : (2 : ℚ) ^ b.exponent = 2 * 2 ^ (b.exponent - 1) := by
    rw [zpow_eq_quarters, zpow_pred_eq_quarters]
    ring
  have hsucc := magnitude_succ (j + 1)
  have hpred := magnitude_lt_succ j
  have hnonneg := magnitude_nonneg (j + 1)
  rw [← hb.exponent] at hsucc
  rw [reads_iff hb, Decimal.value]
  push_cast at hlt ⊢
  refine ⟨by linarith, fun i hi => ?_, by linarith, fun i hi heq => ?_, fun heq => ?_⟩
  · cases hi
    linarith
  · cases hi
    linarith
  · linarith

theorem reads_search {k : Int} {steps i : Nat} (hi : i < steps)
    (h : b.reads ⟨b.floorAt (k - i) + 1, k - i⟩ = true) : b.reads (b.search steps k) = true := by
  induction steps generalizing k i with
  | zero => exact absurd hi (Nat.not_lt_zero i)
  | succ steps ih =>
    rw [search]
    cases hhit : b.hit? k with
    | some d => exact reads_of_hit? hhit
    | none =>
      cases i with
      | zero =>
        rw [Int.natCast_zero, sub_zero] at h
        exact absurd hhit (hit?_ne_none h)
      | succ i =>
        refine ih (Nat.lt_of_succ_lt_succ hi) ?_
        have hgrid : k - 1 - (i : Int) = k - ((i + 1 : Nat) : Int) := by omega
        rw [hgrid]
        exact h

/-- Powers of ten under powers of two, by `10 ^ 3 < 2 ^ 10` and `2 ^ 33 < 10 ^ 10`: `30103 / 100000`
is the logarithm of two to the base ten, and the exponents are not large. -/
theorem ten_zpow_lt_two_zpow {k e : Int} (hk : 100000 * k ≤ 30103 * e - 604541)
    (he : -1074 ≤ e ∧ e ≤ 971) : (10 : ℚ) ^ k < 2 ^ (e - 1) := by
  rcases le_or_gt 0 k with hk0 | hk0
  · obtain ⟨n, rfl⟩ := Int.eq_ofNat_of_zero_le hk0
    have hcube : ((10 : ℚ) ^ (n : Int)) ^ 3 < (2 ^ (e - 1)) ^ 3 := by
      calc ((10 : ℚ) ^ (n : Int)) ^ 3 = 1000 ^ n := by
            rw [zpow_natCast, ← pow_mul, mul_comm, pow_mul]
            norm_num
        _ ≤ 1024 ^ n := by gcongr; norm_num
        _ = 2 ^ (10 * (n : Int)) := by
            rw [zpow_mul, zpow_natCast]
            norm_num
        _ < 2 ^ ((e - 1) * 3) := zpow_lt_zpow_right₀ one_lt_two (by omega)
        _ = (2 ^ (e - 1)) ^ 3 := by
            rw [zpow_mul]
            rfl
    exact lt_of_pow_lt_pow_left₀ 3 (by positivity) hcube
  · obtain ⟨n, rfl⟩ : ∃ n : Nat, k = -(n : Int) := ⟨k.natAbs, by omega⟩
    have htenth : ((10 : ℚ) ^ (-(n : Int))) ^ 10 < (2 ^ (e - 1)) ^ 10 := by
      calc ((10 : ℚ) ^ (-(n : Int))) ^ 10 = ((10 ^ 10) ^ n)⁻¹ := by
            rw [zpow_neg, zpow_natCast, inv_pow, ← pow_mul, ← pow_mul, mul_comm]
        _ ≤ ((2 ^ 33) ^ n)⁻¹ := by gcongr; norm_num
        _ = 2 ^ (-(33 * (n : Int))) := by
            rw [zpow_neg, zpow_mul, zpow_natCast]
            rfl
        _ < 2 ^ ((e - 1) * 10) := zpow_lt_zpow_right₀ one_lt_two (by omega)
        _ = (2 ^ (e - 1)) ^ 10 := by
            rw [zpow_mul]
            rfl
    exact lt_of_pow_lt_pow_left₀ 10 (by positivity) htenth

/-- The grid of the last step is fine enough. -/
theorem last_grid (hb : b.HasBits j) :
    (10 : ℚ) ^ (b.ceilingExponent - 23) < 2 ^ (b.exponent - 1) := by
  have hlog : Nat.log2 b.mantissa < 53 := by
    rcases Nat.eq_zero_or_pos b.mantissa with hzero | hpos
    · rw [hzero]
      decide
    · rw [Nat.log2_lt hpos.ne', hb.mantissa, mantissaAt]
      split_ifs <;> omega
  have hexp : -1074 ≤ b.exponent ∧ b.exponent ≤ 971 := by
    have hlt := hb.lt
    rw [infiniteBits] at hlt
    rw [hb.exponent, exponentAt]
    omega
  have hgrid : 100000 * (b.ceilingExponent - 23) ≤ 30103 * b.exponent - 604541 := by
    rw [ceilingExponent]
    omega
  exact ten_zpow_lt_two_zpow hgrid hexp

/-- The decimal that is written reads back, and it is not zero. -/
theorem shortest_spec (hb : b.HasBits (j + 1)) :
    InCell (j + 1) b.shortest.value ∧ 0 < b.shortest.digits := by
  have hreads : b.reads b.shortest = true :=
    reads_search (i := 23) (by decide) (reads_above hb (last_grid hb))
  have hcell := (reads_iff hb).mp hreads
  refine ⟨hcell, Nat.pos_of_ne_zero fun hzero => ?_⟩
  have hpos : 0 < b.shortest.value := by
    have hlow := hcell.low j rfl
    linarith [magnitude_lt_succ j, magnitude_nonneg j]
  rw [Decimal.value, hzero, Nat.cast_zero, zero_mul] at hpos
  exact lt_irrefl _ hpos

end Binary

end Contracts
