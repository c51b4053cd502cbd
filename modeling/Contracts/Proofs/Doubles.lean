import Contracts.Decimal.Binary
import Contracts.Proofs.Numerals
import Mathlib

/-!
# Contracts.Proofs.Doubles

The finite doubles and their values.

* `magnitude`        — the values without their sign in ascending order, by the bits below the sign.
* `Binary.value`     — the exact value of a double.
* `unpack_eq`        — what the logical model of doubles makes of the bits.
* `exists_float`     — the doubles of all signs and magnitudes.
* `isFinite_iff`, `beq_iff_value_eq`, `toInt64_eq` — what it calls finite, equal, and the integer.
-/

namespace Contracts

open Float.Model (UnpackedFloat)
open Float.Model.UnpackedFloat (Sign)

theorem twoPow_eq (n : Nat) : twoPow n = 2 ^ n := rfl

theorem tenPow_eq (n : Nat) : tenPow n = 10 ^ n := rfl

/-! ## The magnitudes in order -/

/-- The mantissa of the bits `k` below the sign: the lowest 52 of them, with the hidden bit where
the bits above are not all zero. -/
def mantissaAt (k : Nat) : Nat := if k / 2 ^ 52 = 0 then k % 2 ^ 52 else 2 ^ 52 + k % 2 ^ 52

/-- The exponent of the bits `k`, which is the least one both with and without a hidden bit. -/
def exponentAt (k : Nat) : Int := max ((k / 2 ^ 52 : Nat) : Int) 1 - 1075

def magnitude (k : Nat) : ℚ := mantissaAt k * 2 ^ exponentAt k

/-- The bits from which on no number is meant. -/
def infiniteBits : Nat := 2047 * 2 ^ 52

/-- From one magnitude to the next it is a unit in the last place. -/
theorem magnitude_succ (k : Nat) : magnitude (k + 1) = magnitude k + 2 ^ exponentAt k := by
  by_cases hcarry : (k + 1) % 2 ^ 52 = 0
  · have hquot : (k + 1) / 2 ^ 52 = k / 2 ^ 52 + 1 := by omega
    by_cases hzero : k / 2 ^ 52 = 0
    · have hexp : exponentAt (k + 1) = exponentAt k := by
        simp only [exponentAt, hquot]
        omega
      have hman : mantissaAt (k + 1) = mantissaAt k + 1 := by
        rw [mantissaAt, mantissaAt, hquot, if_neg (Nat.succ_ne_zero _), if_pos hzero]
        omega
      rw [magnitude, magnitude, hexp, hman]
      push_cast
      ring
    · have hexp : exponentAt (k + 1) = exponentAt k + 1 := by
        simp only [exponentAt, hquot]
        omega
      have hman : 2 * mantissaAt (k + 1) = mantissaAt k + 1 := by
        rw [mantissaAt, mantissaAt, hquot, if_neg (Nat.succ_ne_zero _), if_neg hzero]
        omega
      have hmanQ : (2 : ℚ) * mantissaAt (k + 1) = mantissaAt k + 1 := by exact_mod_cast hman
      rw [magnitude, magnitude, hexp, zpow_add_one₀ two_ne_zero]
      linear_combination (2 : ℚ) ^ exponentAt k * hmanQ
  · have hquot : (k + 1) / 2 ^ 52 = k / 2 ^ 52 := by omega
    have hexp : exponentAt (k + 1) = exponentAt k := by simp only [exponentAt, hquot]
    have hman : mantissaAt (k + 1) = mantissaAt k + 1 := by
      simp only [mantissaAt, hquot]
      split_ifs <;> omega
    rw [magnitude, magnitude, hexp, hman]
    push_cast
    ring

theorem magnitude_lt_succ (k : Nat) : magnitude k < magnitude (k + 1) := by
  have hunit : (0 : ℚ) < 2 ^ exponentAt k := by positivity
  rw [magnitude_succ]
  linarith

theorem magnitude_strictMono : StrictMono magnitude := strictMono_nat_of_lt_succ magnitude_lt_succ

theorem magnitude_zero : magnitude 0 = 0 := by simp [magnitude, mantissaAt]

theorem magnitude_nonneg (k : Nat) : 0 ≤ magnitude k := by
  rw [magnitude]
  positivity

theorem mantissaAt_mod_two (k : Nat) : mantissaAt k % 2 = k % 2 := by
  simp only [mantissaAt]
  split_ifs <;> omega

theorem mantissaAt_eq_zero {k : Nat} : mantissaAt k = 0 ↔ k = 0 := by
  simp only [mantissaAt]
  split_ifs <;> omega

/-! ## Doubles -/

theorem signValue_ne_zero (negative : Bool) : Json.signValue negative ≠ 0 := by
  cases negative <;> simp [Json.signValue]

theorem abs_signValue (negative : Bool) : |Json.signValue negative| = 1 := by
  cases negative <;> simp [Json.signValue]

namespace Binary

def value (b : Binary) : ℚ := Json.signValue b.negative * (b.mantissa * 2 ^ b.exponent)

/-- The number has the magnitude of the bits `k`. -/
structure HasBits (b : Binary) (k : Nat) : Prop where
  lt : k < infiniteBits
  mantissa : b.mantissa = mantissaAt k
  exponent : b.exponent = exponentAt k

theorem HasBits.value_eq {b : Binary} {k : Nat} (h : b.HasBits k) :
    b.value = Json.signValue b.negative * magnitude k := by
  rw [value, h.mantissa, h.exponent, magnitude]

/-- The value of a bit pattern, once for all patterns. -/
theorem ofBits?_eq (bits : Nat) : ofBits? bits =
    if bits % 2 ^ 63 < infiniteBits then
      some ⟨bits / 2 ^ 63 % 2 == 1, mantissaAt (bits % 2 ^ 63), exponentAt (bits % 2 ^ 63)⟩
    else none := by
  have hbiased : bits / twoPow 52 % twoPow 11 = bits % 2 ^ 63 / 2 ^ 52 := by
    simp only [twoPow_eq]
    omega
  have hfraction : bits % twoPow 52 = bits % 2 ^ 63 % 2 ^ 52 := by
    simp only [twoPow_eq]
    omega
  simp only [ofBits?, hbiased, hfraction, mantissaAt, exponentAt]
  have hsign : (bits / twoPow 63 % 2 == 1) = (bits / 2 ^ 63 % 2 == 1) := rfl
  have hk : bits % 2 ^ 63 < 2 ^ 63 := Nat.mod_lt _ (by decide)
  rw [hsign]
  generalize bits % 2 ^ 63 = k at hk ⊢
  by_cases htop : k / 2 ^ 52 = 2047
  · have hfinite : ¬k < infiniteBits := by
      rw [infiniteBits]
      omega
    rw [if_pos htop, if_neg hfinite]
  · have hfinite : k < infiniteBits := by
      rw [infiniteBits]
      omega
    rw [if_neg htop, if_pos hfinite]
    by_cases hzero : k / 2 ^ 52 = 0
    · rw [if_pos hzero, if_pos hzero, hzero]
      rfl
    · rw [if_neg hzero, if_neg hzero, max_eq_left (by omega)]
      rfl

theorem exists_hasBits {x : Float} {b : Binary} (h : ofFloat? x = some b) : ∃ k, b.HasBits k := by
  rw [ofFloat?, ofBits?_eq] at h
  split_ifs at h with hk
  cases h
  exact ⟨_, hk, rfl, rfl⟩

end Binary

/-! ## The logical model of doubles -/

def signOf (negative : Bool) : Sign := if negative then .negative else .positive

/-- What a finite double is unpacked to. -/
def Binary.unpacked (b : Binary) : UnpackedFloat :=
  if h : b.mantissa = 0 then .zero (signOf b.negative)
  else .finite (signOf b.negative) b.mantissa b.exponent (Nat.pos_of_ne_zero h)

section Fields

open Float.Model (Format)

variable (v : BitVec Format.binary64.numBits)

theorem toNat_unpackMantissa :
    (UnpackedFloat.unpackMantissa v).toNat = v.toNat % 2 ^ 63 % 2 ^ 52 := by
  simp [UnpackedFloat.unpackMantissa]

theorem toNat_unpackExponent :
    (UnpackedFloat.unpackExponent v).toNat = v.toNat % 2 ^ 63 / 2 ^ 52 := by
  have hbits : (UnpackedFloat.unpackExponent v).toNat = v.toNat / 2 ^ 52 % 2 ^ 11 := by
    simp [UnpackedFloat.unpackExponent, Nat.shiftRight_eq_div_pow]
  omega

theorem toNat_unpackSign : (UnpackedFloat.unpackSign v).toNat = v.toNat / 2 ^ 63 % 2 := by
  simp [UnpackedFloat.unpackSign, Nat.shiftRight_eq_div_pow]

theorem ofBitVec_unpackSign :
    Sign.ofBitVec (UnpackedFloat.unpackSign v) = signOf (v.toNat / 2 ^ 63 % 2 == 1) := by
  rw [← toNat_unpackSign]
  generalize UnpackedFloat.unpackSign v = s
  obtain rfl | rfl := BitVec.eq_zero_or_eq_one s <;> rfl

theorem unpackMantissa_eq_zero :
    UnpackedFloat.unpackMantissa v = 0#_ ↔ v.toNat % 2 ^ 63 % 2 ^ 52 = 0 := by
  rw [← BitVec.toNat_inj, toNat_unpackMantissa]
  rfl

theorem unpackExponent_eq_zero :
    UnpackedFloat.unpackExponent v = 0#_ ↔ v.toNat % 2 ^ 63 / 2 ^ 52 = 0 := by
  rw [← BitVec.toNat_inj, toNat_unpackExponent]
  rfl

theorem unpackExponent_eq_ones :
    UnpackedFloat.unpackExponent v = -1#_ ↔ v.toNat % 2 ^ 63 / 2 ^ 52 = 2047 := by
  rw [← BitVec.toNat_inj, toNat_unpackExponent]
  rfl

/-- The mantissa behind the hidden bit. -/
theorem toNat_hidden_append (m : BitVec 52) : (1#1 ++ m).toNat = 2 ^ 52 + m.toNat := by
  rw [BitVec.toNat_append, ← Nat.shiftLeft_add_eq_or_of_lt m.isLt]
  rfl

theorem unpack_bits {b : Binary} (h : Binary.ofBits? v.toNat = some b) :
    UnpackedFloat.unpack .binary64 v = b.unpacked := by
  rw [Binary.ofBits?_eq] at h
  split_ifs at h with hk
  cases h
  have hones : ¬UnpackedFloat.unpackExponent v = -1#_ := by
    rw [unpackExponent_eq_ones]
    rw [infiniteBits] at hk
    omega
  rw [UnpackedFloat.unpack, ofBitVec_unpackSign, if_neg hones]
  by_cases hexp : UnpackedFloat.unpackExponent v = 0#_
  · rw [if_pos hexp, Binary.unpacked]
    rw [unpackExponent_eq_zero] at hexp
    have hman : (UnpackedFloat.unpackMantissa v).toNat = mantissaAt (v.toNat % 2 ^ 63) := by
      rw [mantissaAt, if_pos hexp, toNat_unpackMantissa]
    by_cases hzero : UnpackedFloat.unpackMantissa v = 0#_
    · have hman0 : mantissaAt (v.toNat % 2 ^ 63) = 0 := by rw [← hman, hzero]; rfl
      rw [dif_pos hzero, dif_pos hman0]
    · have hman0 : ¬mantissaAt (v.toNat % 2 ^ 63) = 0 := by
        rwa [← hman, toNat_unpackMantissa, ← unpackMantissa_eq_zero]
      have he : ((UnpackedFloat.unpackExponent v).toNat : Int) -
          (Format.binary64.exponentBias + Format.binary64.mantissaBitsWithoutImplicit) + 1 =
            exponentAt (v.toNat % 2 ^ 63) := by
        rw [toNat_unpackExponent, exponentAt, hexp]
        rfl
      rw [dif_neg hzero, dif_neg hman0]
      simp only [hman, he]
  · rw [if_neg hexp, Binary.unpacked]
    rw [unpackExponent_eq_zero] at hexp
    have hpos : ¬mantissaAt (v.toNat % 2 ^ 63) = 0 := by
      rw [mantissaAt, if_neg hexp]
      omega
    rw [dif_neg hpos]
    have hman : (1#1 ++ UnpackedFloat.unpackMantissa v).toNat = mantissaAt (v.toNat % 2 ^ 63) := by
      rw [mantissaAt, if_neg hexp, toNat_hidden_append, toNat_unpackMantissa]
    have he : ((UnpackedFloat.unpackExponent v).toNat : Int) -
        (Format.binary64.exponentBias + Format.binary64.mantissaBitsWithoutImplicit) =
          exponentAt (v.toNat % 2 ^ 63) := by
      rw [toNat_unpackExponent, exponentAt, max_eq_left (by omega)]
      rfl
    simp only [hman, he]

theorem not_isFinite_unpack (h : Binary.ofBits? v.toNat = none) :
    (UnpackedFloat.unpack .binary64 v).isFinite = false := by
  rw [Binary.ofBits?_eq] at h
  split_ifs at h with hk
  have hones : UnpackedFloat.unpackExponent v = -1#_ := by
    rw [unpackExponent_eq_ones]
    rw [infiniteBits] at hk
    omega
  rw [UnpackedFloat.unpack, if_pos hones]
  split_ifs <;> rfl

end Fields

/-- There is a double of every sign and magnitude. -/
theorem exists_float (negative : Bool) {k : Nat} (hk : k < infiniteBits) :
    ∃ x, Binary.ofFloat? x = some ⟨negative, mantissaAt k, exponentAt k⟩ := by
  have hinfinite : infiniteBits = 2047 * 2 ^ 52 := rfl
  have hbit : negative.toNat < 2 := Bool.toNat_lt negative
  have hnat : (UInt64.ofNat (negative.toNat * 2 ^ 63 + k)).toNat = negative.toNat * 2 ^ 63 + k :=
    UInt64.toNat_ofNat_of_lt' (by rw [UInt64.size]; omega)
  have hlow : (negative.toNat * 2 ^ 63 + k) % 2 ^ 63 = k := by omega
  have hhigh : (negative.toNat * 2 ^ 63 + k) / 2 ^ 63 % 2 = negative.toNat := by omega
  generalize UInt64.ofNat (negative.toNat * 2 ^ 63 + k) = bits at hnat
  -- no bits of an exponent are all set, so the pattern stands for a number
  have hvalid : Float.Model.Format.binary64.Valid bits.toBitVec := by
    refine ⟨fun hones => ?_⟩
    have htoNat : bits.toBitVec.toNat = negative.toNat * 2 ^ 63 + k := hnat
    rw [unpackExponent_eq_ones, htoNat, hlow] at hones
    omega
  refine ⟨Float.ofModel ⟨bits, hvalid⟩, ?_⟩
  have hparts : Binary.ofFloat? (Float.ofModel ⟨bits, hvalid⟩) = Binary.ofBits? bits.toNat := rfl
  rw [hparts, hnat, Binary.ofBits?_eq, hlow, hhigh, if_pos hk]
  cases negative <;> rfl

variable {x y : Float} {b c : Binary}

theorem unpack_eq (h : Binary.ofFloat? x = some b) : x.toModel.unpack = b.unpacked :=
  unpack_bits x.toBits.toBitVec h

theorem isFinite_iff : x.isFinite ↔ ∃ b, Binary.ofFloat? x = some b := by
  constructor
  · intro hx
    cases h : Binary.ofFloat? x with
    | some b => exact ⟨b, rfl⟩
    | none =>
      have hnone : x.isFinite = false := not_isFinite_unpack x.toBits.toBitVec h
      rw [hnone] at hx
      cases hx
  · rintro ⟨b, h⟩
    have hx : x.isFinite = x.toModel.unpack.isFinite := rfl
    rw [hx, unpack_eq h, Binary.unpacked]
    split_ifs <;> rfl

/-! ### Equality -/

namespace Binary

theorem value_eq_zero : b.value = 0 ↔ b.mantissa = 0 := by
  have hsign := signValue_ne_zero b.negative
  have hpow : (2 : ℚ) ^ b.exponent ≠ 0 := by positivity
  simp [value, hsign, hpow]

/-- The parts of a double are given by its value, but for the sign of a zero. -/
theorem value_eq_iff {k l : Nat} (hb : b.HasBits k) (hc : c.HasBits l) : b.value = c.value ↔
    (b.mantissa = 0 ∧ c.mantissa = 0) ∨
      (b.negative = c.negative ∧ b.exponent = c.exponent ∧ b.mantissa = c.mantissa) := by
  constructor
  · intro h
    by_cases hzero : b.mantissa = 0
    · rw [value_eq_zero.mpr hzero, eq_comm, value_eq_zero] at h
      exact .inl ⟨hzero, h⟩
    · rw [← value_eq_zero] at hzero
      rw [hc.value_eq, hb.value_eq] at h
      rw [hb.value_eq] at hzero
      have hkNonneg := magnitude_nonneg k
      have hlNonneg := magnitude_nonneg l
      have hsame : b.negative = c.negative ∧ magnitude k = magnitude l := by
        cases hbn : b.negative <;> cases hcn : c.negative <;>
          simp only [hbn, hcn, Json.signValue, Bool.false_eq_true, if_true, if_false, one_mul,
            neg_mul, neg_eq_zero] at h hzero
        · exact ⟨rfl, h⟩
        · exact absurd (by linarith) hzero
        · exact absurd (by linarith) hzero
        · exact ⟨rfl, by linarith⟩
      have hkl : k = l := magnitude_strictMono.injective hsame.2
      rw [hb.mantissa, hc.mantissa, hb.exponent, hc.exponent, hkl]
      exact .inr ⟨hsame.1, rfl, rfl⟩
  · rintro (⟨hb0, hc0⟩ | ⟨hsign, hexp, hman⟩)
    · rw [value_eq_zero.mpr hb0, value_eq_zero.mpr hc0]
    · rw [value, value, hsign, hexp, hman]

theorem compare_unpacked : b.unpacked.compare c.unpacked = some .eq ↔
    (b.mantissa = 0 ∧ c.mantissa = 0) ∨
      (b.negative = c.negative ∧ b.exponent = c.exponent ∧ b.mantissa = c.mantissa) := by
  rw [unpacked, unpacked]
  by_cases hb : b.mantissa = 0 <;> by_cases hc : c.mantissa = 0
  · simp [hb, hc, UnpackedFloat.compare]
  · have hc' : ¬0 = c.mantissa := fun h => hc h.symm
    cases c.negative <;> simp [hb, hc, hc', signOf, UnpackedFloat.compare]
  · cases b.negative <;> simp [hb, hc, signOf, UnpackedFloat.compare]
  · cases b.negative <;> cases c.negative <;>
      simp [hb, hc, signOf, UnpackedFloat.compare, Ordering.then_eq_eq]

end Binary

theorem beq_iff_value_eq (hx : Binary.ofFloat? x = some b) (hy : Binary.ofFloat? y = some c) :
    (x == y) = true ↔ b.value = c.value := by
  have hbeq : (x == y) = (x.toModel.unpack.compare y.toModel.unpack == some .eq) := rfl
  obtain ⟨k, hk⟩ := Binary.exists_hasBits hx
  obtain ⟨l, hl⟩ := Binary.exists_hasBits hy
  rw [hbeq, unpack_eq hx, unpack_eq hy, beq_iff_eq, Binary.compare_unpacked,
    Binary.value_eq_iff hk hl]

/-- Only a finite double is equal to one. -/
theorem finite_of_beq (hx : Binary.ofFloat? x = some b) (h : x == y) :
    ∃ c, Binary.ofFloat? y = some c := by
  cases hy : Binary.ofFloat? y with
  | some c => exact ⟨c, rfl⟩
  | none =>
    have hinfinite : y.toModel.unpack.isFinite = false :=
      not_isFinite_unpack y.toBits.toBitVec hy
    have hbeq : (x == y) = (x.toModel.unpack.compare y.toModel.unpack == some .eq) := rfl
    rw [hbeq, unpack_eq hx, Binary.unpacked] at h
    cases hu : y.toModel.unpack with
    | zero s | finite s m e hm => rw [hu] at hinfinite; cases hinfinite
    | notANumber => rw [hu] at h; split_ifs at h <;> cases h
    | infinity s => rw [hu] at h; cases s <;> split_ifs at h <;> cases h

/-! ### Integers -/

/-- An integer with its sign put in front. -/
def signInt (negative : Bool) (n : Nat) : Int := if negative then -(n : Int) else n

theorem signInt_cast (negative : Bool) (n : Nat) :
    ((signInt negative n : Int) : ℚ) = Json.signValue negative * n := by
  cases negative <;> simp [signInt, Json.signValue]

namespace Binary

theorem eq_of_toInt? {n : Int} (h : b.toInt? = some n) :
    n = signInt b.negative (b.mantissa * 2 ^ b.exponent.toNat / 2 ^ (-b.exponent).toNat) := by
  by_cases hexp : 0 ≤ b.exponent
  · have hzero : (-b.exponent).toNat = 0 := by omega
    simp only [toInt?, hexp, if_true, Option.map_some, Option.some_inj] at h
    rw [← h, hzero, pow_zero, Nat.div_one]
    rfl
  · have hzero : b.exponent.toNat = 0 := by omega
    simp only [toInt?, hexp, if_false, Option.map_eq_some_iff] at h
    obtain ⟨m, hm, rfl⟩ := h
    split_ifs at hm
    cases hm
    rw [hzero, pow_zero, mul_one]
    rfl

/-- What is read as an integer is that integer, and every integer is read as one. -/
theorem toInt?_eq_some_iff {n : Int} : b.toInt? = some n ↔ b.value = n := by
  have hinj : ∀ m : Nat, some (signInt b.negative m) = some n ↔
      Json.signValue b.negative * m = n := by
    intro m
    rw [Option.some_inj, ← signInt_cast, Int.cast_inj]
  by_cases hexp : 0 ≤ b.exponent
  · have hint : b.toInt? = some (signInt b.negative (b.mantissa * 2 ^ b.exponent.toNat)) := by
      simp [toInt?, hexp, signInt, twoPow_eq]
    rw [hint, hinj, value]
    push_cast
    rw [← zpow_natCast, Int.toNat_of_nonneg hexp]
  · generalize hunit : 2 ^ (-b.exponent).toNat = unit
    have hunitPos : 0 < unit := by rw [← hunit]; positivity
    have hpow : (2 : ℚ) ^ b.exponent = (unit : ℚ)⁻¹ := by
      rw [← hunit, Nat.cast_pow, ← zpow_natCast, ← zpow_neg, Nat.cast_ofNat]
      congr 1
      omega
    have hvalue : b.value = Json.signValue b.negative * (b.mantissa / unit) := by
      rw [value, hpow, div_eq_mul_inv]
    by_cases hdvd : b.mantissa % unit = 0
    · have hint : b.toInt? = some (signInt b.negative (b.mantissa / unit)) := by
        simp [toInt?, hexp, signInt, twoPow_eq, hunit, hdvd]
      rw [hint, hinj, hvalue, Nat.cast_div (Nat.dvd_of_mod_eq_zero hdvd) (by positivity)]
    · have hint : b.toInt? = none := by simp [toInt?, hexp, twoPow_eq, hunit, hdvd]
      rw [hint]
      refine ⟨fun h => absurd h (by simp), fun h => absurd ?_ hdvd⟩
      have habs : (b.mantissa : ℚ) = n.natAbs * unit := by
        have hsign := congrArg abs (hvalue.symm.trans h)
        rw [abs_mul, abs_signValue, one_mul, abs_of_nonneg (by positivity),
          div_eq_iff (by positivity), ← Int.cast_abs, Int.abs_eq_natAbs, Int.cast_natCast] at hsign
        exact hsign
      exact Nat.mod_eq_zero_of_dvd ⟨n.natAbs, by exact_mod_cast habs.trans (mul_comm _ _)⟩

end Binary

theorem mantissa_repeat_shiftRightOne (em : UnpackedFloat.ExtendedMantissa) (n : Nat) :
    (Nat.repeat UnpackedFloat.ExtendedMantissa.shiftRightOne n em).mantissa =
      em.mantissa / 2 ^ n := by
  induction n with
  | zero => simp [Nat.repeat]
  | succ n ih =>
    rw [Nat.repeat, UnpackedFloat.ExtendedMantissa.shiftRightOne, ih, Nat.div_div_eq_div_mul,
      pow_succ]

theorem roundToInt_eq (s : Sign) (m : Nat) (e : Int) :
    UnpackedFloat.roundToInt s m e = s.apply (m * 2 ^ e.toNat / 2 ^ (-e).toNat : Nat) := by
  have hshift : (0 - (e - (e - 0).toNat)).toNat = (-e).toNat := by omega
  simp only [UnpackedFloat.roundToInt, UnpackedFloat.decreaseExponent,
    UnpackedFloat.shiftToExponent, hshift]
  rw [sub_zero, Nat.shiftLeft_eq]
  congr 2
  exact mantissa_repeat_shiftRightOne _ _

theorem apply_signOf (negative : Bool) (n : Nat) :
    (signOf negative).apply n = signInt negative n := by
  cases negative <;> rfl

theorem toInt_unpacked {n low high : Int} (hn : b.toInt? = some n) :
    b.unpacked.toInt low high = n := by
  by_cases hzero : b.mantissa = 0
  · have hvalue := Binary.toInt?_eq_some_iff.mp hn
    rw [Binary.value_eq_zero.mpr hzero] at hvalue
    rw [Binary.unpacked, dif_pos hzero]
    exact_mod_cast hvalue
  · rw [Binary.unpacked, dif_neg hzero, Binary.eq_of_toInt? hn, ← apply_signOf]
    exact roundToInt_eq _ _ _

/-- The logical model's integer is exact where the number is one of 64 bits. -/
theorem toInt64_eq {n : Int} (hx : Binary.ofFloat? x = some b) (hn : b.toInt? = some n)
    (hlow : Int64.minValue.toInt ≤ n) (hhigh : n ≤ Int64.maxValue.toInt) :
    x.toModel.toInt64.toInt = n := by
  have hint : x.toModel.toInt64 = Int64.ofIntClamp
      (b.unpacked.toInt Int64.minValue.toInt Int64.maxValue.toInt) := by
    rw [← unpack_eq hx]
    rfl
  rw [hint, toInt_unpacked hn, Int64.toInt_ofIntClamp hlow hhigh]

end Contracts
