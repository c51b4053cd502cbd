import Contracts.Proofs.Shortest
import Contracts.Proofs.Spelling
import Contracts.Render

/-!
# Contracts.Proofs.Numbers

What is relied on where numbers are written, and what follows from it.

* `IsPlain`, `HasPointOrExponent` — the texts of integers and those of other numbers.
* `JsonWriter.WritesNumbers`      — how integers and doubles are written.
* `safeInteger?_iff`    — the doubles that are written as integers.
* `WritesNumbers.jsonNumber_spec` — the literal of a finite double.
* `WritesNumbers.numberText_eq`   — it is the text of the double as well.
* `standardWriter_writesNumbers`  — the writer of the program can be relied on.
* `float_eq_of_beq`     — equal doubles are the same, but for the two zeros.
-/

namespace Contracts

/-! ## Plain texts -/

/-- Digits with or without a minus. -/
def IsPlain (cs : List Char) : Prop :=
  ∃ negative ds, cs = signChars negative ++ ds ∧ ds ≠ [] ∧ ∀ c ∈ ds, c.isDigit

def HasPointOrExponent (cs : List Char) : Prop := '.' ∈ cs ∨ 'e' ∈ cs ∨ 'E' ∈ cs

theorem isDigit_or_minus_of_isPlain {cs : List Char} (h : IsPlain cs) {c : Char} (hc : c ∈ cs) :
    c = '-' ∨ c.isDigit = true := by
  obtain ⟨negative, ds, rfl, _, hds⟩ := h
  rcases List.mem_append.mp hc with hc | hc
  · cases negative <;> simp_all [signChars]
  · exact .inr (hds c hc)

theorem HasPointOrExponent.not_isPlain {cs : List Char} (h : HasPointOrExponent cs) :
    ¬IsPlain cs := by
  intro hplain
  rcases h with hc | hc | hc
  · exact absurd (isDigit_or_minus_of_isPlain hplain hc) (by decide)
  · exact absurd (isDigit_or_minus_of_isPlain hplain hc) (by decide)
  · exact absurd (isDigit_or_minus_of_isPlain hplain hc) (by decide)

theorem isPlain_toString (n : Int) : IsPlain (toString n).toList := by
  rw [← text_intNumeral, String.toList_ofList]
  refine ⟨decide (n < 0), Nat.toDigits 10 n.natAbs, ?_, (intNumeral n).whole_ne_nil,
    (intNumeral n).whole_digits⟩
  simp [Numeral.text, Numeral.signText, Numeral.fractionText, Numeral.exponentText, intNumeral]

theorem numberValue?_toString (n : Int) : Json.numberValue? (toString n) = some (n : ℚ) := by
  rw [← text_intNumeral, Numeral.numberValue?_text, value_intNumeral]

theorem Numeral.hasPointOrExponent {n : Numeral} (h : n.fraction ≠ [] ∨ n.exponent ≠ none) :
    HasPointOrExponent n.text := by
  rcases h with hfraction | hexponent
  · left
    rw [text, fractionText_of_ne_nil hfraction]
    simp
  · right
    left
    obtain ⟨e, he⟩ := Option.ne_none_iff_exists'.mp hexponent
    rw [text, exponentText, he]
    simp

/-! ## Written numbers -/

/-- Integers are written by their digits. A finite double is written with a point or an exponent,
and the number that its text denotes is rounded to it. Other doubles are not written. -/
structure JsonWriter.WritesNumbers (W : JsonWriter) : Prop where
  integer : ∀ n, W.integer n = toString n
  finite : ∀ x : Float, x.isFinite = true → ∃ t q, W.double? x = some t ∧
    HasPointOrExponent t.toList ∧ Json.numberValue? t = some q ∧ RoundsTo q x
  notFinite : ∀ x : Float, x.isFinite = false → W.double? x = none

variable {x y : Float} {b c : Binary} {k : Nat}

theorem safeInteger?_iff (hx : Binary.ofFloat? x = some b) {n : Int} :
    safeInteger? x = some n ↔ b.value = n ∧ n.natAbs ≤ maxSafeInteger := by
  rw [safeInteger?, Option.filter_eq_some_iff, integer?, hx, Option.bind_some,
    Binary.toInt?_eq_some_iff, decide_eq_true_iff]

theorem RoundsTo.self (hx : Binary.ofFloat? x = some b) : RoundsTo b.value x := by
  obtain ⟨k, hb⟩ := Binary.exists_hasBits hx
  rw [hb.value_eq]
  exact (InCell.self k).roundsTo hx hb

namespace JsonWriter.WritesNumbers

variable [W : JsonWriter] (hW : W.WritesNumbers)

include hW

theorem jsonNumber_of_safe (hx : Binary.ofFloat? x = some b) {n : Int} (hn : b.value = n)
    (hsafe : n.natAbs ≤ maxSafeInteger) : jsonNumber x = .number (toString n) := by
  rw [jsonNumber, (safeInteger?_iff hx).mpr ⟨hn, hsafe⟩]
  exact congrArg JsonTree.number (hW.integer n)

/-- The literal of a finite double. The integers of magnitude at most `maxSafeInteger`, and no other
numbers, are written by their digits alone; every other text has a point or an exponent. The number
that the text denotes is rounded to the double. -/
theorem jsonNumber_spec (hx : Binary.ofFloat? x = some b) :
    ∃ t q, jsonNumber x = .number t ∧
      (IsPlain t.toList ↔ ∃ n : Int, b.value = n ∧ n.natAbs ≤ maxSafeInteger) ∧
      (¬IsPlain t.toList → HasPointOrExponent t.toList) ∧
      Json.numberValue? t = some q ∧ RoundsTo q x := by
  by_cases hsafe : ∃ n : Int, b.value = n ∧ n.natAbs ≤ maxSafeInteger
  · obtain ⟨n, hn, hle⟩ := hsafe
    refine ⟨toString n, n, hW.jsonNumber_of_safe hx hn hle, ?_, ?_, numberValue?_toString n, ?_⟩
    · exact iff_of_true (isPlain_toString n) ⟨n, hn, hle⟩
    · exact fun hplain => absurd (isPlain_toString n) hplain
    · rw [← hn]
      exact .self hx
  · obtain ⟨t, q, ht, hpoint, hq, hround⟩ := hW.finite x (isFinite_iff.mpr ⟨b, hx⟩)
    have hnone : safeInteger? x = none := by
      rw [Option.eq_none_iff_forall_ne_some]
      exact fun n hn => hsafe ⟨n, (safeInteger?_iff hx).mp hn⟩
    refine ⟨t, q, ?_, iff_of_false hpoint.not_isPlain hsafe, fun _ => hpoint, hq, hround⟩
    rw [jsonNumber, hnone, ht]
    rfl

/-- What is not finite is `null`. -/
theorem jsonNumber_of_not_finite (hx : Binary.ofFloat? x = none) : jsonNumber x = .null := by
  have hfinite : x.isFinite = false := by
    rw [← Bool.not_eq_true, isFinite_iff, hx]
    simp
  have hnone : safeInteger? x = none := by
    rw [safeInteger?, integer?, hx]
    rfl
  rw [jsonNumber, hnone, hW.notFinite x hfinite]
  rfl

/-- At the top level a finite double has the text of its literal. -/
theorem numberText_eq (hx : Binary.ofFloat? x = some b)
    (hliteral : ∀ t, W.compact (.number t) = t) :
    Scalar.numberText x = (jsonNumber x).compact := by
  have hunpack := unpack_eq hx
  have hnan : x.isNaN = false := by
    change x.toModel.unpack.isNaN = false
    rw [hunpack, Binary.unpacked]
    split_ifs <;> rfl
  have hinf : x.isInf = false := by
    change x.toModel.unpack.isInf = false
    rw [hunpack, Binary.unpacked]
    split_ifs <;> rfl
  rw [Scalar.numberText, hnan, hinf, if_neg Bool.false_ne_true, if_neg Bool.false_ne_true]
  split_ifs with hzero
  · have hzero' : Binary.ofFloat? 0 = some ⟨false, 0, -1074⟩ := by decide +kernel
    have hvalue : b.value = (0 : Int) := by
      rw [(beq_iff_value_eq hx hzero').mp hzero, Int.cast_zero, Binary.value_eq_zero]
    rw [hW.jsonNumber_of_safe hx hvalue (by decide), JsonTree.compact, hliteral]
    rfl
  · rfl

end JsonWriter.WritesNumbers

/-! ## The writer of the program -/

/-- A finite double is written as a literal with a point or an exponent, of a number that is rounded
to it. -/
theorem exists_numeral_of_finite (hx : Binary.ofFloat? x = some b) :
    ∃ n : Numeral, doubleText? x = some (String.ofList n.text) ∧
      (n.fraction ≠ [] ∨ n.exponent ≠ none) ∧ RoundsTo n.value x := by
  obtain ⟨k, hb⟩ := Binary.exists_hasBits hx
  cases k with
  | zero =>
    have hzero : b.mantissa = 0 := by rw [hb.mantissa, mantissaAt_eq_zero]
    refine ⟨zeroNumeral b.negative, ?_, .inl (by simp [zeroNumeral]), ?_⟩
    · rw [doubleText?, hx, Option.map_some, if_pos hzero, text_zeroNumeral]
      rfl
    · rw [value_zeroNumeral, ← Binary.value_eq_zero.mpr hzero]
      exact .self hx
  | succ j =>
    obtain ⟨hcell, hdigits⟩ := Binary.shortest_spec hb
    obtain ⟨n, htext, hvalue, hpoint⟩ := exists_numeral b.negative hdigits
    have hpos : b.mantissa ≠ 0 := hb.mantissa_pos.ne'
    refine ⟨n, ?_, hpoint, ?_⟩
    · rw [doubleText?, hx, Option.map_some, if_neg hpos, htext]
      rfl
    · rw [hvalue]
      exact hcell.roundsTo hx hb

/-- The shortest decimals that read back are among the texts that a double may have. -/
theorem standardWriter_writesNumbers : Json.standardWriter.WritesNumbers where
  integer _ := rfl
  finite x hx := by
    obtain ⟨b, hb⟩ := isFinite_iff.mp hx
    obtain ⟨n, htext, hpoint, hround⟩ := exists_numeral_of_finite hb
    refine ⟨_, n.value, htext, ?_, n.numberValue?_text, hround⟩
    rw [String.toList_ofList]
    exact Numeral.hasPointOrExponent hpoint
  notFinite x hx := by
    have hnone : Binary.ofFloat? x = none := by
      rw [Option.eq_none_iff_forall_ne_some]
      intro b hb
      rw [isFinite_iff.mpr ⟨b, hb⟩] at hx
      cases hx
    change doubleText? x = none
    rw [doubleText?, hnone, Option.map_none]

/-! ## The parts of a double -/

theorem magnitude_injective {k l : Nat} (hman : mantissaAt k = mantissaAt l)
    (hexp : exponentAt k = exponentAt l) : k = l := by
  refine magnitude_strictMono.injective ?_
  rw [magnitude, magnitude, hman, hexp]

theorem eq_of_toBits_eq (h : x.toBits.toNat = y.toBits.toNat) : x = y := by
  obtain ⟨⟨bits, _⟩⟩ := x
  obtain ⟨⟨bits', _⟩⟩ := y
  obtain rfl : bits = bits' := UInt64.toNat_inj.mp h
  rfl

/-- A double is given by its parts. -/
theorem eq_of_ofFloat?_eq (hx : Binary.ofFloat? x = some b) (hy : Binary.ofFloat? y = some b) :
    x = y := by
  rw [Binary.ofFloat?, Binary.ofBits?_eq] at hx hy
  split_ifs at hx hy
  obtain ⟨hsign, hman, hexp⟩ := Binary.mk.inj (Option.some_inj.mp (hx.trans hy.symm))
  have hlow := magnitude_injective hman hexp
  have hxlt := x.toBits.toNat_lt
  have hylt := y.toBits.toNat_lt
  rw [Bool.eq_iff_iff, beq_iff_eq, beq_iff_eq] at hsign
  refine eq_of_toBits_eq ?_
  omega

/-- What is equal to a double that is no zero is the double itself. -/
theorem float_eq_of_beq (hx : Binary.ofFloat? x = some b) (hzero : b.value ≠ 0) (h : x == y) :
    x = y := by
  obtain ⟨c, hy⟩ := finite_of_beq hx h
  obtain ⟨k, hb⟩ := Binary.exists_hasBits hx
  obtain ⟨l, hc⟩ := Binary.exists_hasBits hy
  rcases (Binary.value_eq_iff hb hc).mp ((beq_iff_value_eq hx hy).mp h) with
    ⟨h0, _⟩ | ⟨hsign, hexp, hman⟩
  · exact absurd (Binary.value_eq_zero.mpr h0) hzero
  · have hbc : b = c := by
      cases b
      cases c
      simp_all
    subst hbc
    exact eq_of_ofFloat?_eq hx hy

end Contracts
