import Contracts.Decimal.NumberText
import Contracts.Json.Parser
import Mathlib.Algebra.Order.Field.Rat
import Mathlib.Tactic.FieldSimp
import Mathlib.Tactic.IntervalCases
import Mathlib.Tactic.Linarith
import Mathlib.Tactic.NormNum
import Mathlib.Tactic.Positivity
import Mathlib.Tactic.Ring

/-!
# Contracts.Proofs.Numerals

Number literals, what they look like and what they denote.

* `Json.numberValue?`  — the number that a text denotes, exactly.
* `Numeral`            — the literals that are written: digits with or without a sign, a fraction
  and an exponent.
* `Numeral.numberValue?_text` — a literal denotes the number that its digits make up.
* `intNumeral`, `zeroNumeral`, `exists_numeral` — the literals of integers, of the zeros and of
  decimals, and their values.
-/

namespace Contracts

open Json (scanSign scanWhole scanFraction scanExponent scanDigits)

/-! ## What a literal denotes -/

namespace Json

/-- The number that digits make up. -/
def digitsValue (ds : List Char) : Nat := Nat.ofDigitChars 10 ds 0

/-- What an exponent denotes, that is written as the grammar has it: `e`, a sign or none, digits. -/
def exponentValue : List Char → Int
  | _ :: '-' :: ds => -(digitsValue ds : Int)
  | _ :: '+' :: ds => digitsValue ds
  | _ :: ds => digitsValue ds
  | [] => 0

/-- What a minus does to a number. -/
def signValue (negative : Bool) : ℚ := if negative then -1 else 1

/-- The number that a text denotes, as an exact decimal. -/
def numberValue? (text : String) : Option ℚ := do
  let (sign, rest) := scanSign text.toList
  let (whole, rest) ← scanWhole rest
  let (fraction, rest) ← scanFraction rest
  let (exponent, rest) ← scanExponent rest
  let ds := fraction.drop 1
  if rest.isEmpty then
    some (signValue (!sign.isEmpty) * (digitsValue (whole ++ ds) : ℚ) *
      10 ^ (exponentValue exponent - ds.length))
  else none

end Json

/-! ## Literals -/

/-- A literal in the parts that it is written of. -/
structure Numeral where
  negative : Bool
  whole : List Char
  /-- The digits after the point; without any there is no point. -/
  fraction : List Char
  exponent : Option Int
  whole_ne_nil : whole ≠ []
  whole_digits : ∀ c ∈ whole, c.isDigit
  /-- A zero in front stands alone. -/
  whole_plain : whole = ['0'] ∨ whole.head? ≠ some '0'
  fraction_digits : ∀ c ∈ fraction, c.isDigit

/-- The minus of a negative number. -/
def signChars (negative : Bool) : List Char := if negative then ['-'] else []

/-- What follows a literal does not go on with it. -/
def AfterNumber (rest : List Char) : Prop :=
  ∀ c t, rest = c :: t → c.isDigit = false ∧ c ≠ '.' ∧ c ≠ 'e' ∧ c ≠ 'E'

theorem afterNumber_nil : AfterNumber [] := by
  rintro c t ⟨⟩

theorem afterNumber_cons {c : Char} (hc : c.isDigit = false ∧ c ≠ '.' ∧ c ≠ 'e' ∧ c ≠ 'E')
    (rest : List Char) : AfterNumber (c :: rest) := by
  rintro _ _ ⟨⟩
  exact hc

namespace Numeral

def signText (n : Numeral) : List Char := signChars n.negative

def fractionText (n : Numeral) : List Char :=
  match n.fraction with
  | [] => []
  | ds => '.' :: ds

theorem fractionText_of_ne_nil {n : Numeral} (h : n.fraction ≠ []) :
    n.fractionText = '.' :: n.fraction := by
  obtain ⟨d, ds, hds⟩ := List.exists_cons_of_ne_nil h
  rw [fractionText, hds]

def exponentText (n : Numeral) : List Char :=
  match n.exponent with
  | none => []
  | some e => 'e' :: (if e < 0 then '-' else '+') :: Nat.toDigits 10 e.natAbs

def text (n : Numeral) : List Char := n.signText ++ n.whole ++ n.fractionText ++ n.exponentText

def value (n : Numeral) : ℚ :=
  Json.signValue n.negative * (Json.digitsValue (n.whole ++ n.fraction) : ℚ) *
    10 ^ (n.exponent.getD 0 - n.fraction.length)

/-- A literal starts with a minus or a digit. -/
theorem exists_head (n : Numeral) :
    ∃ c rest, n.text = c :: rest ∧ (c = '-' ∨ c.isDigit = true) := by
  obtain ⟨c, ds, hwhole⟩ := List.exists_cons_of_ne_nil n.whole_ne_nil
  rw [text, signText, signChars]
  cases n.negative with
  | true => exact ⟨'-', _, rfl, .inl rfl⟩
  | false =>
    rw [hwhole]
    exact ⟨c, _, rfl, .inr (n.whole_digits c (by simp [hwhole]))⟩

/-! ### Reading -/

/-- Digits are read up to the first character that is none. -/
theorem scanDigits_append {ds rest : List Char} (hne : ds ≠ []) (hds : ∀ c ∈ ds, c.isDigit)
    (hrest : ∀ c t, rest = c :: t → c.isDigit = false) :
    scanDigits (ds ++ rest) = some (ds, rest) := by
  have htake : rest.takeWhile Char.isDigit = [] := by
    cases rest with
    | nil => rfl
    | cons c t => simp [hrest c t rfl]
  have hdrop : rest.dropWhile Char.isDigit = rest := by
    cases rest with
    | nil => rfl
    | cons c t => simp [hrest c t rfl]
  rw [scanDigits, List.takeWhile_append_of_pos hds, List.dropWhile_append_of_pos hds, htake, hdrop,
    List.append_nil]
  cases ds with
  | nil => exact absurd rfl hne
  | cons c t => rfl

theorem toDigits_isDigit (n : Nat) : ∀ c ∈ Nat.toDigits 10 n, c.isDigit :=
  fun _ hc => Nat.isDigit_of_mem_toDigits (by decide) (by decide) hc

variable (n : Numeral) {rest : List Char}

theorem scanSign_text (rest : List Char) :
    scanSign (n.signText ++ (n.whole ++ rest)) = (n.signText, n.whole ++ rest) := by
  rw [signText]
  cases n.negative with
  | true => rfl
  | false =>
    obtain ⟨c, ds, hwhole⟩ := List.exists_cons_of_ne_nil n.whole_ne_nil
    have hc : c.isDigit := n.whole_digits c (by simp [hwhole])
    have hminus : c ≠ '-' := by
      rintro rfl
      exact absurd hc (by decide)
    simp only [signChars, Bool.false_eq_true, if_false, List.nil_append, hwhole, List.cons_append]
    unfold scanSign
    split
    · next heq => exact absurd (List.cons.inj heq).1 hminus
    · rfl

theorem scanWhole_text (hrest : ∀ c t, rest = c :: t → c.isDigit = false) :
    scanWhole (n.whole ++ rest) = some (n.whole, rest) := by
  rcases n.whole_plain with hzero | hhead
  · rw [hzero]
    rfl
  · have hdigits := scanDigits_append n.whole_ne_nil n.whole_digits hrest
    obtain ⟨c, ds, hwhole⟩ := List.exists_cons_of_ne_nil n.whole_ne_nil
    have hc : c ≠ '0' := by
      rintro rfl
      exact hhead (by rw [hwhole]; rfl)
    rw [← hdigits, hwhole, List.cons_append]
    unfold scanWhole
    split
    · next heq => exact absurd (List.cons.inj heq).1 hc
    · rfl

theorem scanFraction_text (hrest : ∀ c t, rest = c :: t → c.isDigit = false ∧ c ≠ '.') :
    scanFraction (n.fractionText ++ rest) = some (n.fractionText, rest) := by
  rw [fractionText]
  cases hfraction : n.fraction with
  | nil =>
    cases rest with
    | nil => rfl
    | cons c t =>
      rw [List.nil_append]
      unfold scanFraction
      split
      · next heq => exact absurd (List.cons.inj heq).1 (hrest c t rfl).2
      · rfl
  | cons c t =>
    have hdigits : scanDigits (c :: t ++ rest) = some (c :: t, rest) := by
      refine scanDigits_append (by simp) ?_ fun c t h => (hrest c t h).1
      rw [← hfraction]
      exact n.fraction_digits
    rw [List.cons_append, scanFraction, hdigits]
    rfl

theorem scanExponent_text (hrest : AfterNumber rest) :
    scanExponent (n.exponentText ++ rest) = some (n.exponentText, rest) := by
  rw [exponentText]
  cases n.exponent with
  | none =>
    cases rest with
    | nil => rfl
    | cons c t =>
      obtain ⟨_, _, he, hE⟩ := hrest c t rfl
      rw [List.nil_append]
      have hnone : ¬(c = 'e' ∨ c = 'E') := by simp [he, hE]
      exact if_neg hnone
  | some e =>
    have hdigits : scanDigits (Nat.toDigits 10 e.natAbs ++ rest) =
        some (Nat.toDigits 10 e.natAbs, rest) :=
      scanDigits_append Nat.toDigits_ne_nil (toDigits_isDigit _) fun c t h => (hrest c t h).1
    by_cases he : e < 0
    · simp only [he, if_true, List.cons_append, scanExponent, true_or, hdigits]
      rfl
    · simp only [he, if_false, List.cons_append, scanExponent, true_or, if_true, hdigits]
      rfl

/-- What follows the digits before the point does not go on with them. -/
theorem afterWhole (hrest : AfterNumber rest) :
    ∀ c t, n.fractionText ++ (n.exponentText ++ rest) = c :: t → c.isDigit = false := by
  intro c t h
  rw [fractionText] at h
  cases hfraction : n.fraction with
  | cons d ds =>
    rw [hfraction] at h
    cases h
    rfl
  | nil =>
    rw [hfraction, List.nil_append, exponentText] at h
    cases hexponent : n.exponent with
    | none =>
      rw [hexponent] at h
      exact (hrest c t h).1
    | some e =>
      rw [hexponent] at h
      cases h
      rfl

theorem afterFraction (hrest : AfterNumber rest) :
    ∀ c t, n.exponentText ++ rest = c :: t → c.isDigit = false ∧ c ≠ '.' := by
  intro c t h
  rw [exponentText] at h
  cases hexponent : n.exponent with
  | none =>
    rw [hexponent] at h
    exact ⟨(hrest c t h).1, (hrest c t h).2.1⟩
  | some e =>
    rw [hexponent] at h
    cases h
    decide

theorem exponentValue_text : Json.exponentValue n.exponentText = n.exponent.getD 0 := by
  rw [exponentText]
  cases n.exponent with
  | none => rfl
  | some e =>
    by_cases he : e < 0
    · simp only [he, if_true, Json.exponentValue, Json.digitsValue, Nat.ofDigitChars_ten_toDigits,
        Option.getD_some]
      omega
    · simp only [he, if_false, Json.exponentValue, Json.digitsValue, Nat.ofDigitChars_ten_toDigits,
        Option.getD_some]
      omega

theorem drop_fractionText : n.fractionText.drop 1 = n.fraction := by
  rw [fractionText]
  cases n.fraction <;> rfl

theorem isEmpty_signText : n.signText.isEmpty = !n.negative := by
  rw [signText]
  cases n.negative <;> rfl

/-- A literal denotes what its digits make up. -/
theorem numberValue?_text : Json.numberValue? (String.ofList n.text) = some n.value := by
  have hnil := n.scanExponent_text afterNumber_nil
  have hfraction := n.scanFraction_text (n.afterFraction afterNumber_nil)
  have hwhole := n.scanWhole_text (n.afterWhole afterNumber_nil)
  rw [List.append_nil] at hnil hfraction hwhole
  simp only [Json.numberValue?, String.toList_ofList, text, List.append_assoc, scanSign_text,
    hwhole, hfraction, hnil, Option.bind_eq_bind, Option.bind_some, List.isEmpty_nil, if_true,
    drop_fractionText, exponentValue_text, isEmpty_signText, Bool.not_not, value]

end Numeral

/-! ## Integers -/

/-- Only the digits of zero start with a zero. -/
theorem head?_toDigits {n : Nat} (hn : 0 < n) : (Nat.toDigits 10 n).head? ≠ some '0' := by
  induction n using Nat.strong_induction_on with
  | _ n ih =>
    by_cases hlt : n < 10
    · rw [Nat.toDigits_of_lt_base hlt]
      interval_cases n <;> decide
    · rw [Nat.toDigits_of_base_le (by decide) (by omega), List.head?_append_of_ne_nil]
      · exact ih (n / 10) (by omega) (by omega)
      · exact Nat.toDigits_ne_nil

theorem toDigits_plain (n : Nat) :
    Nat.toDigits 10 n = ['0'] ∨ (Nat.toDigits 10 n).head? ≠ some '0' := by
  rcases Nat.eq_zero_or_pos n with rfl | hn
  · exact .inl (Nat.toDigits_zero 10)
  · exact .inr (head?_toDigits hn)

/-- The literal of an integer. -/
def intNumeral (n : Int) : Numeral where
  negative := n < 0
  whole := Nat.toDigits 10 n.natAbs
  fraction := []
  exponent := none
  whole_ne_nil := Nat.toDigits_ne_nil
  whole_digits := Numeral.toDigits_isDigit _
  whole_plain := toDigits_plain _
  fraction_digits := by simp

theorem text_intNumeral (n : Int) : String.ofList (intNumeral n).text = toString n := by
  cases n with
  | ofNat m =>
    have htext : toString (Int.ofNat m) = Nat.repr m := rfl
    rw [htext, ← String.toList_inj]
    simp [Numeral.text, Numeral.signText, Numeral.fractionText, Numeral.exponentText, intNumeral,
      signChars]
  | negSucc m =>
    have htext : toString (Int.negSucc m) = "-" ++ Nat.repr (m + 1) := rfl
    rw [htext, ← String.toList_inj]
    simp [Numeral.text, Numeral.signText, Numeral.fractionText, Numeral.exponentText, intNumeral,
      signChars, Int.negSucc_lt_zero]

theorem value_intNumeral (n : Int) : (intNumeral n).value = n := by
  by_cases hn : n < 0
  · have habs : ((n.natAbs : ℤ) : ℚ) = ((-n : ℤ) : ℚ) := by
      congr 1
      omega
    push_cast at habs
    simp [Numeral.value, intNumeral, hn, Json.digitsValue, Json.signValue, habs]
  · have habs : ((n.natAbs : ℤ) : ℚ) = (n : ℚ) := by
      congr 1
      omega
    push_cast at habs
    simp [Numeral.value, intNumeral, hn, Json.digitsValue, Json.signValue, habs]

/-! ## Decimals -/

namespace Decimal

def value (d : Decimal) : ℚ := d.digits * 10 ^ d.exponent

end Decimal

theorem digitsValue_toDigits (n : Nat) : Json.digitsValue (Nat.toDigits 10 n) = n :=
  Nat.ofDigitChars_ten_toDigits

/-- The digits of a number, without a zero in front. -/
structure Digits where
  chars : List Char
  isDigit : ∀ c ∈ chars, c.isDigit
  ne_nil : chars ≠ []
  head : chars.head? ≠ some '0'

namespace Digits

/-- The digits of a positive number. -/
def ofNat (n : Nat) (hn : 0 < n) : Digits :=
  ⟨Nat.toDigits 10 n, Numeral.toDigits_isDigit n, Nat.toDigits_ne_nil, head?_toDigits hn⟩

variable (ds : Digits)

theorem length_pos : 0 < ds.chars.length := List.length_pos_iff.mpr ds.ne_nil

theorem isDigit_zeros_append (k : Nat) : ∀ c ∈ List.replicate k '0' ++ ds.chars, c.isDigit := by
  intro c hc
  rcases List.mem_append.mp hc with hc | hc
  · rw [List.eq_of_mem_replicate hc]
    decide
  · exact ds.isDigit c hc

theorem isDigit_append_zeros (k : Nat) : ∀ c ∈ ds.chars ++ List.replicate k '0', c.isDigit := by
  intro c hc
  refine ds.isDigit_zeros_append k c ?_
  simpa [or_comm] using hc

theorem isDigit_zero : ∀ c ∈ ['0'], c.isDigit := by
  intro c hc
  rw [List.mem_singleton.mp hc]
  decide

/-- The digits behind the point and `k` zeros. -/
def below (negative : Bool) (k : Nat) : Numeral where
  negative
  whole := ['0']
  fraction := List.replicate k '0' ++ ds.chars
  exponent := none
  whole_ne_nil := by simp
  whole_digits := isDigit_zero
  whole_plain := .inl rfl
  fraction_digits := ds.isDigit_zeros_append k

/-- The digits and `k` zeros before the point, and a zero behind it. -/
def padded (negative : Bool) (k : Nat) : Numeral where
  negative
  whole := ds.chars ++ List.replicate k '0'
  fraction := ['0']
  exponent := none
  whole_ne_nil := by simp [ds.ne_nil]
  whole_digits := ds.isDigit_append_zeros k
  whole_plain := .inr (by rw [List.head?_append_of_ne_nil _ ds.ne_nil]; exact ds.head)
  fraction_digits := isDigit_zero

/-- The point behind the first digits, one at least. -/
def pointed (negative : Bool) (k : Nat) (exponent : Option Int) (hk : 0 < k) : Numeral where
  negative
  whole := ds.chars.take k
  fraction := ds.chars.drop k
  exponent
  whole_ne_nil := by simp [ds.ne_nil, hk.ne']
  whole_digits c hc := ds.isDigit c (List.mem_of_mem_take hc)
  whole_plain := .inr (by rw [List.head?_take, if_neg hk.ne']; exact ds.head)
  fraction_digits c hc := ds.isDigit c (List.mem_of_mem_drop hc)

/-! The value of each: the digits, times a power of ten. -/

variable (negative : Bool) (k : Nat)

theorem value_below : (ds.below negative k).value =
    Json.signValue negative * (Json.digitsValue ds.chars : ℚ) *
      10 ^ (-((k : ℤ) + ds.chars.length)) := by
  have hdigits : Json.digitsValue (['0'] ++ (List.replicate k '0' ++ ds.chars)) =
      Json.digitsValue ds.chars := by
    simp [Json.digitsValue, Nat.ofDigitChars_append, Nat.ofDigitChars_cons]
  simp only [Numeral.value, below, hdigits, Option.getD_none, List.length_append,
    List.length_replicate, zero_sub]
  push_cast
  rfl

theorem value_padded : (ds.padded negative k).value =
    Json.signValue negative * (Json.digitsValue ds.chars : ℚ) * 10 ^ (k : ℤ) := by
  have hdigits : Json.digitsValue (ds.chars ++ List.replicate k '0' ++ ['0']) =
      10 * (10 ^ k * Json.digitsValue ds.chars) := by
    simp [Json.digitsValue, Nat.ofDigitChars_append, Nat.ofDigitChars_cons]
  simp only [Numeral.value, padded, hdigits, Option.getD_none, List.length_singleton]
  push_cast
  rw [zpow_natCast]
  have hten : (10 : ℚ) ^ ((0 : ℤ) - 1) = 10⁻¹ := by norm_num
  simp only [zero_sub, Int.reduceNeg] at hten ⊢
  rw [hten]
  ring

theorem value_pointed (exponent : Option Int) (hk : 0 < k) (hlen : k ≤ ds.chars.length) :
    (ds.pointed negative k exponent hk).value =
      Json.signValue negative * (Json.digitsValue ds.chars : ℚ) *
        10 ^ (exponent.getD 0 + k - ds.chars.length) := by
  simp only [Numeral.value, pointed, List.take_append_drop, List.length_drop]
  congr 2
  push_cast [Nat.cast_sub hlen]
  ring

/-! The text of each. -/

theorem text_below {e : Int} (he : e < 0) : (ds.below negative (-e - 1).toNat).text =
    signChars negative ++ fixedText ds.chars e := by
  have hfraction : (ds.below negative (-e - 1).toNat).fraction ≠ [] := by simp [below, ds.ne_nil]
  rw [Numeral.text, Numeral.fractionText_of_ne_nil hfraction, fixedText, if_pos he]
  simp [Numeral.signText, Numeral.exponentText, below]

theorem text_padded {e : Int} (he : ¬e < 0) (hlen : ds.chars.length ≤ e.toNat + 1) :
    (ds.padded negative (e.toNat + 1 - ds.chars.length)).text =
      signChars negative ++ fixedText ds.chars e := by
  simp [Numeral.text, Numeral.signText, Numeral.fractionText, Numeral.exponentText, padded,
    fixedText, he, hlen]

theorem text_pointed {e : Int} (he : ¬e < 0) (hlen : ¬ds.chars.length ≤ e.toNat + 1) :
    (ds.pointed negative (e.toNat + 1) none (Nat.succ_pos _)).text =
      signChars negative ++ fixedText ds.chars e := by
  have hfraction : (ds.pointed negative (e.toNat + 1) none (Nat.succ_pos _)).fraction ≠ [] :=
    mt List.drop_eq_nil_iff.mp hlen
  rw [Numeral.text, Numeral.fractionText_of_ne_nil hfraction]
  simp [Numeral.signText, Numeral.exponentText, pointed, fixedText, he, hlen]

theorem text_scientific (e : Int) : (ds.pointed negative 1 (some e) Nat.one_pos).text =
    signChars negative ++ scientificText ds.chars e := by
  obtain ⟨c, cs, hcs⟩ := List.exists_cons_of_ne_nil ds.ne_nil
  cases cs <;>
    simp [Numeral.text, Numeral.signText, Numeral.fractionText, Numeral.exponentText, pointed,
      scientificText, hcs]

end Digits

/-- The literal of a zero among the doubles. -/
def zeroNumeral (negative : Bool) : Numeral where
  negative
  whole := ['0']
  fraction := ['0']
  exponent := none
  whole_ne_nil := List.cons_ne_nil _ _
  whole_digits := Digits.isDigit_zero
  whole_plain := .inl rfl
  fraction_digits := Digits.isDigit_zero

theorem text_zeroNumeral (negative : Bool) :
    (zeroNumeral negative).text = signChars negative ++ ['0', '.', '0'] := by
  cases negative <;> rfl

theorem value_zeroNumeral (negative : Bool) : (zeroNumeral negative).value = 0 := by
  have hdigits : Json.digitsValue ['0', '0'] = 0 := by decide
  simp [Numeral.value, zeroNumeral, hdigits]

/-- A decimal is written as a literal of its value, with a point or an exponent. -/
theorem exists_numeral (negative : Bool) {d : Decimal} (hd : 0 < d.digits) :
    ∃ n : Numeral, n.text = signChars negative ++ layout d ∧
      n.value = Json.signValue negative * d.value ∧ (n.fraction ≠ [] ∨ n.exponent ≠ none) := by
  obtain ⟨digits, exponent⟩ := d
  let ds := Digits.ofNat digits hd
  have hvalue : Json.digitsValue ds.chars = digits := digitsValue_toDigits digits
  have hpos := ds.length_pos
  have hlayout : layout ⟨digits, exponent⟩ =
      if isFixedExponent (exponent + ds.chars.length - 1) then
        fixedText ds.chars (exponent + ds.chars.length - 1)
      else scientificText ds.chars (exponent + ds.chars.length - 1) := rfl
  rw [hlayout, Decimal.value]
  -- `e` is the exponent of the first digit
  generalize he : exponent + ds.chars.length - 1 = e
  by_cases hfixed : isFixedExponent e
  · rw [if_pos hfixed]
    by_cases hneg : e < 0
    · refine ⟨_, ds.text_below negative hneg, ?_, .inl (by simp [Digits.below, ds.ne_nil])⟩
      have hexp : -(((-e - 1).toNat : ℤ) + ds.chars.length) = exponent := by omega
      rw [ds.value_below, hvalue, hexp, mul_assoc]
    · by_cases hlen : ds.chars.length ≤ e.toNat + 1
      · refine ⟨_, ds.text_padded negative hneg hlen, ?_, .inl (by simp [Digits.padded])⟩
        have hexp : ((e.toNat + 1 - ds.chars.length : ℕ) : ℤ) = exponent := by omega
        rw [ds.value_padded, hvalue, hexp, mul_assoc]
      · refine ⟨_, ds.text_pointed negative hneg hlen, ?_, .inl ?_⟩
        · have hexp : (none : Option Int).getD 0 + ((e.toNat + 1 : ℕ) : ℤ) - ds.chars.length =
              exponent := by
            rw [Option.getD_none]
            omega
          rw [ds.value_pointed negative _ none _ (by omega), hvalue, hexp, mul_assoc]
        · exact mt List.drop_eq_nil_iff.mp hlen
  · rw [if_neg hfixed]
    refine ⟨_, ds.text_scientific negative e, ?_, .inr (by simp [Digits.pointed])⟩
    have hexp : (some e).getD 0 + ((1 : ℕ) : ℤ) - ds.chars.length = exponent := by
      rw [Option.getD_some]
      omega
    rw [ds.value_pointed negative _ (some e) _ hpos, hvalue, hexp, mul_assoc]

end Contracts
