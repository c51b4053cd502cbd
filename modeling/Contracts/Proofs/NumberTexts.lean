import Contracts.Proofs.Rendering

/-!
# Contracts.Proofs.NumberTexts

The texts of numbers, at the top level and wherever a number stands inside of a value.

* `jsonNumber_eq_iff` — two finite doubles have one literal if and only if they are equal.
* `within_of_occurs`, `infix_render_of_occurs` — the literal of a number stands in the JSON form and
  in the text of every value that the number is met in.
* `number_reads_back` — the text of a finite number, whatever values are around it.

What is relied on is how the writer writes numbers and lays out trees.
-/

namespace Contracts

section Writer

variable [W : JsonWriter] {x y : Float} {b c : Binary}

/-! ## The literal of a double -/

section Literals

variable (hnumbers : W.WritesNumbers)

include hnumbers

/-- Two finite doubles have one literal if and only if they are equal. -/
theorem jsonNumber_eq_iff (hx : Binary.ofFloat? x = some b) (hy : Binary.ofFloat? y = some c) :
    jsonNumber y = jsonNumber x ↔ (x == y) = true := by
  constructor
  · intro heq
    obtain ⟨t, q, ht, _, _, hq, hround⟩ := hnumbers.jsonNumber_spec hx
    obtain ⟨t', q', ht', _, _, hq', hround'⟩ := hnumbers.jsonNumber_spec hy
    obtain rfl : t' = t := JsonTree.number.inj (ht'.symm.trans (heq.trans ht))
    obtain rfl : q = q' := Option.some_inj.mp (hq.symm.trans hq')
    exact hround.iff_beq.mp hround'
  · intro heq
    by_cases hzero : b.value = 0
    · have hzero' : c.value = 0 := by rw [← (beq_iff_value_eq hx hy).mp heq, hzero]
      rw [hnumbers.jsonNumber_of_safe (n := 0) hx (by simpa using hzero) (by decide),
        hnumbers.jsonNumber_of_safe (n := 0) hy (by simpa using hzero') (by decide)]
    · rw [float_eq_of_beq hx hzero heq]

end Literals

/-! ## Numbers inside of values -/

/-- Wherever a number is met in a value, its literal is in the JSON form. -/
theorem within_of_occurs {h : Heap} {v : Value} {path : List Ref} (hopen : h.Open v)
    (ho : Occurs h v path (.number x)) : (jsonNumber x).Within (h.toJson v) := by
  obtain ⟨_, i, hi, hwithin⟩ := ho.written ((written_iff hopen).mpr rfl)
  cases hi
  exact hwithin

omit W in
/-- Nothing else is met in a scalar. -/
theorem eq_of_occurs_scalar {h : Heap} {s : Scalar} {path : List Ref} {v : Value}
    (ho : Occurs h (.scalar s) path v) : v = .scalar s := by
  induction ho with
  | self => rfl
  | item _ _ ih => cases ih
  | field _ _ _ _ _ ih => cases ih

section Texts

variable (hnumbers : W.WritesNumbers) (htrees : W.WritesTrees)

include hnumbers htrees

/-- Wherever a number is met in a value, its literal stands in the text of the value. -/
theorem infix_render_of_occurs {h : Heap} {v : Value} {path : List Ref} (hx : x.isFinite = true)
    (hopen : h.Open v) (ho : Occurs h v path (.number x)) :
    (jsonNumber x).compact.toList <:+: (h.render v).toList := by
  have hrender : h.render v = (h.toJson v).compact := by
    match v, ho with
    | .scalar s, ho =>
      rw [← eq_of_occurs_scalar ho]
      exact render_eq_compact hnumbers htrees (Heap.isData_scalar (s := .number x) hx h)
    | .array items, _ => exact render_of_open hopen (by simp)
    | .object r, _ => exact render_of_open hopen (by simp)
  rw [hrender]
  exact htrees.infix_compact (within_of_occurs hopen ho)

theorem render_number (hx : Binary.ofFloat? x = some b) (h : Heap) :
    h.render (.number x) = (jsonNumber x).compact ∧ h.toJson (.number x) = jsonNumber x := by
  have hopen : h.Open (.number x) := by
    rintro r ⟨root, hroot, _⟩
    simp [Value.refs] at hroot
  have hjson : h.toJson (.number x) = (Scalar.number x).json :=
    (written_iff hopen).mp (.scalar [] _)
  exact ⟨hnumbers.numberText_eq hx htrees.number, hjson⟩

/-- The text of a finite number. It is the same text at the top level, in the JSON form, in a list
and in a new record, and wherever the number is met in a value with no held record in reach. It
consists of digits, with or without a minus, if and only if the number is an integer of magnitude at
most `maxSafeInteger`; then it is the text of that integer, and the conversion to 64 bits is exact.
Otherwise it has a point or an exponent. The number that it denotes as a decimal is rounded to the
double it was written for, and to no other one, except that the sign of a zero is lost. Two finite
numbers have one text if and only if they are equal. -/
theorem number_reads_back (hx : x.isFinite = true) (h : Heap) :
    ∃ b t q, Binary.ofFloat? x = some b ∧
      h.render (.number x) = t ∧
      h.toJson (.number x) = .number t ∧ (h.toJson (.number x)).compact = t ∧
      h.render (.array [.number x]) = "[" ++ t ++ "]" ∧
      (∀ h' r rec key, h.Extends h' r → h'.readable? r = some rec →
        rec.fields.entries = [(key, .number x)] →
        h'.render (.object r) = "\x7b" ++ W.quote key ++ ":" ++ t ++ "\x7d") ∧
      (∀ v path, h.Open v → Occurs h v path (.number x) →
        (JsonTree.number t).Within (h.toJson v) ∧ t.toList <:+: (h.render v).toList) ∧
      (IsPlain t.toList ↔ ∃ n : Int, b.value = n ∧ n.natAbs ≤ maxSafeInteger) ∧
      (∀ n : Int, b.value = n → n.natAbs ≤ maxSafeInteger →
        t = toString n ∧ x.toModel.toInt64.toInt = n) ∧
      (¬IsPlain t.toList → HasPointOrExponent t.toList) ∧
      Json.numberValue? t = some q ∧
      (∀ y, RoundsTo q y ↔ (x == y) = true) ∧
      (b.value ≠ 0 → ∀ y, RoundsTo q y ↔ x = y) ∧
      ∀ y, y.isFinite = true → (h.render (.number y) = t ↔ (x == y) = true) := by
  obtain ⟨b, hb⟩ := isFinite_iff.mp hx
  obtain ⟨t, q, ht, hplain, hpoint, hq, hround⟩ := hnumbers.jsonNumber_spec hb
  have hcompact : (jsonNumber x).compact = t := by rw [ht, JsonTree.compact, htrees.number]
  obtain ⟨hrender, hjson⟩ := render_number hnumbers htrees hb h
  rw [hcompact] at hrender
  have hdata : h.IsData (.number x) := Heap.isData_scalar (s := .number x) hx h
  refine ⟨b, t, q, hb, hrender, by rw [hjson, ht], by rw [hjson, hcompact], ?_, ?_, ?_, hplain, ?_,
    hpoint, hq, fun y => hround.iff_beq, ?_, ?_⟩
  · rw [render_singleton hnumbers htrees hdata, hrender]
  · intro h' r rec key hr hrec hfields
    rw [render_field hnumbers htrees hdata hr hrec hfields, hrender]
  · intro v path hopen ho
    have hwithin := within_of_occurs hopen ho
    have hinfix := infix_render_of_occurs hnumbers htrees hx hopen ho
    rw [ht] at hwithin
    rw [hcompact] at hinfix
    exact ⟨hwithin, hinfix⟩
  · intro n hn hsafe
    have htext := ht.symm.trans (hnumbers.jsonNumber_of_safe hb hn hsafe)
    refine ⟨JsonTree.number.inj htext, ?_⟩
    have hbound : n.natAbs < 2 ^ 53 := Nat.lt_succ_of_le hsafe
    have hmin : Int64.minValue.toInt = -2 ^ 63 := rfl
    have hmax : Int64.maxValue.toInt = 2 ^ 63 - 1 := rfl
    exact toInt64_eq hb (Binary.toInt?_eq_some_iff.mpr hn) (by omega) (by omega)
  · intro hzero y
    rw [hround.iff_beq]
    refine ⟨float_eq_of_beq hb hzero, ?_⟩
    rintro rfl
    exact (beq_iff_value_eq hb hb).mpr rfl
  · intro y hy
    obtain ⟨c, hc⟩ := isFinite_iff.mp hy
    obtain ⟨t', _, ht', _⟩ := hnumbers.jsonNumber_spec hc
    have hcompact' : (jsonNumber y).compact = t' := by rw [ht', JsonTree.compact, htrees.number]
    rw [(render_number hnumbers htrees hc h).1, hcompact', ← jsonNumber_eq_iff hnumbers hb hc, ht,
      ht', JsonTree.number.injEq]

end Texts

end Writer

namespace Tenth

/-- The double nearest to a tenth. -/
def tenth : Float := Float.ofBits 0x3FB999999999999A

theorem ofFloat?_tenth : Binary.ofFloat? tenth = some ⟨false, 0x1999999999999A, -56⟩ := by
  decide +kernel

theorem jsonNumber_tenth : jsonNumber tenth = .number "0.1" := by
  have hsafe : safeInteger? tenth = none := by decide +kernel
  have htext : doubleText? tenth = some "0.1" := by decide +kernel
  rw [jsonNumber, hsafe]
  change ((doubleText? tenth).map JsonTree.number).getD .null = .number "0.1"
  rw [htext, Option.map_some, Option.getD_some]

theorem numberValue?_text : Json.numberValue? "0.1" = some (1 / 10) := by
  have htext : Json.numberValue? "0.1" =
      some (Json.signValue false * ((1 : Nat) : ℚ) * 10 ^ ((0 : Int) - (1 : Nat))) := rfl
  rw [htext, Json.signValue]
  norm_num

/-- A tenth is written in two digits, with a point. It is no double itself, and the one that it is
rounded to is the one that it was written for. -/
theorem reads_back : tenth.isFinite = true ∧ ({} : Heap).render (.number tenth) = "0.1" ∧
    ¬IsPlain "0.1".toList ∧ ∀ y, RoundsTo (1 / 10) y ↔ tenth = y := by
  have hfinite : tenth.isFinite = true := by decide +kernel
  obtain ⟨b, t, q, hb, hrender, hjson, -, -, -, -, hplain, -, -, hq, -, hround, -⟩ :=
    number_reads_back standardWriter_writesNumbers standardWriter_writesTrees hfinite {}
  obtain rfl := Option.some_inj.mp (ofFloat?_tenth.symm.trans hb)
  obtain rfl : "0.1" = t := by
    rw [(render_number standardWriter_writesNumbers standardWriter_writesTrees hb {}).2,
      jsonNumber_tenth] at hjson
    exact JsonTree.number.inj hjson
  obtain rfl : 1 / 10 = q := Option.some_inj.mp (numberValue?_text.symm.trans hq)
  refine ⟨hfinite, hrender, ?_, hround ?_⟩
  · intro h
    exact absurd (isDigit_or_minus_of_isPlain h (c := '.') (by decide)) (by decide)
  · norm_num [Binary.value_eq_zero]

end Tenth

end Contracts
