import Contracts.Proofs.Rendering
import Contracts.Trace

/-!
# Contracts.Proofs.EventTexts

The texts of traced checks.

* `SpellsString.newline_not_mem`, `NumberText.newline_not_mem` — the leaves of JSON text are written
  in one line.
* `WritesTrees.newline_not_mem` — and so are whole trees.
* `TraceEvent.lexical_toJson` — the numbers of a traced check are literals, whatever its values are.
* `TraceEvent.text_spec` — so the text of a traced check is one line, and denotes the check.
-/

namespace Contracts

/-! ## Texts of one line -/

namespace Json

theorem hexValue?_newline : hexValue? '\n' = none := rfl

theorem hex4?_isSome {a b c d : Char} {n : Nat} (h : hex4? a b c d = some n) :
    ∀ x ∈ [a, b, c, d], hexValue? x ≠ none := by
  obtain ⟨na, ha, h⟩ := Option.bind_eq_some_iff.mp h
  obtain ⟨nb, hb, h⟩ := Option.bind_eq_some_iff.mp h
  obtain ⟨nc, hc, h⟩ := Option.bind_eq_some_iff.mp h
  obtain ⟨nd, hd, _⟩ := Option.bind_eq_some_iff.mp h
  simp [ha, hb, hc, hd]

theorem Spelling.newline_not_mem {p : Piece} {cs : List Char} (h : Spelling p cs) :
    '\n' ∉ cs := by
  cases h with
  | plain _ _ hcontrol =>
    rw [List.mem_singleton]
    rintro rfl
    exact hcontrol (by decide)
  | short h =>
    simp only [List.mem_cons, List.not_mem_nil, or_false, not_or]
    refine ⟨by decide, ?_⟩
    rintro rfl
    cases h
  | unit h =>
    intro hmem
    rcases List.mem_cons.mp hmem with hslash | hmem
    · cases hslash
    rcases List.mem_cons.mp hmem with hu | hmem
    · cases hu
    exact hex4?_isSome h _ hmem hexValue?_newline

theorem SpellsString.newline_not_mem {s : Literal} {cs : List Char} (h : SpellsString s cs) :
    '\n' ∉ cs := by
  obtain ⟨hpieces⟩ := h
  have hinner : ∀ {ps cs}, SpellsPieces ps cs → '\n' ∉ cs := by
    intro ps cs hps
    induction hps with
    | nil => simp
    | cons hp _ ih => simp [hp.newline_not_mem, ih]
  simp [hinner hpieces]

theorem AreDigits.newline_not_mem {ds : List Char} (h : AreDigits ds) : '\n' ∉ ds :=
  fun hmem => absurd (h.2 _ hmem) (by decide)

theorem NumberText.newline_not_mem {cs : List Char} (h : NumberText cs) : '\n' ∉ cs := by
  obtain ⟨hsign, hwhole, hfraction, hexponent⟩ := h
  simp only [List.mem_append, not_or]
  refine ⟨⟨⟨?_, ?_⟩, ?_⟩, ?_⟩
  · cases hsign <;> decide
  · cases hwhole with
    | zero => decide
    | digits hds _ => exact hds.newline_not_mem
  · cases hfraction with
    | none => decide
    | digits hds => exact List.not_mem_cons_of_ne_of_not_mem (by decide) hds.newline_not_mem
  · cases hexponent with
    | none => decide
    | digits hmark hsign hds =>
      rcases hmark with rfl | rfl <;> rcases hsign with rfl | rfl | rfl <;>
        simp [hds.newline_not_mem]

end Json

theorem newline_not_mem_intercalate {ss : List String} (hss : ∀ s ∈ ss, '\n' ∉ s.toList) :
    '\n' ∉ (String.intercalate "," ss).toList := by
  induction ss with
  | nil => simp
  | cons s ss ih =>
    obtain ⟨hs, hss⟩ := List.forall_mem_cons.mp hss
    cases ss with
    | nil => rwa [String.intercalate_singleton]
    | cons t ts =>
      rw [String.intercalate_cons_cons]
      simp only [String.toList_append, List.mem_append, not_or]
      exact ⟨⟨hs, by decide⟩, ih hss⟩

theorem newline_not_mem_enclosed {left right : String} {ss : List String}
    (hleft : '\n' ∉ left.toList) (hright : '\n' ∉ right.toList) (hss : ∀ s ∈ ss, '\n' ∉ s.toList) :
    '\n' ∉ (left ++ String.intercalate "," ss ++ right).toList := by
  simp only [String.toList_append, List.mem_append, not_or]
  exact ⟨⟨hleft, newline_not_mem_intercalate hss⟩, hright⟩

/-- The compact text of a tree is one line. -/
theorem JsonWriter.WritesTrees.newline_not_mem [W : JsonWriter] (hW : W.WritesTrees) (j : Json)
    (hj : Json.Lexical j) : '\n' ∉ j.compact.toList := by
  induction j using JsonTree.induction with
  | null =>
    rw [JsonTree.compact, hW.null]
    decide
  | bool b =>
    rw [JsonTree.compact, hW.bool]
    cases b <;> decide
  | number literal =>
    rw [JsonTree.compact, hW.number]
    exact (hj literal (.self _)).newline_not_mem
  | string s =>
    rw [JsonTree.compact, hW.string]
    exact (hW.quote s).newline_not_mem
  | array js ih =>
    rw [JsonTree.compact, hW.array]
    refine newline_not_mem_enclosed (by decide) (by decide) fun s hs => ?_
    obtain ⟨i, hi, rfl⟩ := List.mem_map.mp hs
    exact ih i hi (hj.item hi)
  | object ms ih =>
    rw [JsonTree.compact, hW.object]
    refine newline_not_mem_enclosed (by decide) (by decide) fun s hs => ?_
    obtain ⟨m, hm, rfl⟩ := List.mem_map.mp hs
    have hkey := (hW.quote m.1).newline_not_mem
    have hvalue := ih m hm (hj.member hm)
    rw [JsonTree.compact] at hvalue
    simp [hkey, hvalue]

/-! ## Traced checks -/

namespace TraceEvent

section Writer

variable [W : JsonWriter] (hnumbers : W.WritesNumbers)

include hnumbers

theorem lexical_inputMember (h : Heap) (i : Input) : Json.Lexical (inputMember h i).2 := by
  cases i with
  | args vs =>
    intro t ht
    cases ht with
    | item hj ht =>
      obtain ⟨v, -, rfl⟩ := List.mem_map.mp hj
      exact Contracts.lexical_toJson hnumbers h v t ht
  | value v => exact Contracts.lexical_toJson hnumbers h v

theorem lexical_toJson (h : Heap) (e : TraceEvent) : Json.Lexical (e.toJson h) := by
  have hmembers : ∀ m ∈ [("kind", .string e.kind.name), ("class", .string e.className),
      ("name", .string e.member), inputMember h e.input] ++
      (e.result.map fun v => ("result", h.toJson v)).toList ++ [("passed", .bool e.passed)] ++
      (e.failure.map fun f => ("failure", .string f.name)).toList, Json.Lexical m.2 := by
    simp only [List.mem_append, List.mem_cons, List.not_mem_nil, or_false, Option.mem_toList,
      Option.map_eq_some_iff]
    rintro m (((hm | hm) | hm) | hm)
    · rcases hm with rfl | rfl | rfl | rfl
      · exact fun t ht => by cases ht
      · exact fun t ht => by cases ht
      · exact fun t ht => by cases ht
      · exact lexical_inputMember hnumbers h e.input
    · obtain ⟨v, -, rfl⟩ := hm
      exact Contracts.lexical_toJson hnumbers h v
    · exact hm ▸ fun t ht => by cases ht
    · obtain ⟨f, -, rfl⟩ := hm
      exact fun t ht => by cases ht
  intro t ht
  cases ht with
  | member hm ht => exact hmembers (_, _) hm t ht

/-- The text of a traced check is one line, and denotes the check. -/
theorem text_spec (htrees : W.WritesTrees) (h : Heap) (e : TraceEvent) :
    '\n' ∉ (e.text h).toList ∧ Json.Denotes (e.text h) (e.toJson h) := by
  have hlexical := lexical_toJson hnumbers h e
  rw [text]
  exact ⟨htrees.newline_not_mem _ hlexical, htrees.denotes hlexical⟩

end Writer

end TraceEvent
end Contracts
