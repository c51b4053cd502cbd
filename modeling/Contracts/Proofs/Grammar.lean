import Contracts.Proofs.Spelling

/-!
# Contracts.Proofs.Grammar

The texts of JSON trees.

* `Blank`     — white space.
* `Spells`    — a tree and a text for it, with white space wherever it may stand.
* `SpellsWhole` — a text with white space around it as well.
* `value_spelled`, `exists_spelled` — the reader of values reads every text of a tree, and nothing
  else.
* `parseTree_iff` — so a text is read as a tree if and only if it is a text of the tree.
* `Denotes`, `Denotes.unique` — a text denotes one tree at most.
-/

namespace Contracts
namespace Json

/-! ## The grammar -/

def Blank (cs : List Char) : Prop := ∀ c ∈ cs, isSpace c = true

mutual

/-- A text for the tree, with no white space around it. -/
inductive Spells : JsonTree Literal → List Char → Prop where
  | null : Spells .null ['n', 'u', 'l', 'l']
  | boolTrue : Spells (.bool true) ['t', 'r', 'u', 'e']
  | boolFalse : Spells (.bool false) ['f', 'a', 'l', 's', 'e']
  | number {ds : List Char} (h : NumberText ds) : Spells (.number (String.ofList ds)) ds
  | string {s : Literal} {cs : List Char} (h : SpellsString s cs) : Spells (.string s) cs
  | noItems {b : List Char} (hb : Blank b) : Spells (.array []) ('[' :: (b ++ [']']))
  | array {js : List (JsonTree Literal)} {cs : List Char} (h : SpellsItems js cs) :
      Spells (.array js) ('[' :: (cs ++ [']']))
  | noMembers {b : List Char} (hb : Blank b) : Spells (.object []) ('\x7b' :: (b ++ ['\x7d']))
  | object {ms : List (Literal × JsonTree Literal)} {cs : List Char} (h : SpellsMembers ms cs) :
      Spells (.object ms) ('\x7b' :: (cs ++ ['\x7d']))

/-- The items of an array that has some, between the brackets. -/
inductive SpellsItems : List (JsonTree Literal) → List Char → Prop where
  | last {j : JsonTree Literal} {b cs b' : List Char} (hb : Blank b) (h : Spells j cs)
      (hb' : Blank b') : SpellsItems [j] (b ++ (cs ++ b'))
  | more {j : JsonTree Literal} {js : List (JsonTree Literal)} {b cs b' cs' : List Char}
      (hb : Blank b) (h : Spells j cs) (hb' : Blank b') (hs : SpellsItems js cs') :
      SpellsItems (j :: js) (b ++ (cs ++ (b' ++ ',' :: cs')))

/-- The members of an object that has some, between the braces. -/
inductive SpellsMembers : List (Literal × JsonTree Literal) → List Char → Prop where
  | last {key : Literal} {j : JsonTree Literal} {b ks b₁ b₂ cs b' : List Char} (hb : Blank b)
      (hkey : SpellsString key ks) (hb₁ : Blank b₁) (hb₂ : Blank b₂) (h : Spells j cs)
      (hb' : Blank b') :
      SpellsMembers [(key, j)] (b ++ (ks ++ (b₁ ++ ':' :: (b₂ ++ (cs ++ b')))))
  | more {key : Literal} {j : JsonTree Literal} {ms : List (Literal × JsonTree Literal)}
      {b ks b₁ b₂ cs b' cs' : List Char} (hb : Blank b) (hkey : SpellsString key ks)
      (hb₁ : Blank b₁) (hb₂ : Blank b₂) (h : Spells j cs) (hb' : Blank b')
      (hs : SpellsMembers ms cs') :
      SpellsMembers ((key, j) :: ms)
        (b ++ (ks ++ (b₁ ++ ':' :: (b₂ ++ (cs ++ (b' ++ ',' :: cs'))))))

end

/-- A text for the tree, white space around it included. -/
inductive SpellsWhole : JsonTree Literal → List Char → Prop where
  | around {j : JsonTree Literal} {b cs b' : List Char} (hb : Blank b) (h : Spells j cs)
      (hb' : Blank b') : SpellsWhole j (b ++ (cs ++ b'))

/-! ## White space -/

theorem blank_append {b b' : List Char} (hb : Blank b) (hb' : Blank b') : Blank (b ++ b') := by
  intro c hc
  rcases List.mem_append.mp hc with hc | hc
  · exact hb c hc
  · exact hb' c hc

theorem skipSpace_cons {c : Char} (hc : isSpace c = false) (rest : List Char) :
    skipSpace (c :: rest) = c :: rest := by
  rw [skipSpace, List.dropWhile_cons_of_neg (by simp [hc])]

theorem skipSpace_blanks {b : List Char} (hb : Blank b) (rest : List Char) :
    skipSpace (b ++ rest) = skipSpace rest := by
  rw [skipSpace, List.dropWhile_append_of_pos hb, skipSpace]

theorem value_blanks {b : List Char} (hb : Blank b) (fuel : Nat) (rest : List Char) :
    value fuel (b ++ rest) = value fuel rest := by
  cases fuel with
  | zero => rw [value, value]
  | succ fuel => rw [value, value, skipSpace_blanks hb]

theorem items_blanks {b : List Char} (hb : Blank b) (fuel : Nat) (rest : List Char) :
    items fuel (b ++ rest) = items fuel rest := by
  cases fuel with
  | zero => rw [items, items]
  | succ fuel => rw [items, items, value_blanks hb]

theorem members_blanks {b : List Char} (hb : Blank b) (fuel : Nat) (rest : List Char) :
    members fuel (b ++ rest) = members fuel rest := by
  cases fuel with
  | zero => rw [members, members]
  | succ fuel => rw [members, members, skipSpace_blanks hb]

theorem exists_blank (cs : List Char) : ∃ b, Blank b ∧ cs = b ++ skipSpace cs :=
  ⟨cs.takeWhile isSpace, List.all_eq_true.mp List.all_takeWhile,
    List.takeWhile_append_dropWhile.symm⟩

theorem skipSpace_blank_cons {b : List Char} (hb : Blank b) {c : Char} (hc : isSpace c = false)
    (rest : List Char) : skipSpace (b ++ c :: rest) = c :: rest := by
  rw [skipSpace_blanks hb, skipSpace_cons hc]

theorem isSpace_of_number {c : Char} (hc : isSpace c = true) :
    c.isDigit = false ∧ c ≠ '.' ∧ c ≠ 'e' ∧ c ≠ 'E' := by
  simp only [isSpace, Bool.or_eq_true, beq_iff_eq] at hc
  rcases hc with ((rfl | rfl) | rfl) | rfl <;> decide

/-- White space and a delimiter end a number. -/
theorem afterNumber_blank_append {b rest : List Char} (hb : Blank b) (hrest : AfterNumber rest) :
    AfterNumber (b ++ rest) := by
  cases b with
  | nil => exact hrest
  | cons c b => exact afterNumber_cons (isSpace_of_number (hb c List.mem_cons_self)) _

/-! ## Every text of a tree is read -/

/-- A character that a literal starts with is none of the others. -/
theorem ne_of_head {c : Char} (hc : c = '-' ∨ c.isDigit = true) {d : Char} (hminus : d ≠ '-')
    (hdigit : d.isDigit = false) : c ≠ d := by
  rintro rfl
  rcases hc with hc | hc
  · exact hminus hc
  · rw [hdigit] at hc
    cases hc

theorem isSpace_of_head {c : Char} (hc : c = '-' ∨ c.isDigit = true) : isSpace c = false := by
  simp [isSpace, ne_of_head hc (d := ' '), ne_of_head hc (d := '\n'), ne_of_head hc (d := '\r'),
    ne_of_head hc (d := '\t')]

theorem SpellsString.exists_quote {s : Literal} {cs : List Char} (h : SpellsString s cs) :
    ∃ t, cs = '\"' :: t := by
  obtain ⟨_⟩ := h
  exact ⟨_, rfl⟩

/-- A text starts with no white space, and not as an array ends. -/
theorem Spells.exists_head {j : JsonTree Literal} {cs : List Char} (h : Spells j cs) :
    ∃ c t, cs = c :: t ∧ isSpace c = false ∧ c ≠ ']' := by
  cases h with
  | null | boolTrue | boolFalse => exact ⟨_, _, rfl, by decide, by decide⟩
  | noItems | array | noMembers | object => exact ⟨_, _, rfl, by decide, by decide⟩
  | string h =>
    obtain ⟨t, rfl⟩ := h.exists_quote
    exact ⟨_, _, rfl, by decide, by decide⟩
  | number h =>
    obtain ⟨c, t, rfl, hc⟩ := h.exists_head
    exact ⟨c, t, rfl, isSpace_of_head hc, ne_of_head hc (by decide) (by decide)⟩

theorem SpellsItems.exists_head {js : List (JsonTree Literal)} {cs : List Char}
    (h : SpellsItems js cs) :
    ∃ b c t, Blank b ∧ cs = b ++ c :: t ∧ isSpace c = false ∧ c ≠ ']' := by
  cases h with
  | last hb h hb' =>
    obtain ⟨c, t, rfl, hc⟩ := h.exists_head
    exact ⟨_, c, _, hb, rfl, hc⟩
  | more hb h hb' hs =>
    obtain ⟨c, t, rfl, hc⟩ := h.exists_head
    exact ⟨_, c, _, hb, rfl, hc⟩

theorem SpellsMembers.exists_head {ms : List (Literal × JsonTree Literal)} {cs : List Char}
    (h : SpellsMembers ms cs) : ∃ b t, Blank b ∧ cs = b ++ '\"' :: t := by
  cases h with
  | last hb hkey _ _ _ _ =>
    obtain ⟨t, rfl⟩ := hkey.exists_quote
    exact ⟨_, _, hb, rfl⟩
  | more hb hkey _ _ _ _ _ =>
    obtain ⟨t, rfl⟩ := hkey.exists_quote
    exact ⟨_, _, hb, rfl⟩

theorem value_number {cs rest : List Char} (h : NumberText cs) (hrest : AfterNumber rest)
    (fuel : Nat) : value (fuel + 1) (cs ++ rest) = some (.number (String.ofList cs), rest) := by
  obtain ⟨c, t, rfl, hc⟩ := h.exists_head
  have hscan := scanNumber_spelled h hrest
  rw [List.cons_append] at hscan ⊢
  rw [value, skipSpace_cons (isSpace_of_head hc)]
  split
  case h_7 => rw [hscan, Option.map_some]
  all_goals
    next heq =>
      refine absurd (List.cons.inj heq).1 (ne_of_head hc ?_ ?_) <;> decide

theorem value_string {s : Literal} {cs : List Char} (h : SpellsString s cs) (fuel : Nat)
    (rest : List Char) : value (fuel + 1) (cs ++ rest) = some (.string s, rest) := by
  obtain ⟨t, rfl⟩ := h.exists_quote
  rw [List.cons_append, value, skipSpace_cons (by decide)]
  simp only [stringText?_spelled h, Option.map_some]

theorem value_items {fuel : Nat} {js : List (JsonTree Literal)} {cs rest : List Char}
    (h : SpellsItems js cs) (hitems : items fuel (cs ++ ']' :: rest) = some (js, rest)) :
    value (fuel + 1) ('[' :: (cs ++ ']' :: rest)) = some (.array js, rest) := by
  obtain ⟨b, c, t, hb, rfl, hc, hne⟩ := h.exists_head
  rw [List.append_assoc, List.cons_append] at hitems ⊢
  rw [items_blanks hb] at hitems
  rw [value, skipSpace_cons (by decide)]
  simp only [skipSpace_blank_cons hb hc]
  split
  · next heq => exact absurd (List.cons.inj heq).1 hne
  · rw [hitems, Option.map_some]

theorem value_members {fuel : Nat} {ms : List (Literal × JsonTree Literal)}
    {cs rest : List Char} (h : SpellsMembers ms cs)
    (hmembers : members fuel (cs ++ '\x7d' :: rest) = some (ms, rest)) :
    value (fuel + 1) ('\x7b' :: (cs ++ '\x7d' :: rest)) = some (.object ms, rest) := by
  obtain ⟨b, t, hb, rfl⟩ := h.exists_head
  rw [List.append_assoc, List.cons_append] at hmembers ⊢
  rw [members_blanks hb] at hmembers
  rw [value, skipSpace_cons (by decide)]
  simp only [skipSpace_blank_cons hb (show isSpace '\"' = false by decide)]
  split
  · next heq => cases heq
  · rw [hmembers, Option.map_some]

/-! A call spends a step, and a text has at least as many characters as its reading spends steps: a
list spends one for itself and one for each item, and there is a bracket before the items and a
character in each of them. -/

mutual

theorem value_spelled : {j : JsonTree Literal} → {cs : List Char} → Spells j cs → (fuel : Nat) →
    cs.length ≤ fuel → {rest : List Char} → AfterNumber rest →
    value fuel (cs ++ rest) = some (j, rest)
  | _, _, .null, _ + 1, _, _, _ => rfl
  | _, _, .boolTrue, _ + 1, _, _, _ => rfl
  | _, _, .boolFalse, _ + 1, _, _, _ => rfl
  | _, _, .number h, 0, hf, _, _ => by
    obtain ⟨c, t, rfl, _⟩ := h.exists_head
    simp at hf
  | _, _, .number h, fuel + 1, _, _, hrest => value_number h hrest fuel
  | _, _, .string h, 0, hf, _, _ => by
    obtain ⟨t, rfl⟩ := h.exists_quote
    simp at hf
  | _, _, .string h, fuel + 1, _, rest, _ => value_string h fuel rest
  | _, _, .noItems hb, fuel + 1, _, rest, _ => by
    rw [List.cons_append, List.append_assoc, value, skipSpace_cons (by decide)]
    simp only [List.singleton_append, skipSpace_blank_cons hb (show isSpace ']' = false by decide)]
  | _, _, .array h, fuel + 1, hf, rest, _ => by
    rw [List.cons_append, List.append_assoc, List.singleton_append]
    refine value_items h (items_spelled h fuel ?_ rest)
    simp only [List.length_cons, List.length_append, List.length_nil] at hf
    omega
  | _, _, .noMembers hb, fuel + 1, _, rest, _ => by
    rw [List.cons_append, List.append_assoc, value, skipSpace_cons (by decide)]
    simp only [List.singleton_append,
      skipSpace_blank_cons hb (show isSpace '\x7d' = false by decide)]
  | _, _, .object h, fuel + 1, hf, rest, _ => by
    rw [List.cons_append, List.append_assoc, List.singleton_append]
    refine value_members h (members_spelled h fuel ?_ rest)
    simp only [List.length_cons, List.length_append, List.length_nil] at hf
    omega

theorem items_spelled : {js : List (JsonTree Literal)} → {cs : List Char} → SpellsItems js cs →
    (fuel : Nat) → cs.length < fuel → (rest : List Char) →
    items fuel (cs ++ ']' :: rest) = some (js, rest)
  | _, _, .last hb h hb', fuel + 1, hf, rest => by
    simp only [List.length_append] at hf
    have hvalue := value_spelled h fuel (by omega)
      (afterNumber_blank_append hb' (afterNumber_cons (c := ']') (by decide) rest))
    rw [List.append_assoc, List.append_assoc, items_blanks hb, items, hvalue]
    simp only [Option.bind_eq_bind, Option.bind_some,
      skipSpace_blank_cons hb' (show isSpace ']' = false by decide), Option.pure_def]
  | _, _, .more hb h hb' hs, fuel + 1, hf, rest => by
    simp only [List.length_append, List.length_cons] at hf
    have hvalue := fun rest => value_spelled h fuel (by omega)
      (afterNumber_blank_append hb' (afterNumber_cons (c := ',') (by decide) rest))
    have hitems := items_spelled hs fuel (by omega) rest
    simp only [List.append_assoc, List.cons_append]
    rw [items_blanks hb, items, hvalue]
    simp only [Option.bind_eq_bind, Option.bind_some,
      skipSpace_blank_cons hb' (show isSpace ',' = false by decide), hitems, Option.pure_def]

theorem members_spelled : {ms : List (Literal × JsonTree Literal)} → {cs : List Char} →
    SpellsMembers ms cs → (fuel : Nat) → cs.length < fuel → (rest : List Char) →
    members fuel (cs ++ '\x7d' :: rest) = some (ms, rest)
  | _, _, .last hb hkey hb₁ hb₂ h hb', fuel + 1, hf, rest => by
    obtain ⟨t, rfl⟩ := hkey.exists_quote
    simp only [List.length_append, List.length_cons] at hf
    have hvalue := value_spelled h fuel (by omega)
      (afterNumber_blank_append hb' (afterNumber_cons (c := '\x7d') (by decide) rest))
    simp only [List.append_assoc, List.cons_append]
    rw [members_blanks hb, members, skipSpace_cons (by decide)]
    simp only [stringText?_spelled hkey, Option.bind_eq_bind, Option.bind_some,
      skipSpace_blank_cons hb₁ (show isSpace ':' = false by decide), value_blanks hb₂, hvalue,
      skipSpace_blank_cons hb' (show isSpace '\x7d' = false by decide), Option.pure_def]
  | _, _, .more hb hkey hb₁ hb₂ h hb' hs, fuel + 1, hf, rest => by
    obtain ⟨t, rfl⟩ := hkey.exists_quote
    simp only [List.length_append, List.length_cons] at hf
    have hvalue := fun rest => value_spelled h fuel (by omega)
      (afterNumber_blank_append hb' (afterNumber_cons (c := ',') (by decide) rest))
    have hmembers := members_spelled hs fuel (by omega) rest
    simp only [List.append_assoc, List.cons_append]
    rw [members_blanks hb, members, skipSpace_cons (by decide)]
    simp only [stringText?_spelled hkey, Option.bind_eq_bind, Option.bind_some,
      skipSpace_blank_cons hb₁ (show isSpace ':' = false by decide), value_blanks hb₂, hvalue,
      skipSpace_blank_cons hb' (show isSpace ',' = false by decide), hmembers, Option.pure_def]

end

/-! ## What is read is a text of the tree -/

/-- White space in front of items belongs to the first of them. -/
theorem SpellsItems.blank_append {js : List (JsonTree Literal)} {b cs : List Char} (hb : Blank b)
    (h : SpellsItems js cs) : SpellsItems js (b ++ cs) := by
  cases h with
  | last hb₀ h hb' =>
    rw [← List.append_assoc]
    exact .last (Json.blank_append hb hb₀) h hb'
  | more hb₀ h hb' hs =>
    rw [← List.append_assoc]
    exact .more (Json.blank_append hb hb₀) h hb' hs

theorem SpellsMembers.blank_append {ms : List (Literal × JsonTree Literal)} {b cs : List Char}
    (hb : Blank b) (h : SpellsMembers ms cs) : SpellsMembers ms (b ++ cs) := by
  cases h with
  | last hb₀ hkey hb₁ hb₂ h hb' =>
    rw [← List.append_assoc]
    exact .last (Json.blank_append hb hb₀) hkey hb₁ hb₂ h hb'
  | more hb₀ hkey hb₁ hb₂ h hb' hs =>
    rw [← List.append_assoc]
    exact .more (Json.blank_append hb hb₀) hkey hb₁ hb₂ h hb' hs

mutual

theorem exists_spelled : (fuel : Nat) → {cs : List Char} → {j : JsonTree Literal} →
    {rest : List Char} → value fuel cs = some (j, rest) →
    ∃ b text, Blank b ∧ Spells j text ∧ cs = b ++ (text ++ rest)
  | 0, _, _, _, h => by cases h
  | fuel + 1, cs, j, rest, h => by
    obtain ⟨b, hb, hcs⟩ := exists_blank cs
    rw [value] at h
    split at h
    · next t heq =>
      cases h
      exact ⟨b, _, hb, .null, by rw [hcs, heq]; rfl⟩
    · next t heq =>
      cases h
      exact ⟨b, _, hb, .boolTrue, by rw [hcs, heq]; rfl⟩
    · next t heq =>
      cases h
      exact ⟨b, _, hb, .boolFalse, by rw [hcs, heq]; rfl⟩
    · next t heq =>
      obtain ⟨⟨s, rest'⟩, hscan, hj⟩ := Option.map_eq_some_iff.mp h
      cases hj
      obtain ⟨text, htext, rfl⟩ := exists_spelling hscan
      exact ⟨b, _, hb, .string htext, by rw [hcs, heq]; rfl⟩
    · next t heq =>
      obtain ⟨b', hb', ht⟩ := exists_blank t
      split at h
      · next t' heq' =>
        cases h
        refine ⟨b, _, hb, .noItems hb', ?_⟩
        rw [hcs, heq, ht, heq']
        simp
      · obtain ⟨⟨js, rest'⟩, hitems, hj⟩ := Option.map_eq_some_iff.mp h
        cases hj
        obtain ⟨text, htext, hskip⟩ := exists_items fuel hitems
        refine ⟨b, _, hb, .array (htext.blank_append hb'), ?_⟩
        rw [hcs, heq, ht, hskip]
        simp
    · next t heq =>
      obtain ⟨b', hb', ht⟩ := exists_blank t
      split at h
      · next t' heq' =>
        cases h
        refine ⟨b, _, hb, .noMembers hb', ?_⟩
        rw [hcs, heq, ht, heq']
        simp
      · obtain ⟨⟨ms, rest'⟩, hmembers, hj⟩ := Option.map_eq_some_iff.mp h
        cases hj
        obtain ⟨text, htext, hskip⟩ := exists_members fuel hmembers
        refine ⟨b, _, hb, .object (htext.blank_append hb'), ?_⟩
        rw [hcs, heq, ht, hskip]
        simp
    · obtain ⟨⟨ds, rest'⟩, hscan, hj⟩ := Option.map_eq_some_iff.mp h
      cases hj
      obtain ⟨hds, heq⟩ := exists_numberText hscan
      exact ⟨b, ds, hb, .number hds, by rw [hcs, heq]⟩

theorem exists_items : (fuel : Nat) → {cs : List Char} → {js : List (JsonTree Literal)} →
    {rest : List Char} → items fuel cs = some (js, rest) →
    ∃ text, SpellsItems js text ∧ cs = text ++ ']' :: rest
  | 0, _, _, _, h => by cases h
  | fuel + 1, cs, js, rest, h => by
    rw [items] at h
    obtain ⟨⟨j, rest₁⟩, hvalue, hnext⟩ := Option.bind_eq_some_iff.mp h
    obtain ⟨b, text, hb, htext, rfl⟩ := exists_spelled fuel hvalue
    obtain ⟨b', hb', hrest₁⟩ := exists_blank rest₁
    dsimp only at hnext
    split at hnext
    · next t heq =>
      obtain ⟨⟨js', rest'⟩, hitems, hjs⟩ := Option.bind_eq_some_iff.mp hnext
      cases hjs
      obtain ⟨text', htext', rfl⟩ := exists_items fuel hitems
      refine ⟨_, .more hb htext hb' htext', ?_⟩
      rw [hrest₁, heq]
      simp
    · next t heq =>
      cases hnext
      refine ⟨_, .last hb htext hb', ?_⟩
      rw [hrest₁, heq]
      simp
    · cases hnext

theorem exists_members : (fuel : Nat) → {cs : List Char} →
    {ms : List (Literal × JsonTree Literal)} → {rest : List Char} →
    members fuel cs = some (ms, rest) →
    ∃ text, SpellsMembers ms text ∧ cs = text ++ '\x7d' :: rest
  | 0, _, _, _, h => by cases h
  | fuel + 1, cs, ms, rest, h => by
    obtain ⟨b, hb, hcs⟩ := exists_blank cs
    rw [members] at h
    split at h
    · next t heq =>
      obtain ⟨⟨key, rest₁⟩, hscan, hcolon⟩ := Option.bind_eq_some_iff.mp h
      obtain ⟨ks, hkey, rfl⟩ := exists_spelling hscan
      obtain ⟨b₁, hb₁, hrest₁⟩ := exists_blank rest₁
      dsimp only at hcolon
      split at hcolon
      · next t' heq' =>
        obtain ⟨⟨j, rest₂⟩, hvalue, hnext⟩ := Option.bind_eq_some_iff.mp hcolon
        obtain ⟨b₂, text, hb₂, htext, rfl⟩ := exists_spelled fuel hvalue
        obtain ⟨b', hb', hrest₂⟩ := exists_blank rest₂
        dsimp only at hnext
        split at hnext
        · next t'' heq'' =>
          obtain ⟨⟨ms', rest'⟩, hmembers, hms⟩ := Option.bind_eq_some_iff.mp hnext
          cases hms
          obtain ⟨text', htext', rfl⟩ := exists_members fuel hmembers
          refine ⟨_, .more hb hkey hb₁ hb₂ htext hb' htext', ?_⟩
          rw [hcs, heq, hrest₁, heq', hrest₂, heq'']
          simp
        · next t'' heq'' =>
          cases hnext
          refine ⟨_, .last hb hkey hb₁ hb₂ htext hb', ?_⟩
          rw [hcs, heq, hrest₁, heq', hrest₂, heq'']
          simp
        · cases hnext
      · cases hcolon
    · cases h

end

/-! ## Whole texts -/

/-- A text is read as a tree if and only if it is a text of the tree. -/
theorem parseTree_iff {text : List Char} {j : JsonTree Literal} :
    parseTree text = some j ↔ SpellsWhole j text := by
  constructor
  · intro h
    rw [parseTree] at h
    split at h
    · next j' rest hvalue =>
      obtain ⟨b, cs, hb, hcs, rfl⟩ := exists_spelled _ hvalue
      obtain ⟨b', hb', hrest⟩ := exists_blank rest
      split_ifs at h with hempty
      cases h
      rw [List.isEmpty_iff.mp hempty, List.append_nil] at hrest
      rw [hrest]
      exact .around hb hcs hb'
    · cases h
  · intro h
    cases h with
    | @around b cs b' hb h hb' =>
      have hafter : AfterNumber b' :=
        List.append_nil b' ▸ afterNumber_blank_append hb' afterNumber_nil
      have hblank : skipSpace b' = [] := List.append_nil b' ▸ skipSpace_blanks hb' []
      have hvalue := value_spelled h (2 * (b ++ (cs ++ b')).length + 2)
        (by simp only [List.length_append]; omega) hafter
      rw [parseTree, value_blanks hb, hvalue]
      simp only [hblank]
      rfl

/-- A text is a text of one tree at most. -/
theorem SpellsWhole.unique {text : List Char} {j j' : JsonTree Literal} (h : SpellsWhole j text)
    (h' : SpellsWhole j' text) : j = j' :=
  Option.some_inj.mp ((parseTree_iff.mpr h).symm.trans (parseTree_iff.mpr h'))

/-- The text is a JSON text, and what it denotes is the tree. -/
def Denotes (text : String) (j : Json) : Prop :=
  ∃ i, SpellsWhole i text.toList ∧ i.denote? = some j

theorem Denotes.unique {text : String} {j j' : Json} (h : Denotes text j) (h' : Denotes text j') :
    j = j' := by
  obtain ⟨i, hi, hj⟩ := h
  obtain ⟨i', hi', hj'⟩ := h'
  obtain rfl := hi.unique hi'
  exact Option.some_inj.mp (hj.symm.trans hj')

end Json
end Contracts
