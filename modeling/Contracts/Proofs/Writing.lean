import Contracts.Json.Writer
import Contracts.Proofs.Grammar
import Contracts.Proofs.Structure

/-!
# Contracts.Proofs.Writing

What is relied on where JSON text is written, and what follows from it.

* `JsonWriter.WritesTrees` — how strings are quoted and trees are laid out.
* `JsonTree.induction`     — induction over trees, with the items and the members of each.
* `Json.Lexical`           — the trees whose numbers are literals.
* `WritesTrees.denotes`    — the text of such a tree denotes the tree.
* `WritesTrees.denotes_joined` — and texts between brackets, joined by commas and blanks, denote the
  list of the trees.
* `WritesTrees.infix_compact`  — the text of a part stands in the text of the whole.
* `standardWriter_writesTrees` — the writer of the program can be relied on.
-/

namespace Contracts

/-- A string is written as one of its spellings. A tree is laid out without blanks: items and
members in order, with commas between them. -/
structure JsonWriter.WritesTrees (W : JsonWriter) : Prop where
  quote : ∀ s, Json.SpellsString (some s) (W.quote s).toList
  null : W.compact .null = "null"
  bool : ∀ b, W.compact (.bool b) = toString b
  number : ∀ literal, W.compact (.number literal) = literal
  string : ∀ s, W.compact (.string s) = W.quote s
  array : ∀ js, W.compact (.array js) = "[" ++ String.intercalate "," (js.map W.compact) ++ "]"
  object : ∀ ms, W.compact (.object ms) =
    "\x7b" ++ String.intercalate "," (ms.map fun m => W.quote m.1 ++ ":" ++ W.compact m.2) ++ "\x7d"

/-- What each tree has from its items and members, all trees have. -/
@[elab_as_elim]
theorem JsonTree.induction {motive : Json → Prop} (null : motive .null)
    (bool : ∀ b, motive (.bool b)) (number : ∀ literal, motive (.number literal))
    (string : ∀ s, motive (.string s))
    (array : ∀ js, (∀ j ∈ js, motive j) → motive (.array js))
    (object : ∀ ms, (∀ m ∈ ms, motive m.2) → motive (.object ms)) (j : Json) : motive j := by
  refine JsonTree.rec (motive_1 := motive) (motive_2 := fun js => ∀ j ∈ js, motive j)
    (motive_3 := fun ms => ∀ m ∈ ms, motive m.2) (motive_4 := fun m => motive m.2)
    null bool number string array object ?_ ?_ ?_ ?_ ?_ j
  · exact List.forall_mem_nil _
  · exact fun _ _ hj hjs => List.forall_mem_cons.mpr ⟨hj, hjs⟩
  · exact List.forall_mem_nil _
  · exact fun _ _ hm hms => List.forall_mem_cons.mpr ⟨hm, hms⟩
  · exact fun _ _ hj => hj

namespace Json

/-- Every number in the tree is a literal. -/
def Lexical (j : Json) : Prop := ∀ t, (JsonTree.number t).Within j → NumberText t.toList

theorem Lexical.item {items : List Json} (h : Lexical (.array items)) {j : Json}
    (hj : j ∈ items) : Lexical j := fun t ht => h t (.item hj ht)

theorem Lexical.member {members : List (String × Json)} (h : Lexical (.object members))
    {m : String × Json} (hm : m ∈ members) : Lexical m.2 := fun t ht => h t (.member hm ht)

/-- The text spells the tree, with no white space around it. -/
def SpelledBy (j : Json) (text : String) : Prop :=
  ∃ i, Spells i text.toList ∧ i.denote? = some j

theorem SpelledBy.denotes {j : Json} {text : String} (h : SpelledBy j text) : Denotes text j := by
  obtain ⟨i, hi, hdenote⟩ := h
  have hblank : Blank [] := by simp [Blank]
  exact ⟨i, by simpa using SpellsWhole.around hblank hi hblank, hdenote⟩

/-! ## Lists and objects from their parts -/

/-- Items with a comma and blanks between them. -/
theorem exists_spellsItems {text : Json → String} {blanks : String} (hb : Blank blanks.toList)
    {j : Json} {js : List Json} (hjs : ∀ i ∈ j :: js, SpelledBy i (text i)) :
    ∃ is, SpellsItems is (String.intercalate ("," ++ blanks) ((j :: js).map text)).toList ∧
      JsonTree.denoteItems? is = some (j :: js) := by
  have hnone : Blank [] := by simp [Blank]
  induction js generalizing j with
  | nil =>
    obtain ⟨i, hi, hdenote⟩ := hjs j (by simp)
    refine ⟨[i], by simpa using SpellsItems.last hnone hi hnone, ?_⟩
    simp [JsonTree.denoteItems?, hdenote]
  | cons next js ih =>
    obtain ⟨i, hi, hdenote⟩ := hjs j (by simp)
    obtain ⟨is, his, hdenotes⟩ := ih fun i hmem => hjs i (List.mem_cons_of_mem _ hmem)
    refine ⟨i :: is, ?_, by simp [JsonTree.denoteItems?, hdenote, hdenotes]⟩
    have hmore := SpellsItems.more hnone hi hnone (his.blank_append hb)
    simpa [String.intercalate_cons_cons] using hmore

theorem spelledBy_array {text : Json → String} {blanks : String} (hb : Blank blanks.toList)
    {js : List Json} (hjs : ∀ j ∈ js, SpelledBy j (text j)) :
    SpelledBy (.array js) ("[" ++ String.intercalate ("," ++ blanks) (js.map text) ++ "]") := by
  cases js with
  | nil =>
    have hnone : Blank [] := by simp [Blank]
    exact ⟨.array [], by simpa using Spells.noItems hnone, rfl⟩
  | cons j js =>
    obtain ⟨is, his, hdenotes⟩ := exists_spellsItems hb hjs
    refine ⟨.array is, ?_, by rw [JsonTree.denote?, hdenotes, Option.map_some]⟩
    simpa using Spells.array his

theorem exists_spellsMembers {quote : String → String} {text : Json → String}
    (hquote : ∀ s, SpellsString (some s) (quote s).toList) {m : String × Json}
    {ms : List (String × Json)} (hms : ∀ p ∈ m :: ms, SpelledBy p.2 (text p.2)) :
    ∃ is, SpellsMembers is
        (String.intercalate "," ((m :: ms).map fun p => quote p.1 ++ ":" ++ text p.2)).toList ∧
      JsonTree.denoteMembers? is = some (m :: ms) := by
  have hnone : Blank [] := by simp [Blank]
  induction ms generalizing m with
  | nil =>
    obtain ⟨i, hi, hdenote⟩ := hms m (by simp)
    refine ⟨[(some m.1, i)], ?_, by simp [JsonTree.denoteMembers?, hdenote]⟩
    simpa using SpellsMembers.last hnone (hquote m.1) hnone hnone hi hnone
  | cons next ms ih =>
    obtain ⟨i, hi, hdenote⟩ := hms m (by simp)
    obtain ⟨is, his, hdenotes⟩ := ih fun p hmem => hms p (List.mem_cons_of_mem _ hmem)
    refine ⟨(some m.1, i) :: is, ?_, by simp [JsonTree.denoteMembers?, hdenote, hdenotes]⟩
    have hmore := SpellsMembers.more hnone (hquote m.1) hnone hnone hi hnone his
    simpa [String.intercalate_cons_cons] using hmore

theorem spelledBy_object {quote : String → String} {text : Json → String}
    (hquote : ∀ s, SpellsString (some s) (quote s).toList) {ms : List (String × Json)}
    (hms : ∀ m ∈ ms, SpelledBy m.2 (text m.2)) :
    SpelledBy (.object ms) ("\x7b" ++
      String.intercalate "," (ms.map fun m => quote m.1 ++ ":" ++ text m.2) ++ "\x7d") := by
  cases ms with
  | nil =>
    have hnone : Blank [] := by simp [Blank]
    exact ⟨.object [], by simpa using Spells.noMembers hnone, rfl⟩
  | cons m ms =>
    obtain ⟨is, his, hdenotes⟩ := exists_spellsMembers hquote hms
    refine ⟨.object is, ?_, by rw [JsonTree.denote?, hdenotes, Option.map_some]⟩
    simpa using Spells.object his

end Json

/-! ## Whole texts -/

theorem infix_intercalate {sep s : String} {ss : List String} (hs : s ∈ ss) :
    s.toList <:+: (String.intercalate sep ss).toList := by
  induction ss with
  | nil => simp at hs
  | cons t ts ih =>
    cases ts with
    | nil =>
      obtain rfl : s = t := by simpa using hs
      rw [String.intercalate_singleton]
    | cons t' ts =>
      rw [String.intercalate_cons_cons, String.toList_append, String.toList_append]
      rcases List.mem_cons.mp hs with rfl | hs
      · exact ⟨[], _, by rw [List.nil_append, List.append_assoc]⟩
      · exact (ih hs).trans (List.suffix_append _ _).isInfix

/-- Between brackets too. -/
theorem infix_enclosed {left right sep s : String} {ss : List String} (hs : s ∈ ss) :
    s.toList <:+: (left ++ String.intercalate sep ss ++ right).toList := by
  rw [String.toList_append, String.toList_append]
  exact (infix_intercalate hs).trans ⟨_, _, rfl⟩

namespace JsonWriter.WritesTrees

open Json (Lexical SpelledBy Denotes)

variable [W : JsonWriter] (hW : W.WritesTrees)

include hW

/-- The text of a tree spells it. -/
theorem spelledBy (j : Json) (hj : Lexical j) : SpelledBy j j.compact := by
  induction j using JsonTree.induction with
  | null => exact ⟨.null, by rw [JsonTree.compact, hW.null]; exact .null, rfl⟩
  | bool b =>
    refine ⟨.bool b, ?_, rfl⟩
    rw [JsonTree.compact, hW.bool]
    cases b with
    | true => exact .boolTrue
    | false => exact .boolFalse
  | number literal =>
    refine ⟨.number literal, ?_, rfl⟩
    rw [JsonTree.compact, hW.number]
    simpa using Json.Spells.number (hj literal (.self _))
  | string s =>
    refine ⟨.string (some s), ?_, rfl⟩
    rw [JsonTree.compact, hW.string]
    exact .string (hW.quote s)
  | array js ih =>
    rw [JsonTree.compact, hW.array]
    have hnone : Json.Blank "".toList := by simp [Json.Blank]
    exact Json.spelledBy_array hnone fun i hi => ih i hi (hj.item hi)
  | object ms ih =>
    rw [JsonTree.compact, hW.object]
    exact Json.spelledBy_object hW.quote fun m hm => ih m hm (hj.member hm)

/-- The compact text of a tree denotes the tree. -/
theorem denotes {j : Json} (hj : Lexical j) : Denotes j.compact j := (hW.spelledBy j hj).denotes

/-- Compact texts, joined by commas and blanks between brackets, denote the list of the trees. -/
theorem denotes_joined {js : List Json} (hjs : ∀ j ∈ js, Lexical j) :
    Denotes ("[" ++ String.intercalate ", " (js.map JsonTree.compact) ++ "]") (.array js) := by
  have hblank : Json.Blank " ".toList := by simp [Json.Blank, Json.isSpace]
  exact (Json.spelledBy_array hblank fun j hj => hW.spelledBy j (hjs j hj)).denotes

/-- The text of a part stands in the text of the whole. -/
theorem infix_compact {i j : Json} (h : i.Within j) : i.compact.toList <:+: j.compact.toList := by
  induction h with
  | self => exact List.infix_refl _
  | @item j items hj _ ih =>
    refine ih.trans ?_
    rw [JsonTree.compact, JsonTree.compact, hW.array]
    exact infix_enclosed (List.mem_map_of_mem hj)
  | @member j key members hj _ ih =>
    refine ih.trans ?_
    rw [JsonTree.compact, JsonTree.compact, hW.object]
    have hmember : (W.compact j).toList <:+: (W.quote key ++ ":" ++ W.compact j).toList := by
      rw [String.toList_append]
      exact (List.suffix_append _ _).isInfix
    have hmem : W.quote key ++ ":" ++ W.compact j ∈
        members.map fun m => W.quote m.1 ++ ":" ++ W.compact m.2 := List.mem_map_of_mem hj
    exact hmember.trans (infix_enclosed hmem)

end JsonWriter.WritesTrees

/-! ## The writer of the program -/

namespace Json

theorem hexValue?_hexDigit {n : Nat} (hn : n < 16) : hexValue? (hexDigit n) = some n := by
  interval_cases n <;> rfl

theorem hex4?_hexDigit {n : Nat} (hn : n < 32) :
    hex4? '0' '0' (hexDigit (n / 16)) (hexDigit (n % 16)) = some n := by
  have hzero : hexValue? '0' = some 0 := rfl
  simp only [hex4?, hzero, hexValue?_hexDigit (show n / 16 < 16 by omega),
    hexValue?_hexDigit (show n % 16 < 16 by omega), Option.bind_eq_bind, Option.bind_some,
    Option.pure_def, Option.some_inj]
  omega

/-- A character is written as one of its spellings. -/
theorem spelling_escape (c : Char) : Spelling (.char c) (escape c) := by
  rw [escape]
  split_ifs with hquote hslash hnewline hreturn htab hback hform hcontrol
  · exact .short (by rw [hquote]; rfl)
  · exact .short (by rw [hslash]; rfl)
  · exact .short (by rw [hnewline]; rfl)
  · exact .short (by rw [hreturn]; rfl)
  · exact .short (by rw [htab]; rfl)
  · refine .short ?_
    rw [← Char.ofNat_toNat c, hback]
    rfl
  · refine .short ?_
    rw [← Char.ofNat_toNat c, hform]
    rfl
  · have hpiece : Piece.ofUnit c.toNat = .char c := by
      rw [Piece.ofUnit, if_neg (by omega), Char.ofNat_toNat]
    rw [← hpiece]
    exact .unit (hex4?_hexDigit hcontrol)
  · exact .plain hquote hslash hcontrol

theorem spellsPieces_escape (cs : List Char) :
    SpellsPieces (cs.map .char) (cs.flatMap escape) := by
  induction cs with
  | nil => exact .nil
  | cons c cs ih => exact .cons (spelling_escape c) ih

theorem joinPieces_chars (cs : List Char) : joinPieces (cs.map .char) = some cs := by
  induction cs with
  | nil => rfl
  | cons c cs ih => rw [List.map_cons, joinPieces, ih, Option.map_some]

theorem spellsString_quote (s : String) : SpellsString (some s) (Json.quote s).toList := by
  have hjoined : (joinPieces (s.toList.map .char)).map String.ofList = some s := by
    rw [joinPieces_chars, Option.map_some, String.ofList_toList]
  rw [Json.quote, String.toList_ofList, quoteChars, ← hjoined]
  exact .quoted (spellsPieces_escape s.toList)

theorem toList_compactText (j : Json) : (compactText j).toList = chars j := by
  rw [compactText, String.toList_ofList]

theorem writeItems_eq (item : Json) (items : List Json) (rest : List Char) :
    write item (writeItems items rest) =
      (String.intercalate "," ((item :: items).map compactText)).toList ++ ']' :: rest := by
  induction items generalizing item with
  | nil => simp [writeItems, write_eq_chars_append item, toList_compactText]
  | cons next items ih =>
    rw [writeItems, ih next, write_eq_chars_append, List.map_cons (f := compactText) (a := item)]
    simp [String.intercalate_cons_cons, toList_compactText]

theorem writeMembers_eq (m : String × Json) (members : List (String × Json)) (rest : List Char) :
    quoteChars m.1.toList ++ ':' :: write m.2 (writeMembers members rest) =
      (String.intercalate ","
        ((m :: members).map fun m => Json.quote m.1 ++ ":" ++ compactText m.2)).toList ++
        '\x7d' :: rest := by
  induction members generalizing m with
  | nil => simp [writeMembers, write_eq_chars_append m.2, toList_compactText, Json.quote]
  | cons next members ih =>
    rw [writeMembers, ih next, write_eq_chars_append]
    simp [String.intercalate_cons_cons, toList_compactText, Json.quote]

end Json

open Json in
theorem standardWriter_writesTrees : standardWriter.WritesTrees where
  quote := spellsString_quote
  null := rfl
  bool b := by cases b <;> rfl
  number literal := by
    rw [← String.toList_inj]
    change (compactText (.number literal)).toList = literal.toList
    rw [toList_compactText, chars, write, List.append_nil]
  string s := by
    rw [← String.toList_inj]
    change (compactText (.string s)).toList = (Json.quote s).toList
    rw [toList_compactText, chars, write, List.append_nil, Json.quote, String.toList_ofList]
  array js := by
    rw [← String.toList_inj]
    change (compactText (.array js)).toList =
      ("[" ++ String.intercalate "," (js.map compactText) ++ "]").toList
    rw [toList_compactText, chars]
    cases js with
    | nil => rfl
    | cons item items =>
      rw [write, writeItems_eq]
      simp
  object ms := by
    rw [← String.toList_inj]
    change (compactText (.object ms)).toList = ("\x7b" ++ String.intercalate ","
      (ms.map fun m => Json.quote m.1 ++ ":" ++ compactText m.2) ++ "\x7d").toList
    rw [toList_compactText, chars]
    cases ms with
    | nil => rfl
    | cons m members =>
      obtain ⟨key, value⟩ := m
      rw [write, writeMembers_eq (key, value)]
      simp

end Contracts
