import Contracts.Json.Record
import Contracts.Proofs.Grammar
import Mathlib.Data.List.Forall2

/-!
# Contracts.Proofs.Declared

What is relied on where records are read and written by the declarations of their fields.

* `JsonReader.ReadsTrees` — a text is read as the tree that it spells.
* `FieldType.Shows`, `FieldType.Given` — how the value of a field looks in a tree.
* `Declares`              — the trees that hold a record.
* `RecordCodec.WritesFields`, `RecordCodec.ReadsFields` — how a codec goes by the declarations.
* `standardReader_readsTrees`, `standardCodec_writesFields`, `standardCodec_readsFields` — the
  reader and the codec of the program can be relied on.
-/

namespace Contracts

open Json (Literal)

/-- A text is read if and only if it spells a tree, and as that tree. -/
structure JsonReader.ReadsTrees (R : JsonReader) : Prop where
  tree?_iff : ∀ text j, R.tree? text = some j ↔ Json.SpellsWhole j text.toList

theorem standardReader_readsTrees : Json.standardReader.ReadsTrees where
  tree?_iff _ _ := Json.parseTree_iff

/-! ## Fields -/

namespace FieldType

/-- The tree shows the value. A name is a string, or the only member of an object. -/
inductive Shows : FieldType → Option String → JsonTree Literal → Prop where
  | name {names : List String} {s : String} (hs : s ∈ names) :
      Shows (.variant names) (some s) (.string (some s))
  | key {names : List String} {s : String} (hs : s ∈ names) :
      Shows (.variant names) (some s) (.object [(some s, .null)])
  | text (s : String) : Shows .text (some s) (.string (some s))
  | present (s : String) : Shows .optionalText (some s) (.string (some s))
  | absent : Shows .optionalText none .null

/-- The members of the field's name give the value: there is one, or none where there may be no
value. -/
inductive Given : FieldType → Option String → List (JsonTree Literal) → Prop where
  | once {type : FieldType} {v : Option String} {j : JsonTree Literal} (h : type.Shows v j) :
      Given type v [j]
  | missing : Given .optionalText none []

/-- The values that a field may hold. -/
def Allows : FieldType → Option String → Prop
  | .variant names, v => ∃ s ∈ names, v = some s
  | .text, v => v.isSome = true
  | .optionalText, _ => True

theorem read?_iff {type : FieldType} {v : Option String} {j : JsonTree Literal} :
    type.read? j = some v ↔ type.Shows v j := by
  constructor
  · intro h
    unfold read? at h
    split at h
    · split_ifs at h with hs
      cases h
      exact .name hs
    · split_ifs at h with hs
      cases h
      exact .key hs
    · cases h
      exact .text _
    · cases h
      exact .present _
    · cases h
      exact .absent
    · cases h
  · intro h
    cases h with
    | name hs => exact if_pos hs
    | key hs => exact if_pos hs
    | text s => rfl
    | present s => rfl
    | absent => rfl

theorem readMembers?_iff {type : FieldType} {v : Option String} {js : List (JsonTree Literal)} :
    type.readMembers? js = some v ↔ type.Given v js := by
  constructor
  · intro h
    unfold readMembers? at h
    split at h
    · exact .once (read?_iff.mp h)
    · cases h
      exact .missing
    · cases h
  · intro h
    cases h with
    | once h =>
      rw [readMembers?]
      exact read?_iff.mpr h
    | missing => rfl

end FieldType

/-! ## Records -/

/-- The tree holds the values: as an object with each field given by its members and with any other
members, or as the list of the values in order. -/
inductive Declares (fields : List FieldDeclaration) :
    List (Option String) → JsonTree Literal → Prop where
  | members {values : List (Option String)} {ms : List (Literal × JsonTree Literal)}
      (names : ∀ m ∈ ms, m.1.isSome = true)
      (h : List.Forall₂ (fun f v => f.type.Given v (valuesOf f.name ms)) fields values) :
      Declares fields values (.object ms)
  | inOrder {values : List (Option String)} {items : List (JsonTree Literal)}
      (length : items.length = fields.length)
      (h : List.Forall₂ (fun p v => p.1.type.Shows v p.2) (fields.zip items) values) :
      Declares fields values (.array items)

/-- Values that the fields may hold are written as an object with the fields in order. -/
structure RecordCodec.WritesFields (C : RecordCodec) : Prop where
  write_eq : ∀ fields values, List.Forall₂ (fun f v => f.type.Allows v) fields values →
    C.write fields values =
      .object (List.zipWith (fun f v => (f.name, v.elim .null .string)) fields values)

/-- Fields of different names are read from the trees that hold them, and from no others. -/
structure RecordCodec.ReadsFields (C : RecordCodec) : Prop where
  read?_iff : ∀ fields values j, (fields.map (·.name)).Nodup →
    (C.read? fields j = some values ↔ Declares fields values j)

theorem mapM_eq_some_iff {α β : Type} {f : α → Option β} {xs : List α} {ys : List β} :
    xs.mapM f = some ys ↔ List.Forall₂ (fun x y => f x = some y) xs ys := by
  induction xs generalizing ys with
  | nil => simp [eq_comm]
  | cons x xs ih =>
    rw [List.mapM_cons, List.forall₂_cons_left_iff]
    simp only [Option.bind_eq_bind, Option.bind_eq_some_iff, Option.pure_def, Option.some_inj, ih]
    constructor
    · rintro ⟨y, hy, ys', hys, rfl⟩
      exact ⟨y, ys', hy, hys, rfl⟩
    · rintro ⟨y, ys', hy, hys, rfl⟩
      exact ⟨y, hy, ys', hys, rfl⟩

theorem readRecord?_iff {fields : List FieldDeclaration} {values : List (Option String)}
    {j : JsonTree Literal} :
    Json.readRecord? fields j = some values ↔ Declares fields values j := by
  constructor
  · intro h
    unfold Json.readRecord? at h
    split at h
    · split_ifs at h with hnames
      refine .members (by simpa using hnames) ((mapM_eq_some_iff.mp h).imp fun f v hv => ?_)
      exact FieldType.readMembers?_iff.mp hv
    · split_ifs at h with hlength
      refine .inOrder hlength ((mapM_eq_some_iff.mp h).imp fun p v hv => ?_)
      exact FieldType.read?_iff.mp hv
    · cases h
  · intro h
    cases h with
    | members names h =>
      rw [Json.readRecord?, if_pos (by simpa using names)]
      exact mapM_eq_some_iff.mpr (h.imp fun f v hv => FieldType.readMembers?_iff.mpr hv)
    | inOrder length h =>
      rw [Json.readRecord?, if_pos length]
      exact mapM_eq_some_iff.mpr (h.imp fun p v hv => FieldType.read?_iff.mpr hv)

theorem standardCodec_writesFields : Json.standardCodec.WritesFields where
  write_eq _ _ _ := rfl

theorem standardCodec_readsFields : Json.standardCodec.ReadsFields where
  read?_iff _ _ _ _ := readRecord?_iff

end Contracts
