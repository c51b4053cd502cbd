import Contracts.Proofs.Declared
import Contracts.Proofs.Writing
import Contracts.Violation

/-!
# Contracts.Proofs.Violations

Violations as JSON text.

* `NamesFailure`, `textOrNull` — how the fields of a violation look in a tree.
* `Tells`     — the trees that tell a violation: objects that have each field once, whatever else
  they have, and lists of the fields in order.
* `declares_iff` — they are the trees that hold its fields as they are declared.
* `Restated`  — trees that differ in the order of members, in members of other names, and in whether
  a member is missing or `null`.
* `violations_survive` — a violation is read back from its text, and a text is read as a violation
  if and only if it spells a tree that tells it.

What is relied on is how the writer and the reader treat JSON text, and that the codec goes by the
declarations of the fields.
-/

namespace Contracts

open Json (Literal)

/-! ## What a tree of literals denotes -/

namespace JsonTree

theorem denote?_eq_null {i : JsonTree Literal} : i.denote? = some .null ↔ i = .null := by
  cases i <;> simp [denote?]

theorem denote?_eq_string {i : JsonTree Literal} {s : String} :
    i.denote? = some (.string s) ↔ i = .string (some s) := by
  cases i <;> simp [denote?]

theorem denote?_eq_object {i : JsonTree Literal} {members : List (String × Json)} :
    i.denote? = some (.object members) ↔
      ∃ ms, i = .object ms ∧ denoteMembers? ms = some members := by
  cases i <;> simp [denote?]

theorem denoteMembers?_eq_nil {ms : List (Literal × JsonTree Literal)} :
    denoteMembers? ms = some [] ↔ ms = [] := by
  cases ms with
  | nil => simp [denoteMembers?]
  | cons m ms => simp [denoteMembers?, Option.bind_eq_some_iff]

theorem denoteMembers?_eq_cons {ms : List (Literal × JsonTree Literal)} {key : String} {j : Json}
    {members : List (String × Json)} :
    denoteMembers? ms = some ((key, j) :: members) ↔
      ∃ i ms', ms = (some key, i) :: ms' ∧ i.denote? = some j ∧
        denoteMembers? ms' = some members := by
  cases ms with
  | nil => simp [denoteMembers?]
  | cons m ms =>
    obtain ⟨k, i⟩ := m
    simp [denoteMembers?, Option.bind_eq_some_iff]

end JsonTree

namespace Violation

/-! ## Trees that tell a violation -/

/-- A failure is named by a string, or by an object with that name alone. -/
inductive NamesFailure (k : FailureKind) : JsonTree Literal → Prop where
  | text : NamesFailure k (.string (some k.name))
  | variant : NamesFailure k (.object [(some k.name, .null)])

def textOrNull : Option String → JsonTree Literal
  | none => .null
  | some s => .string (some s)

theorem valuesOf_cons_of_eq {key : String} {m : Literal × JsonTree Literal}
    {ms : List (Literal × JsonTree Literal)} (h : m.1 = some key) :
    valuesOf key (m :: ms) = m.2 :: valuesOf key ms := by
  simp [valuesOf, h]

theorem valuesOf_cons_of_ne {key : String} {m : Literal × JsonTree Literal}
    {ms : List (Literal × JsonTree Literal)} (h : m.1 ≠ some key) :
    valuesOf key (m :: ms) = valuesOf key ms := by
  simp [valuesOf, h]

/-- The tree tells the violation. In an object every field is there once, but that of the member,
which may be missing; members of other names may stand anywhere. -/
inductive Tells (v : Violation) : JsonTree Literal → Prop where
  | members {ms : List (Literal × JsonTree Literal)} (names : ∀ m ∈ ms, m.1.isSome = true)
      (failure : ∃ j, valuesOf "failure" ms = [j] ∧ NamesFailure v.failure j)
      (className : valuesOf "class" ms = [.string (some v.className)])
      (member : valuesOf "member" ms = [textOrNull v.member] ∨
        valuesOf "member" ms = [] ∧ v.member = none)
      (message : valuesOf "message" ms = [.string (some v.message)]) : Tells v (.object ms)
  | inOrder {j : JsonTree Literal} (failure : NamesFailure v.failure j) :
      Tells v (.array [j, .string (some v.className), textOrNull v.member,
        .string (some v.message)])

theorem tells_object_iff {v : Violation} {ms : List (Literal × JsonTree Literal)} :
    Tells v (.object ms) ↔ (∀ m ∈ ms, m.1.isSome = true) ∧
      (∃ j, valuesOf "failure" ms = [j] ∧ NamesFailure v.failure j) ∧
      valuesOf "class" ms = [.string (some v.className)] ∧
      (valuesOf "member" ms = [textOrNull v.member] ∨
        valuesOf "member" ms = [] ∧ v.member = none) ∧
      valuesOf "message" ms = [.string (some v.message)] := by
  constructor
  · rintro (⟨hnames, hfailure, hclass, hmember, hmessage⟩ | _)
    exact ⟨hnames, hfailure, hclass, hmember, hmessage⟩
  · rintro ⟨hnames, hfailure, hclass, hmember, hmessage⟩
    exact .members hnames hfailure hclass hmember hmessage

/-! ## The fields as they are declared -/

theorem name_of_ofName? {s : String} {k : FailureKind} (h : FailureKind.ofName? s = some k) :
    s = k.name := by
  have hname := List.find?_some h
  exact (eq_of_beq hname).symm

/-- The values of the fields are read as the violation that holds them. -/
theorem ofValues?_iff {values : List (Option String)} {v : Violation} :
    ofValues? values = some v ↔ values = v.values := by
  constructor
  · intro h
    unfold ofValues? at h
    split at h
    · obtain ⟨k, hk, rfl⟩ := Option.map_eq_some_iff.mp h
      rw [name_of_ofName? hk]
      rfl
    · cases h
  · rintro rfl
    rw [values, ofValues?, FailureKind.ofName?_name, Option.map_some]

theorem name_mem (k : FailureKind) : k.name ∈ FailureKind.all.map FailureKind.name := by
  cases k <;> decide

theorem allows_values (v : Violation) :
    List.Forall₂ (fun f x => f.type.Allows x) fields v.values :=
  .cons ⟨_, name_mem v.failure, rfl⟩ (.cons rfl (.cons trivial (.cons rfl .nil)))

theorem nodup_fields : (fields.map (·.name)).Nodup := by decide

theorem shows_failure_iff {k : FailureKind} {j : JsonTree Literal} :
    (FieldType.variant (FailureKind.all.map FailureKind.name)).Shows (some k.name) j ↔
      NamesFailure k j := by
  constructor
  · intro h
    cases h with
    | name _ => exact .text
    | key _ => exact .variant
  · intro h
    cases h with
    | text => exact .name (name_mem k)
    | variant => exact .key (name_mem k)

theorem shows_text_iff {s : String} {j : JsonTree Literal} :
    FieldType.text.Shows (some s) j ↔ j = .string (some s) := by
  constructor
  · rintro ⟨⟩
    rfl
  · rintro rfl
    exact .text s

theorem shows_member_iff {m : Option String} {j : JsonTree Literal} :
    FieldType.optionalText.Shows m j ↔ j = textOrNull m := by
  constructor
  · rintro (_ | _ | _ | _ | _) <;> rfl
  · rintro rfl
    cases m with
    | none => exact .absent
    | some s => exact .present s

theorem given_failure_iff {k : FailureKind} {js : List (JsonTree Literal)} :
    (FieldType.variant (FailureKind.all.map FailureKind.name)).Given (some k.name) js ↔
      ∃ j, js = [j] ∧ NamesFailure k j := by
  constructor
  · rintro (h | _)
    exact ⟨_, rfl, shows_failure_iff.mp h⟩
  · rintro ⟨j, rfl, h⟩
    exact .once (shows_failure_iff.mpr h)

theorem given_text_iff {s : String} {js : List (JsonTree Literal)} :
    FieldType.text.Given (some s) js ↔ js = [.string (some s)] := by
  constructor
  · rintro (h | _)
    rw [shows_text_iff.mp h]
  · rintro rfl
    exact .once (.text s)

theorem given_member_iff {m : Option String} {js : List (JsonTree Literal)} :
    FieldType.optionalText.Given m js ↔ js = [textOrNull m] ∨ js = [] ∧ m = none := by
  constructor
  · rintro (h | _)
    · rw [shows_member_iff.mp h]
      exact .inl rfl
    · exact .inr ⟨rfl, rfl⟩
  · rintro (rfl | ⟨rfl, rfl⟩)
    · exact .once (shows_member_iff.mpr rfl)
    · exact .missing

/-- The trees that hold the fields of a violation are those that tell it. -/
theorem declares_iff {v : Violation} {j : JsonTree Literal} :
    Declares fields v.values j ↔ Tells v j := by
  constructor
  · intro h
    cases h with
    | members names h =>
      simp only [fields, values, List.forall₂_cons, given_failure_iff, given_text_iff,
        given_member_iff] at h
      obtain ⟨hfailure, hclass, hmember, hmessage, -⟩ := h
      exact .members names hfailure hclass hmember hmessage
    | @inOrder items length h =>
      obtain ⟨failure, className, member, message, rfl⟩ : ∃ a b c d, items = [a, b, c, d] :=
        List.length_eq_four.mp length
      simp only [fields, values, List.zip_cons_cons, List.forall₂_cons, shows_failure_iff,
        shows_text_iff, shows_member_iff] at h
      obtain ⟨hfailure, rfl, rfl, rfl, -⟩ := h
      exact .inOrder hfailure
  · intro h
    cases h with
    | members names hfailure hclass hmember hmessage =>
      exact .members names (.cons (given_failure_iff.mpr hfailure) (.cons
        (given_text_iff.mpr hclass) (.cons (given_member_iff.mpr hmember) (.cons
        (given_text_iff.mpr hmessage) .nil))))
    | inOrder hfailure =>
      exact .inOrder rfl (.cons (shows_failure_iff.mpr hfailure) (.cons (.text _) (.cons
        (shows_member_iff.mpr rfl) (.cons (.text _) .nil))))

/-! ## The written text -/

theorem toJson_eq [C : RecordCodec] (hwrites : C.WritesFields) (v : Violation) : v.toJson =
    .object [("failure", .string v.failure.name), ("class", .string v.className),
      ("member", v.member.elim .null .string), ("message", .string v.message)] :=
  hwrites.write_eq fields v.values v.allows_values

/-- A tree that denotes the one that is written tells the violation. -/
theorem tells_of_denote? [C : RecordCodec] (hwrites : C.WritesFields) {i : JsonTree Literal}
    {v : Violation} (h : i.denote? = some v.toJson) : Tells v i := by
  rw [toJson_eq hwrites] at h
  obtain ⟨ms, rfl, hms⟩ := JsonTree.denote?_eq_object.mp h
  obtain ⟨i₁, ms₁, rfl, hfailure, hms₁⟩ := JsonTree.denoteMembers?_eq_cons.mp hms
  obtain ⟨i₂, ms₂, rfl, hclass, hms₂⟩ := JsonTree.denoteMembers?_eq_cons.mp hms₁
  obtain ⟨i₃, ms₃, rfl, hmember, hms₃⟩ := JsonTree.denoteMembers?_eq_cons.mp hms₂
  obtain ⟨i₄, ms₄, rfl, hmessage, hms₄⟩ := JsonTree.denoteMembers?_eq_cons.mp hms₃
  obtain rfl := JsonTree.denoteMembers?_eq_nil.mp hms₄
  rw [JsonTree.denote?_eq_string.mp hfailure, JsonTree.denote?_eq_string.mp hclass,
    JsonTree.denote?_eq_string.mp hmessage]
  have hmember : i₃ = textOrNull v.member := by
    cases hm : v.member with
    | none =>
      rw [hm] at hmember
      rw [JsonTree.denote?_eq_null.mp hmember, textOrNull]
    | some m =>
      rw [hm] at hmember
      rw [JsonTree.denote?_eq_string.mp hmember, textOrNull]
  exact .members (by simp) ⟨_, rfl, .text⟩ rfl (.inl (by rw [hmember]; rfl)) rfl

/-- No number stands in the written tree. -/
theorem lexical_toJson [C : RecordCodec] (hwrites : C.WritesFields) (v : Violation) :
    Json.Lexical v.toJson := by
  intro t ht
  rw [toJson_eq hwrites] at ht
  cases ht with
  | member hm h =>
    simp only [List.mem_cons, List.not_mem_nil, or_false] at hm
    rcases hm with hfailure | hclass | hmember | hmessage
    · cases hfailure
      cases h
    · cases hclass
      cases h
    · cases hmember
      cases hv : v.member <;> rw [hv] at h <;> cases h
    · cases hmessage
      cases h

section Codec

variable [W : JsonWriter] [R : JsonReader] [C : RecordCodec] (hwriter : W.WritesTrees)
  (hreader : R.ReadsTrees) (hwrites : C.WritesFields) (hreads : C.ReadsFields)

omit [W : JsonWriter] in
include hreader hreads in
/-- A text is read as a violation if and only if it is a text of a tree that tells it. -/
theorem parse?_iff {text : String} {v : Violation} :
    parse? text = some v ↔ ∃ j, Json.SpellsWhole j text.toList ∧ Tells v j := by
  simp only [parse?, Option.bind_eq_bind, Option.bind_eq_some_iff, hreader.tree?_iff,
    hreads.read?_iff _ _ _ nodup_fields, ofValues?_iff, exists_eq_right, declares_iff]

include hwriter hreader hwrites hreads

theorem parse?_write (v : Violation) : parse? v.write = some v := by
  obtain ⟨i, hspells, hdenote⟩ := hwriter.denotes (lexical_toJson hwrites v)
  exact (parse?_iff hreader hreads).mpr ⟨i, hspells, tells_of_denote? hwrites hdenote⟩

theorem write_inj {v v' : Violation} : v.write = v'.write ↔ v = v' := by
  constructor
  · intro h
    have hread := parse?_write hwriter hreader hwrites hreads v
    rw [h, parse?_write hwriter hreader hwrites hreads v'] at hread
    exact (Option.some_inj.mp hread).symm
  · rintro rfl
    rfl

end Codec

/-! ## What does not count -/

/-- Two trees that differ only in what does not count in a violation: the order of members,
members of other names, and whether the member is missing or `null`. -/
inductive Restated : JsonTree Literal → JsonTree Literal → Prop where
  | refl (j : JsonTree Literal) : Restated j j
  | symm {j j' : JsonTree Literal} (h : Restated j j') : Restated j' j
  | trans {j j' j'' : JsonTree Literal} (h : Restated j j') (h' : Restated j' j'') : Restated j j''
  | order {ms ms' : List (Literal × JsonTree Literal)} (h : ms.Perm ms') :
      Restated (.object ms) (.object ms')
  | unknown {key : String} (hkey : key ∉ ["failure", "class", "member", "message"])
      (j : JsonTree Literal) (ms : List (Literal × JsonTree Literal)) :
      Restated (.object ms) (.object ((some key, j) :: ms))
  | noMember {ms : List (Literal × JsonTree Literal)} (h : ∀ m ∈ ms, m.1 ≠ some "member") :
      Restated (.object ms) (.object ((some "member", .null) :: ms))

theorem Tells.of_perm {v : Violation} {ms ms' : List (Literal × JsonTree Literal)}
    (h : Tells v (.object ms)) (hperm : ms.Perm ms') : Tells v (.object ms') := by
  obtain ⟨hnames, ⟨j, hj, hfailure⟩, hclass, hmember, hmessage⟩ := tells_object_iff.mp h
  have hvalues (key : String) : (valuesOf key ms).Perm (valuesOf key ms') := hperm.filterMap _
  have hone {key : String} {j : JsonTree Literal} (h : valuesOf key ms = [j]) :
      valuesOf key ms' = [j] := List.perm_singleton.mp (h ▸ (hvalues key).symm)
  refine .members (fun m hm => hnames m (hperm.mem_iff.mpr hm)) ⟨j, hone hj, hfailure⟩
    (hone hclass) ?_ (hone hmessage)
  rcases hmember with hmember | ⟨hnone, hmember⟩
  · exact .inl (hone hmember)
  · exact .inr ⟨List.perm_nil.mp (hnone ▸ (hvalues "member").symm), hmember⟩

theorem tells_unknown_iff {v : Violation} {key : String}
    (hkey : key ∉ ["failure", "class", "member", "message"]) {j : JsonTree Literal}
    {ms : List (Literal × JsonTree Literal)} :
    Tells v (.object ((some key, j) :: ms)) ↔ Tells v (.object ms) := by
  have hvalues : ∀ field ∈ ["failure", "class", "member", "message"],
      valuesOf field ((some key, j) :: ms) = valuesOf field ms := by
    intro field hfield
    refine valuesOf_cons_of_ne fun heq => hkey ?_
    rwa [Option.some_inj.mp heq]
  simp only [tells_object_iff, List.forall_mem_cons, Option.isSome_some, true_and,
    hvalues "failure" (by simp), hvalues "class" (by simp), hvalues "member" (by simp),
    hvalues "message" (by simp)]

theorem tells_noMember_iff {v : Violation} {ms : List (Literal × JsonTree Literal)}
    (h : ∀ m ∈ ms, m.1 ≠ some "member") :
    Tells v (.object ((some "member", .null) :: ms)) ↔ Tells v (.object ms) := by
  have hvalues : ∀ field ∈ ["failure", "class", "message"],
      valuesOf field ((some "member", .null) :: ms) = valuesOf field ms := by
    intro field hfield
    refine valuesOf_cons_of_ne fun heq => ?_
    rw [← Option.some_inj.mp heq] at hfield
    simp at hfield
  have hnone : valuesOf "member" ms = [] :=
    List.filterMap_eq_nil_iff.mpr fun m hm => if_neg (h m hm)
  have hnull : valuesOf "member" ((some "member", .null) :: ms) = [.null] := by
    rw [valuesOf_cons_of_eq rfl, hnone]
  have hmember : (.null = textOrNull v.member) ↔ v.member = none := by
    cases v.member <;> simp [textOrNull]
  simp only [tells_object_iff, List.forall_mem_cons, Option.isSome_some, true_and,
    hvalues "failure" (by simp), hvalues "class" (by simp), hvalues "message" (by simp), hnone,
    hnull, List.cons.injEq, and_true, hmember, reduceCtorEq, false_and, or_false, false_or]

/-- Restated trees tell the same violations. -/
theorem Restated.tells_iff {j j' : JsonTree Literal} (h : Restated j j') {v : Violation} :
    Tells v j ↔ Tells v j' := by
  induction h with
  | refl j => exact Iff.rfl
  | symm _ ih => exact ih.symm
  | trans _ _ ih ih' => exact ih.trans ih'
  | order hperm => exact ⟨fun h => h.of_perm hperm, fun h => h.of_perm hperm.symm⟩
  | unknown hkey j ms => exact (tells_unknown_iff hkey).symm
  | noMember h => exact (tells_noMember_iff h).symm

theorem parse?_restated [R : JsonReader] [C : RecordCodec] (hreader : R.ReadsTrees)
    (hreads : C.ReadsFields) {text text' : String} {j j' : JsonTree Literal}
    (h : Json.SpellsWhole j text.toList) (h' : Json.SpellsWhole j' text'.toList)
    (hrestated : Restated j j') : parse? text = parse? text' := by
  refine Option.ext fun v => ?_
  rw [parse?_iff hreader hreads, parse?_iff hreader hreads]
  constructor
  · rintro ⟨i, hi, htells⟩
    obtain rfl := hi.unique h
    exact ⟨j', h', hrestated.tells_iff.mp htells⟩
  · rintro ⟨i, hi, htells⟩
    obtain rfl := hi.unique h'
    exact ⟨j, h, hrestated.tells_iff.mpr htells⟩

end Violation

/-- A violation is read back from its text. The texts that are read as a violation are those of
the trees that tell it: what is read, and so what is written of it, is the same however the
text is spelled and whatever does not count in the tree, and two texts are written alike if and
only if the same violation was read. -/
theorem violations_survive [W : JsonWriter] [R : JsonReader] [C : RecordCodec]
    (hwriter : W.WritesTrees) (hreader : R.ReadsTrees) (hwrites : C.WritesFields)
    (hreads : C.ReadsFields) :
    (∀ v : Violation, Violation.parse? v.write = some v) ∧
    (∀ (text : String) (v : Violation), Violation.parse? text = some v ↔
      ∃ j, Json.SpellsWhole j text.toList ∧ Violation.Tells v j) ∧
    (∀ (text text' : String) (j j' : JsonTree Literal), Json.SpellsWhole j text.toList →
      Json.SpellsWhole j' text'.toList → Violation.Restated j j' →
      Violation.parse? text = Violation.parse? text') ∧
    ∀ (text : String) (v : Violation), Violation.parse? text = some v →
      Violation.parse? v.write = some v ∧
      ∀ (text' : String) (v' : Violation), Violation.parse? text' = some v' →
        (v.write = v'.write ↔ v.failure = v'.failure ∧
          v.className = v'.className ∧ v.member = v'.member ∧ v.message = v'.message) := by
  have hback := Violation.parse?_write hwriter hreader hwrites hreads
  refine ⟨hback, fun _ _ => Violation.parse?_iff hreader hreads,
    fun _ _ _ _ h h' hrestated => Violation.parse?_restated hreader hreads h h' hrestated,
    fun _ v _ => ⟨hback v, fun _ v' _ => ?_⟩⟩
  rw [Violation.write_inj hwriter hreader hwrites hreads]
  obtain ⟨failure, className, member, message⟩ := v
  obtain ⟨failure', className', member', message'⟩ := v'
  rw [Violation.mk.injEq]

namespace Slip

def violation : Violation := ⟨.after, "", none, "!"⟩

/-- The fields, without a member. -/
def text : String := "\x7b\"failure\":\"after\",\"class\":\"\",\"message\":\"!\"\x7d"

/-- The same the other way round, with a member of another name, an escape and a blank. -/
def shuffled : String :=
  "\x7b\"x\":0,\"member\":null,\"message\":\"\\u0021\", \"class\":\"\",\"failure\":\"after\"\x7d"

def tree : JsonTree Literal :=
  .object [(some "failure", .string (some "after")), (some "class", .string (some "")),
    (some "message", .string (some "!"))]

def shuffledTree : JsonTree Literal :=
  .object [(some "x", .number "0"), (some "member", .null), (some "message", .string (some "!")),
    (some "class", .string (some "")), (some "failure", .string (some "after"))]

theorem spells_text : Json.SpellsWhole tree text.toList := by
  refine Json.parseTree_iff.mp ?_
  simp only [text, String.reduceToList]
  rfl

theorem spells_shuffled : Json.SpellsWhole shuffledTree shuffled.toList := by
  refine Json.parseTree_iff.mp ?_
  simp only [shuffled, String.reduceToList]
  rfl

theorem restated : Violation.Restated tree shuffledTree :=
  .trans (.order (List.reverse_perm _).symm) (.trans (.noMember (by simp)) (.unknown (by simp) _ _))

theorem parse?_text : Violation.parse? text = some violation := by decide +kernel

theorem shuffled_survives :
    Violation.parse? shuffled = some violation ∧
    Violation.parse? violation.write = some violation ∧
    ∀ v, Violation.parse? shuffled = some v → violation.write = v.write := by
  obtain ⟨-, -, hrestated, hread⟩ := violations_survive standardWriter_writesTrees
    standardReader_readsTrees standardCodec_writesFields standardCodec_readsFields
  have hsame : Violation.parse? text = Violation.parse? shuffled :=
    hrestated _ _ _ _ spells_text spells_shuffled restated
  obtain ⟨hback, hwritten⟩ := hread text violation parse?_text
  have hshuffled : Violation.parse? shuffled = some violation := hsame.symm.trans parse?_text
  refine ⟨hshuffled, hback, fun v hv => (hwritten shuffled v hv).mpr ?_⟩
  rw [hshuffled] at hv
  cases hv
  exact ⟨rfl, rfl, rfl, rfl⟩

end Slip

end Contracts
