import Contracts.Input
import Contracts.Proofs.Borrows
import Contracts.Proofs.Numbers
import Contracts.Proofs.Writing

/-!
# Contracts.Proofs.Rendering

Text of data values at the top level, inside of other values, and in argument lists.

* `Heap.IsData`      — the values whose text is JSON text.
* `render_eq_compact` — it is the compact text of their JSON form.
* `Written.extend`   — a value is written inside of a new record as it is outside of it.
* `Written.lexical`  — the numbers of a JSON form are literals, so its text denotes it.
* `rendering_agrees` — the text of a value, of a list and of an object with that value alone, and
  what argument lists denote.

What is relied on is how the writer quotes strings, lays out trees and writes numbers.
-/

namespace Contracts

open Json (Denotes Lexical)

/-! ## Data values -/

/-- The scalars whose text is JSON text. -/
def Scalar.isData : Scalar → Bool
  | .undefined | .symbol _ | .function _ => false
  | .null | .bool _ | .string _ => true
  | .number n => n.isFinite

/-- A value whose text is JSON text: no scalar without a JSON form of its own, and nothing from
which a held record is in reach. What is inside of the value may be any scalar. -/
structure Heap.IsData (h : Heap) (v : Value) : Prop where
  isData : ∀ s, v = .scalar s → s.isData = true
  free : ∀ r, h.InReach v r → h.isHeld r = false

variable {h h' : Heap} {v : Value} {r : Ref}

theorem Heap.isData_scalar {s : Scalar} (hs : s.isData = true) (h : Heap) :
    h.IsData (.scalar s) where
  isData t ht := by
    cases ht
    exact hs
  free r hr := by
    obtain ⟨root, hroot, _⟩ := hr
    simp [Value.refs] at hroot

section Writer

variable [W : JsonWriter]

section Texts

variable (hnumbers : W.WritesNumbers) (htrees : W.WritesTrees)

include hnumbers htrees

theorem Scalar.text_eq_compact {s : Scalar} (hs : s.isData = true) : s.text = s.json.compact := by
  match s, hs with
  | .null, _ => exact htrees.null.symm
  | .bool true, _ => exact (htrees.bool true).symm
  | .bool false, _ => exact (htrees.bool false).symm
  | .string text, _ => exact (htrees.string text).symm
  | .number n, hn =>
    obtain ⟨b, hb⟩ := isFinite_iff.mp hn
    exact hnumbers.numberText_eq hb htrees.number

/-- The text of a data value is the compact text of its JSON form. -/
theorem render_eq_compact (hv : h.IsData v) : h.render v = (h.toJson v).compact := by
  have hopen := Heap.open_of_inReach hv.free
  match v with
  | .scalar s => exact Scalar.text_eq_compact hnumbers htrees (hv.isData s rfl)
  | .array items => exact render_of_open hopen (by simp)
  | .object r => exact render_of_open hopen (by simp)

end Texts

/-! ## Literals -/

theorem Scalar.lexical_json (hnumbers : W.WritesNumbers) (s : Scalar) : Lexical s.json := by
  intro t ht
  cases s with
  | number n =>
    rw [Scalar.json] at ht
    cases hn : Binary.ofFloat? n with
    | some b =>
      obtain ⟨t', q, hjson, _, _, hq, _⟩ := hnumbers.jsonNumber_spec hn
      rw [hjson] at ht
      cases ht
      exact Json.numberText_of_numberValue? hq
    | none =>
      rw [hnumbers.jsonNumber_of_not_finite hn] at ht
      cases ht
  | undefined | null | bool b | string s | symbol s | function name => cases ht

mutual

/-- The numbers of a structural form are literals. -/
theorem Written.lexical (hnumbers : W.WritesNumbers) : {path : List Ref} → {v : Value} →
    {j : Json} → Written h path v j → Lexical j
  | _, _, _, .scalar _ s => s.lexical_json hnumbers
  | _, _, _, .array hs => by
    intro t ht
    cases ht with
    | item hj ht => exact hs.lexical hnumbers _ hj t ht
  | _, _, _, .circular _ => by
    intro t ht
    cases ht
  | _, _, _, .expanded _ _ hs => by
    intro t ht
    cases ht with
    | member hj ht => exact hs.lexical hnumbers _ _ hj t ht

theorem WrittenItems.lexical (hnumbers : W.WritesNumbers) : {path : List Ref} →
    {vs : List Value} → {js : List Json} → WrittenItems h path vs js → ∀ j ∈ js, Lexical j
  | _, _, _, .nil _ => by simp
  | _, _, _, .cons hv hs => List.forall_mem_cons.mpr ⟨hv.lexical hnumbers, hs.lexical hnumbers⟩

theorem WrittenFields.lexical (hnumbers : W.WritesNumbers) : {path : List Ref} →
    {fields : List (String × Value)} → {members : List (String × Json)} →
    WrittenFields h path fields members → ∀ key j, (key, j) ∈ members → Lexical j
  | _, _, _, .nil _ => by simp
  | _, _, _, .omitted _ hs => hs.lexical hnumbers
  | _, _, _, .cons _ _ hv hs => by
    intro key j hmem
    rcases List.mem_cons.mp hmem with heq | hmem
    · cases heq
      exact hv.lexical hnumbers
    · exact hs.lexical hnumbers key j hmem

end

theorem lexical_toJson (hnumbers : W.WritesNumbers) (h : Heap) (v : Value) :
    Lexical (h.toJson v) := by
  rw [Heap.toJson]
  cases hj : h.json? v with
  | some j =>
    rw [Option.getD_some]
    exact (written_of_json? hj).lexical hnumbers
  | none =>
    intro t ht
    cases ht

/-! ## Inside of a list and of a new record -/

omit W in
theorem isUndefined_of_isData (hv : h.IsData v) : v.isUndefined = false := by
  match v with
  | .scalar .undefined => cases hv.isData _ rfl
  | .scalar .null | .scalar (.bool _) | .scalar (.number _) | .scalar (.string _) => rfl
  | .scalar (.symbol _) | .scalar (.function _) => rfl
  | .array _ | .object _ => rfl

theorem toJson_singleton (hopen : h.Open v) :
    h.Open (.array [v]) ∧ h.toJson (.array [v]) = .array [h.toJson v] := by
  have hlist : h.Open (.array [v]) := by
    rintro s ⟨root, hroot, hreach⟩
    refine hopen s ⟨root, ?_, hreach⟩
    simpa [Value.refs, Value.refsOf] using hroot
  refine ⟨hlist, (written_iff hlist).mp (.array (.cons ?_ (.nil _)))⟩
  exact (written_iff hopen).mpr rfl

/-- The heap reads every record as the other one, and one that is not there. -/
structure Heap.Extends (h h' : Heap) (r : Ref) : Prop where
  absent : h.readable? r = none
  readable : ∀ s rec, h.readable? s = some rec → h'.readable? s = some rec

omit W in
theorem Heap.extends_alloc (h : Heap) (rec : Record) :
    h.Extends (h.alloc rec).2 (h.alloc rec).1 where
  absent := by simp [Heap.readable?, Heap.record?, Heap.alloc]
  readable s old hold := by
    have hrec := Heap.record?_of_readable? hold
    have hlt := Heap.lt_size_of_record? hrec
    have hsame : (h.alloc rec).2.record? s = h.record? s := by
      rw [Heap.record?, Heap.record?, Heap.alloc, Array.getElem?_push_lt hlt,
        Array.getElem?_eq_getElem hlt]
    rw [Heap.readable?, hsame]
    exact hold

mutual

/-- A value is written inside of a new record as it is outside of it. -/
theorem Written.extend (hr : h.Extends h' r) : {path : List Ref} → {v : Value} → {j : Json} →
    Written h path v j → Written h' (path ++ [r]) v j
  | _, _, _, .scalar _ s => .scalar _ s
  | _, _, _, .array hs => .array (hs.extend hr)
  | _, _, _, .circular hmem => .circular (List.mem_append_left _ hmem)
  | _, _, _, @Written.expanded _ _ _ s rec _ hmem hrec hs => by
    refine .expanded ?_ (hr.readable s rec hrec) (hs.extend hr)
    intro hs
    rcases List.mem_append.mp hs with hs | hs
    · exact hmem hs
    · obtain rfl : s = r := by simpa using hs
      rw [hr.absent] at hrec
      cases hrec

theorem WrittenItems.extend (hr : h.Extends h' r) : {path : List Ref} → {vs : List Value} →
    {js : List Json} → WrittenItems h path vs js → WrittenItems h' (path ++ [r]) vs js
  | _, _, _, .nil _ => .nil _
  | _, _, _, .cons hv hs => .cons (hv.extend hr) (hs.extend hr)

theorem WrittenFields.extend (hr : h.Extends h' r) : {path : List Ref} →
    {fields : List (String × Value)} → {members : List (String × Json)} →
    WrittenFields h path fields members → WrittenFields h' (path ++ [r]) fields members
  | _, _, _, .nil _ => .nil _
  | _, _, _, .omitted key hs => .omitted key (hs.extend hr)
  | _, _, _, .cons key hu hv hs => .cons key hu (hv.extend hr) (hs.extend hr)

end

section Agreement

variable (hnumbers : W.WritesNumbers) (htrees : W.WritesTrees)

include hnumbers htrees

/-- The list of one value. -/
theorem render_singleton (hv : h.IsData v) :
    h.render (.array [v]) = "[" ++ h.render v ++ "]" := by
  obtain ⟨hopen, hjson⟩ := toJson_singleton (Heap.open_of_inReach hv.free)
  rw [render_of_open hopen (by simp), hjson, render_eq_compact hnumbers htrees hv,
    JsonTree.compact, htrees.array, List.map_singleton, String.intercalate_singleton]
  rfl

/-- A new record with one field. -/
theorem render_field (hv : h.IsData v) (hr : h.Extends h' r) {rec : Record} {key : String}
    (hrec : h'.readable? r = some rec) (hfields : rec.fields.entries = [(key, v)]) :
    h'.render (.object r) = "\x7b" ++ W.quote key ++ ":" ++ h.render v ++ "\x7d" := by
  have hwritten : Written h' [] (.object r) (.object [(key, h.toJson v)]) := by
    refine .expanded (by simp) hrec ?_
    rw [hfields]
    exact .cons key (isUndefined_of_isData hv)
      (((written_iff (Heap.open_of_inReach hv.free)).mpr rfl).extend hr) (.nil _)
  rw [(hwritten.render_eq (by simp)).1, render_eq_compact hnumbers htrees hv, JsonTree.compact,
    htrees.object, List.map_singleton, String.intercalate_singleton]
  simp only [String.append_assoc]
  rfl

/-! ## Argument lists -/

/-- An argument list between brackets denotes the list of the JSON forms. -/
theorem denotes_renderArgs {vs : List Value} (hvs : ∀ v ∈ vs, h.IsData v) :
    Denotes ("[" ++ h.renderArgs vs ++ "]") (.array (vs.map h.toJson)) := by
  have htexts : vs.map h.render = (vs.map h.toJson).map JsonTree.compact := by
    rw [List.map_map]
    exact List.map_congr_left fun v hv => render_eq_compact hnumbers htrees (hvs v hv)
  rw [Heap.renderArgs, htexts]
  refine htrees.denotes_joined fun j hj => ?_
  obtain ⟨v, -, rfl⟩ := List.mem_map.mp hj
  exact lexical_toJson hnumbers h v

/-- Argument lists with the same text have the same JSON forms. -/
theorem toJson_eq_of_renderArgs_eq {vs ws : List Value} (hvs : ∀ v ∈ vs, h.IsData v)
    (hws : ∀ w ∈ ws, h'.IsData w) (heq : h.renderArgs vs = h'.renderArgs ws) :
    vs.map h.toJson = ws.map h'.toJson := by
  have hdenotes := denotes_renderArgs hnumbers htrees hvs
  rw [heq] at hdenotes
  exact JsonTree.array.inj (hdenotes.unique (denotes_renderArgs hnumbers htrees hws))

/-- The text of a data value at the top level and inside of other values, and what the text of an
argument list denotes. -/
theorem rendering_agrees (h : Heap) :
    (∀ v, h.IsData v →
      h.render v = (h.toJson v).compact ∧
      h.render (.array [v]) = "[" ++ h.render v ++ "]" ∧
      ∀ h' r rec key, h.Extends h' r → h'.readable? r = some rec →
        rec.fields.entries = [(key, v)] →
        h'.render (.object r) = "\x7b" ++ W.quote key ++ ":" ++ h.render v ++ "\x7d") ∧
    ∀ vs, (∀ v ∈ vs, h.IsData v) →
      Denotes ("[" ++ h.renderArgs vs ++ "]") (.array (vs.map h.toJson)) ∧
      ∀ (h' : Heap) ws, (∀ w ∈ ws, h'.IsData w) → vs.map h.toJson ≠ ws.map h'.toJson →
        h.renderArgs vs ≠ h'.renderArgs ws ∧
        ∀ className member, (Input.args vs).subject h className member ≠
          (Input.args ws).subject h' className member := by
  refine ⟨fun v hv => ⟨render_eq_compact hnumbers htrees hv, render_singleton hnumbers htrees hv,
    fun h' r rec key hr hrec hfields => render_field hnumbers htrees hv hr hrec hfields⟩,
    fun vs hvs => ?_⟩
  refine ⟨denotes_renderArgs hnumbers htrees hvs, fun h' ws hws hne => ?_⟩
  have htext : h.renderArgs vs ≠ h'.renderArgs ws :=
    fun heq => hne (toJson_eq_of_renderArgs_eq hnumbers htrees hvs hws heq)
  refine ⟨htext, fun className member hsubject => htext ?_⟩
  simpa [Input.subject] using hsubject

end Agreement

end Writer

namespace Parcels

/-- A record that mentions itself and holds what has no JSON form of its own. -/
def parcel : Record where
  fields := ⟨[("note", .string "a, \"b\""), ("none", .undefined), ("tag", .symbol ⟨0, some "t"⟩),
    ("self", .object ⟨0⟩)]⟩

def heap : Heap := { records := #[parcel] }

theorem eq_of_inReach {r : Ref} (hr : heap.InReach (.object ⟨0⟩) r) : r = ⟨0⟩ := by
  obtain ⟨root, hroot, hreach⟩ := hr
  obtain rfl : root = ⟨0⟩ := by simpa [Value.refs] using hroot
  induction hreach with
  | refl => rfl
  | tail _ hm ih =>
    subst ih
    obtain ⟨rec, hrec, p, hp, hs⟩ := hm
    obtain rfl : parcel = rec := Option.some_inj.mp hrec
    simp only [parcel, List.mem_cons, List.not_mem_nil, or_false] at hp
    rcases hp with rfl | rfl | rfl | rfl <;> simp_all [Value.refs]

theorem isData_object : heap.IsData (.object ⟨0⟩) where
  isData _ hs := by cases hs
  free r hr := by
    rw [eq_of_inReach hr]
    rfl

theorem isData_string (s : String) : heap.IsData (.string s) := Heap.isData_scalar rfl heap

theorem toJson_object [JsonWriter] : heap.toJson (.object ⟨0⟩) = .object [("note", .string "a, \"b\""),
    ("tag", .string "Symbol(t)"), ("self", .string circularMark)] :=
  (written_iff (Heap.open_of_inReach isData_object.free)).mp
    (.expanded (by simp) rfl (.cons "note" rfl (.scalar _ (.string _)) (.omitted "none"
      (.cons "tag" rfl (.scalar _ (.symbol _)) (.cons "self" rfl (.circular (by simp)) (.nil _))))))

/-- A record is shown alike on its own, in a list and in a new record, and an argument list denotes
it. Two strings are not taken for one that has a comma and quotes inside. -/
theorem shown_alike :
    heap.IsData (.object ⟨0⟩) ∧
    heap.render (.array [.object ⟨0⟩]) = "[" ++ heap.render (.object ⟨0⟩) ++ "]" ∧
    (heap.alloc { fields := ⟨[("k", .object ⟨0⟩)]⟩ }).2.render (.object ⟨1⟩) =
      "\x7b" ++ Json.quote "k" ++ ":" ++ heap.render (.object ⟨0⟩) ++ "\x7d" ∧
    Denotes ("[" ++ heap.renderArgs [.object ⟨0⟩, .string "a"] ++ "]")
      (.array [.object [("note", .string "a, \"b\""), ("tag", .string "Symbol(t)"),
        ("self", .string circularMark)], .string "a"]) ∧
    heap.renderArgs [.string "a", .string "b"] ≠ heap.renderArgs [.string "a\", \"b"] := by
  obtain ⟨hvalue, hlist⟩ :=
    rendering_agrees standardWriter_writesNumbers standardWriter_writesTrees heap
  obtain ⟨-, hitem, hfield⟩ := hvalue _ isData_object
  have hargs : ∀ v ∈ [Value.object ⟨0⟩, .string "a"], heap.IsData v := by
    simp [isData_object, isData_string]
  have hstrings : ∀ ss : List String, ∀ v ∈ ss.map Value.string, heap.IsData v := by
    intro ss v hv
    obtain ⟨s, _, rfl⟩ := List.mem_map.mp hv
    exact isData_string s
  refine ⟨isData_object, hitem, ?_, ?_, ?_⟩
  · exact hfield _ _ _ "k" (heap.extends_alloc _) rfl rfl
  · have hdenotes := (hlist _ hargs).1
    rw [List.map_cons, toJson_object] at hdenotes
    exact hdenotes
  · exact ((hlist _ (hstrings ["a", "b"])).2 heap _ (hstrings ["a\", \"b"]) (by simp)).1

end Parcels

end Contracts
