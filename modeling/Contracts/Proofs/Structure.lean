import Contracts.Proofs.Renaming
import Mathlib.Logic.Relation

/-!
# Contracts.Proofs.Structure

The structural form of values whose records refer to each other in any way.

* `Value.refs`, `Heap.Reaches` — the records that a value mentions, and those in reach of it.
* `Written`      — the structural form by rules: a record inside itself is marked, every other one
  is written with its fields.
* `written_iff`  — the bounded unfolding of a value gives the form that the rules give.
* `Occurs`       — where a value is met while another one is written, and inside of which records.
* `Written.copy` — without cycles the form does not say which records are shared.
* `structural_form` — the structural form and the text of every value with no held record in reach.
-/

namespace Contracts

/-! ## Records in reach -/

namespace Value

mutual

/-- The records that a value mentions itself, through lists but not through records. -/
def refs : Value → List Ref
  | .scalar _ => []
  | .array items => refsOf items
  | .object r => [r]

def refsOf : List Value → List Ref
  | [] => []
  | v :: rest => refs v ++ refsOf rest

end

theorem mem_refsOf {r : Ref} {vs : List Value} : r ∈ refsOf vs ↔ ∃ v ∈ vs, r ∈ v.refs := by
  induction vs with
  | nil => simp [refsOf]
  | cons v rest ih => simp [refsOf, ih]

end Value

namespace Heap

/-- A field of the one record mentions the other. -/
def PointsTo (h : Heap) (r s : Ref) : Prop :=
  ∃ rec, h.readable? r = some rec ∧ ∃ p ∈ rec.fields.entries, s ∈ p.2.refs

/-- A record that the value mentions, or that one in reach of it points to. -/
def Reaches (h : Heap) (v : Value) (s : Ref) : Prop :=
  ∃ r ∈ v.refs, Relation.ReflTransGen h.PointsTo r s

/-- No record in reach of the value is held. -/
def Open (h : Heap) (v : Value) : Prop := ∀ r, h.Reaches v r → (h.readable? r).isSome

/-- No record in reach of the value is in reach of its own fields. -/
def Acyclic (h : Heap) (v : Value) : Prop :=
  ∀ r, h.Reaches v r → ¬ Relation.TransGen h.PointsTo r r

variable {h : Heap} {v : Value} {r s : Ref}

theorem reaches_of_mem_refs (hr : r ∈ v.refs) : h.Reaches v r := ⟨r, hr, .refl⟩

theorem Reaches.item {items : List Value} (hv : v ∈ items) (hr : h.Reaches v r) :
    h.Reaches (.array items) r := by
  obtain ⟨root, hroot, hpath⟩ := hr
  refine ⟨root, ?_, hpath⟩
  rw [Value.refs]
  exact Value.mem_refsOf.mpr ⟨v, hv, hroot⟩

/-- What is in reach of a field is in reach of the record, by at least one step. -/
theorem transGen_of_field {rec : Record} (hrec : h.readable? r = some rec)
    {p : String × Value} (hp : p ∈ rec.fields.entries) (hs : h.Reaches p.2 s) :
    Relation.TransGen h.PointsTo r s := by
  obtain ⟨root, hroot, hpath⟩ := hs
  exact .head' ⟨rec, hrec, p, hp, hroot⟩ hpath

theorem Reaches.field {rec : Record} (hrec : h.readable? r = some rec)
    {p : String × Value} (hp : p ∈ rec.fields.entries) (hs : h.Reaches p.2 s) :
    h.Reaches (.object r) s :=
  ⟨r, by simp [Value.refs], (transGen_of_field hrec hp hs).to_reflTransGen⟩

theorem reaches_self (h : Heap) (r : Ref) : h.Reaches (.object r) r :=
  reaches_of_mem_refs (by simp [Value.refs])

end Heap

theorem isUndefined_expand (h : Heap) (depth : Nat) (path : List Ref) (r : Ref) :
    (h.expand depth path r).isUndefined = false := by
  cases depth with
  | zero => rfl
  | succ depth =>
    rw [Heap.expand]
    split
    · rfl
    · split <;> rfl

theorem isUndefined_unfoldWith (h : Heap) (depth : Nat) (path : List Ref) (v : Value) :
    (v.unfoldWith (h.expand depth path)).isUndefined = v.isUndefined := by
  match v with
  | .scalar s => cases s <;> rfl
  | .array items => rfl
  | .object r =>
    rw [Value.unfoldWith]
    exact isUndefined_expand h depth path r

/-! ## Where values are met -/

/-- While `v` is written the value `x` is met inside of the records of `path`, the innermost
first. -/
inductive Occurs (h : Heap) (v : Value) : List Ref → Value → Prop where
  | self : Occurs h v [] v
  | item {path : List Ref} {items : List Value} {x : Value} (ha : Occurs h v path (.array items))
      (hx : x ∈ items) : Occurs h v path x
  | field {path : List Ref} {r : Ref} {rec : Record} {p : String × Value}
      (ho : Occurs h v path (.object r)) (hr : r ∉ path) (hrec : h.readable? r = some rec)
      (hp : p ∈ rec.fields.entries) (hu : p.2.isUndefined = false) : Occurs h v (r :: path) p.2

/-- A part of a JSON tree. -/
inductive JsonTree.Within : Json → Json → Prop where
  | self (j : Json) : Within j j
  | item {i j : Json} {items : List Json} (hj : j ∈ items) (h : Within i j) :
      Within i (.array items)
  | member {i j : Json} {key : String} {members : List (String × Json)} (hj : (key, j) ∈ members)
      (h : Within i j) : Within i (.object members)

theorem JsonTree.Within.trans {a b c : Json} (hab : a.Within b) (hbc : b.Within c) :
    a.Within c := by
  induction hbc with
  | self => exact hab
  | item hj _ ih => exact .item hj ih
  | member hj _ ih => exact .member hj ih

/-! ## The structural form by rules -/

section Rules

variable [JsonWriter]

mutual

/-- The structural form of a value that is met inside of the records of `path`. -/
inductive Written (h : Heap) : List Ref → Value → Json → Prop where
  | scalar (path : List Ref) (s : Scalar) : Written h path (.scalar s) s.json
  | array {path : List Ref} {items : List Value} {js : List Json}
      (hs : WrittenItems h path items js) : Written h path (.array items) (.array js)
  /-- A record inside of itself. -/
  | circular {path : List Ref} {r : Ref} (hr : r ∈ path) :
      Written h path (.object r) (.string circularMark)
  /-- Every other record, wherever else it is met. -/
  | expanded {path : List Ref} {r : Ref} {rec : Record} {members : List (String × Json)}
      (hr : r ∉ path) (hrec : h.readable? r = some rec)
      (hs : WrittenFields h (r :: path) rec.fields.entries members) :
      Written h path (.object r) (.object members)

/-- Items in order. -/
inductive WrittenItems (h : Heap) : List Ref → List Value → List Json → Prop where
  | nil (path : List Ref) : WrittenItems h path [] []
  | cons {path : List Ref} {v : Value} {rest : List Value} {j : Json} {js : List Json}
      (hv : Written h path v j) (hs : WrittenItems h path rest js) :
      WrittenItems h path (v :: rest) (j :: js)

/-- Fields in order, without those that are `undefined`. -/
inductive WrittenFields (h : Heap) :
    List Ref → List (String × Value) → List (String × Json) → Prop where
  | nil (path : List Ref) : WrittenFields h path [] []
  | omitted {path : List Ref} (key : String) {rest : List (String × Value)}
      {members : List (String × Json)} (hs : WrittenFields h path rest members) :
      WrittenFields h path ((key, .undefined) :: rest) members
  | cons {path : List Ref} (key : String) {v : Value} {rest : List (String × Value)} {j : Json}
      {members : List (String × Json)} (hu : v.isUndefined = false) (hv : Written h path v j)
      (hs : WrittenFields h path rest members) :
      WrittenFields h path ((key, v) :: rest) ((key, j) :: members)

end

variable {h h' : Heap} {path path' : List Ref} {v v' : Value} {j j' : Json}

mutual

/-- The rules give one form at most. -/
theorem Written.unique : {path : List Ref} → {v : Value} → {j j' : Json} → Written h path v j →
    Written h path v j' → j = j'
  | _, _, _, _, .scalar _ _, .scalar _ _ => rfl
  | _, _, _, _, .array hs, .array hs' => by rw [hs.unique hs']
  | _, _, _, _, .circular _, .circular _ => rfl
  | _, _, _, _, .circular hr, .expanded hr' _ _ => absurd hr hr'
  | _, _, _, _, .expanded hr _ _, .circular hr' => absurd hr' hr
  | _, _, _, _, .expanded _ hrec hs, .expanded _ hrec' hs' => by
    cases hrec.symm.trans hrec'
    rw [hs.unique hs']

theorem WrittenItems.unique : {path : List Ref} → {vs : List Value} → {js js' : List Json} →
    WrittenItems h path vs js → WrittenItems h path vs js' → js = js'
  | _, _, _, _, .nil _, .nil _ => rfl
  | _, _, _, _, .cons hv hs, .cons hv' hs' => by rw [hv.unique hv', hs.unique hs']

theorem WrittenFields.unique : {path : List Ref} → {fields : List (String × Value)} →
    {ms ms' : List (String × Json)} → WrittenFields h path fields ms →
    WrittenFields h path fields ms' → ms = ms'
  | _, _, _, _, .nil _, .nil _ => rfl
  | _, _, _, _, .omitted _ hs, .omitted _ hs' => hs.unique hs'
  | _, _, _, _, .cons _ _ hv hs, .cons _ _ hv' hs' => by rw [hv.unique hv', hs.unique hs']

end

/-- A record is marked if and only if it is inside of itself. -/
theorem Written.eq_mark_iff {r : Ref} (hw : Written h path (.object r) j) :
    j = .string circularMark ↔ r ∈ path := by
  cases hw with
  | circular hr => exact iff_of_true rfl hr
  | expanded hr _ _ => exact iff_of_false (fun heq => nomatch heq) hr

/-! ## Unfolding keeps the rules -/

section
variable {expand : Ref → Tree}

mutual

/-- A value is written as the rules say if the records that it mentions are. -/
theorem exists_written : (v : Value) →
    (∀ r ∈ v.refs, ∃ j, (expand r).json? = some j ∧ Written h path (.object r) j) →
    ∃ j, (v.unfoldWith expand).json? = some j ∧ Written h path v j
  | .scalar s, _ => ⟨s.json, by rw [Value.unfoldWith, Tree.json?], .scalar path s⟩
  | .object r, hr => by
    rw [Value.unfoldWith]
    exact hr r (by simp [Value.refs])
  | .array items, hr => by
    obtain ⟨js, hjson, hs⟩ := exists_writtenItems items hr
    refine ⟨.array js, ?_, .array hs⟩
    rw [Value.unfoldWith, Tree.json?, hjson, Option.map_some]

theorem exists_writtenItems : (vs : List Value) →
    (∀ r ∈ Value.refsOf vs, ∃ j, (expand r).json? = some j ∧ Written h path (.object r) j) →
    ∃ js, Tree.jsonItems? (unfoldItems expand vs) = some js ∧ WrittenItems h path vs js
  | [], _ => ⟨[], by rw [unfoldItems, Tree.jsonItems?], .nil path⟩
  | v :: rest, hr => by
    obtain ⟨j, hjson, hv⟩ := exists_written v fun r hmem => hr r (by simp [Value.refsOf, hmem])
    obtain ⟨js, hjsons, hs⟩ :=
      exists_writtenItems rest fun r hmem => hr r (by simp [Value.refsOf, hmem])
    refine ⟨j :: js, ?_, .cons hv hs⟩
    rw [unfoldItems, Tree.jsonItems?, hjson, hjsons]
    rfl

end

end

/-- Fields are written as the rules say if the records that they mention are. -/
theorem exists_writtenFields {depth : Nat} (fields : List (String × Value))
    (hr : ∀ p ∈ fields, ∀ r ∈ p.2.refs,
      ∃ j, (h.expand depth path r).json? = some j ∧ Written h path (.object r) j) :
    ∃ members, Tree.jsonFields?
        (fields.map fun (k, v) => (k, v.unfoldWith (h.expand depth path))) = some members ∧
      WrittenFields h path fields members := by
  induction fields with
  | nil => exact ⟨[], by rw [List.map_nil, Tree.jsonFields?], .nil path⟩
  | cons p rest ih =>
    obtain ⟨key, v⟩ := p
    obtain ⟨members, hjsons, hs⟩ := ih fun p hp => hr p (by simp [hp])
    cases hu : v.isUndefined with
    | true =>
      obtain rfl : v = .undefined := by
        match v, hu with
        | .scalar .undefined, _ => rfl
      refine ⟨members, ?_, .omitted key hs⟩
      rw [List.map_cons, Tree.jsonFields?, isUndefined_unfoldWith, hu, if_pos rfl, hjsons]
    | false =>
      obtain ⟨j, hjson, hv⟩ := exists_written v (hr (key, v) (by simp))
      refine ⟨(key, j) :: members, ?_, .cons key hu hv hs⟩
      rw [List.map_cons, Tree.jsonFields?, isUndefined_unfoldWith, hu, if_neg Bool.false_ne_true,
        hjson, hjsons]
      rfl

/-- Below a path of records the depth that is left suffices, since no path holds a record twice. -/
theorem exists_written_record {depth : Nat} {r : Ref} (hopen : h.Open (.object r))
    (hn : path.Nodup) (hp : ∀ s ∈ path, s.index < h.size) (hd : h.size < path.length + depth) :
    ∃ j, (h.expand depth path r).json? = some j ∧ Written h path (.object r) j := by
  induction depth generalizing path r with
  | zero =>
    have hlen := Heap.length_le_size hn hp
    omega
  | succ depth ih =>
    rw [Heap.expand]
    by_cases hmem : r ∈ path
    · rw [if_pos hmem]
      exact ⟨_, by rw [Tree.json?], .circular hmem⟩
    rw [if_neg hmem]
    obtain ⟨rec, hrec⟩ := Option.isSome_iff_exists.mp (hopen r (h.reaches_self r))
    have hlt : r.index < h.size := Heap.lt_size_of_record? (Option.filter_eq_some_iff.mp hrec).1
    have hfields : ∀ p ∈ rec.fields.entries, ∀ s ∈ p.2.refs,
        ∃ j, (h.expand depth (r :: path) s).json? = some j ∧
          Written h (r :: path) (.object s) j := by
      intro p hmemp s hs
      refine ih (fun t ht => ?_) (List.nodup_cons.mpr ⟨hmem, hn⟩)
        (List.forall_mem_cons.mpr ⟨hlt, hp⟩) (by rw [List.length_cons]; omega)
      obtain ⟨_, hroot, hpath⟩ := ht
      obtain rfl : _ = s := by simpa [Value.refs] using hroot
      exact hopen t (.field hrec hmemp ⟨_, hs, hpath⟩)
    obtain ⟨members, hjson, hs⟩ := exists_writtenFields rec.fields.entries hfields
    refine ⟨.object members, ?_, .expanded hmem hrec hs⟩
    simp only [hrec, Tree.json?, hjson, Option.map_some]

theorem exists_json? (hopen : h.Open v) : ∃ j, h.json? v = some j ∧ Written h [] v j := by
  refine exists_written v fun r hr => exists_written_record (fun s hs => ?_) .nil (by simp)
    (by simp)
  obtain ⟨_, hroot, hpath⟩ := hs
  obtain rfl : _ = r := by simpa [Value.refs] using hroot
  exact hopen s ⟨_, hr, hpath⟩

/-- The form that the rules give, and no other one, is the JSON form of the value. -/
theorem written_iff (hopen : h.Open v) : Written h [] v j ↔ h.toJson v = j := by
  obtain ⟨j', hjson, hv⟩ := exists_json? hopen
  rw [Heap.toJson, hjson, Option.getD_some]
  constructor
  · exact fun hw => hv.unique hw
  · rintro rfl
    exact hv

/-- Lists and records are shown as the compact text of their JSON form. -/
theorem render_of_open (hopen : h.Open v) (hv : ∀ s, v ≠ .scalar s) :
    h.render v = (h.toJson v).compact := by
  obtain ⟨j, hjson, _⟩ := exists_json? hopen
  have hparts : h.renderParts v = (h.toJson v).compact := by
    rw [Heap.renderParts, Heap.toJson, hjson, Option.getD_some]
  cases v with
  | scalar s => exact absurd rfl (hv s)
  | array items => exact hparts
  | object r => exact hparts

/-! ## What is met has its place -/

theorem WrittenItems.exists_of_mem {vs : List Value} {js : List Json}
    (hs : WrittenItems h path vs js) (hv : v ∈ vs) : ∃ j ∈ js, Written h path v j := by
  induction vs generalizing js with
  | nil => simp at hv
  | cons v' rest ih =>
    cases hs with
    | cons hv' hs =>
      rcases List.mem_cons.mp hv with rfl | hv
      · exact ⟨_, by simp, hv'⟩
      · obtain ⟨j, hj, hw⟩ := ih hs hv
        exact ⟨j, by simp [hj], hw⟩

theorem WrittenFields.exists_of_mem {fields : List (String × Value)}
    {members : List (String × Json)} (hs : WrittenFields h path fields members)
    {p : String × Value} (hp : p ∈ fields) (hu : p.2.isUndefined = false) :
    ∃ j, (p.1, j) ∈ members ∧ Written h path p.2 j := by
  induction fields generalizing members with
  | nil => simp at hp
  | cons p' rest ih =>
    cases hs with
    | omitted key hs =>
      rcases List.mem_cons.mp hp with rfl | hp
      · cases hu
      · exact ih hs hp
    | cons key _ hv hs =>
      rcases List.mem_cons.mp hp with rfl | hp
      · exact ⟨_, by simp, hv⟩
      · obtain ⟨j, hj, hw⟩ := ih hs hp
        exact ⟨j, by simp [hj], hw⟩

/-- What is met inside of some records has a place in the form of the whole, written there as the
rules say inside of these records. No record is inside of itself. -/
theorem Occurs.written {x : Value} (ho : Occurs h v path x) (hw : Written h [] v j) :
    path.Nodup ∧ ∃ i, Written h path x i ∧ i.Within j := by
  induction ho with
  | self => exact ⟨.nil, j, hw, .self j⟩
  | item _ hx ih =>
    obtain ⟨hn, _, hi, hwithin⟩ := ih
    cases hi with
    | array hs =>
      obtain ⟨i, hmem, hi⟩ := hs.exists_of_mem hx
      exact ⟨hn, i, hi, (JsonTree.Within.item hmem (.self i)).trans hwithin⟩
  | field _ hr hrec hp hu ih =>
    obtain ⟨hn, _, hi, hwithin⟩ := ih
    cases hi with
    | circular hr' => exact absurd hr' hr
    | expanded _ hrec' hs =>
      cases hrec.symm.trans hrec'
      obtain ⟨i, hmem, hi⟩ := hs.exists_of_mem hp hu
      exact ⟨List.nodup_cons.mpr ⟨hr, hn⟩, i, hi,
        (JsonTree.Within.member hmem (.self i)).trans hwithin⟩

end Rules

/-! ## Copies -/

namespace Value

mutual

/-- The value with other records in the places of those that it mentions. -/
def rename (f : Ref → Ref) : Value → Value
  | .scalar s => .scalar s
  | .array items => .array (renameItems f items)
  | .object r => .object (f r)

def renameItems (f : Ref → Ref) : List Value → List Value
  | [] => []
  | v :: rest => rename f v :: renameItems f rest

end

mutual

theorem refs_rename (f : Ref → Ref) : (v : Value) → (v.rename f).refs = v.refs.map f
  | .scalar _ => by simp only [rename, refs, List.map_nil]
  | .array items => by simp only [rename, refs, refsOf_renameItems f items]
  | .object r => by simp only [rename, refs, List.map_cons, List.map_nil]

theorem refsOf_renameItems (f : Ref → Ref) :
    (vs : List Value) → refsOf (renameItems f vs) = (refsOf vs).map f
  | [] => by rw [renameItems, refsOf, List.map_nil]
  | v :: rest => by
    rw [renameItems, refsOf, refsOf, refs_rename f v, refsOf_renameItems f rest, List.map_append]

end

theorem isUndefined_rename (f : Ref → Ref) (v : Value) :
    (v.rename f).isUndefined = v.isUndefined := by
  match v with
  | .scalar s => rw [rename]
  | .array items =>
    rw [rename]
    rfl
  | .object r =>
    rw [rename]
    rfl

end Value

/-- Both records can be read, and the first one has the fields of the second one, with copies in
the places of the records that they mention. -/
def Heap.CopyOf (f : Ref → Ref) (h' h : Heap) (r' : Ref) : Prop :=
  ∃ rec' rec, h'.readable? r' = some rec' ∧ h.readable? (f r') = some rec ∧
    rec.fields.entries = rec'.fields.entries.map fun p => (p.1, p.2.rename f)

/-- The value `v'` is a copy: every record in reach of it is the copy of one that `f` names. Two
of them may be copies of the same record. -/
def Heap.Copies (f : Ref → Ref) (h' h : Heap) (v' : Value) : Prop :=
  ∀ r', h'.Reaches v' r' → Heap.CopyOf f h' h r'

section Copies

variable {h h' : Heap} {path path' : List Ref} {v' : Value} {f : Ref → Ref} {r' s' : Ref}

theorem Heap.CopyOf.pointsTo (hc : Heap.CopyOf f h' h r') (hp : h'.PointsTo r' s') :
    h.PointsTo (f r') (f s') := by
  obtain ⟨rec', rec, hrec', hrec, hfields⟩ := hc
  obtain ⟨_, hread, p, hmem, hs⟩ := hp
  cases hrec'.symm.trans hread
  refine ⟨rec, hrec, (p.1, p.2.rename f), ?_, ?_⟩
  · rw [hfields]
    exact List.mem_map_of_mem hmem
  · rw [Value.refs_rename]
    exact List.mem_map_of_mem hs

theorem Heap.Copies.transGen (hc : Heap.Copies f h' h v') (hr : h'.Reaches v' r')
    (hs : Relation.TransGen h'.PointsTo r' s') : Relation.TransGen h.PointsTo (f r') (f s') := by
  induction hs with
  | single hp => exact .single ((hc r' hr).pointsTo hp)
  | tail hpath hp ih =>
    obtain ⟨root, hroot, hreach⟩ := hr
    exact ih.tail ((hc _ ⟨root, hroot, hreach.trans hpath.to_reflTransGen⟩).pointsTo hp)

/-- What is in reach of a copy is a copy of what is in reach of the original. -/
theorem Heap.Copies.reaches (hc : Heap.Copies f h' h v') (hr : h'.Reaches v' r') :
    h.Reaches (v'.rename f) (f r') := by
  obtain ⟨root, hroot, hreach⟩ := hr
  refine ⟨f root, ?_, ?_⟩
  · rw [Value.refs_rename]
    exact List.mem_map_of_mem hroot
  · rcases Relation.reflTransGen_iff_eq_or_transGen.mp hreach with rfl | hs
    · exact .refl
    · exact (hc.transGen (Heap.reaches_of_mem_refs hroot) hs).to_reflTransGen

/-- The record is a copy, is not among the records that it is met inside of, and neither is the
original, which is on no cycle. -/
structure Fresh (f : Ref → Ref) (h' h : Heap) (path' path : List Ref) (r' : Ref) : Prop where
  copy : Heap.CopyOf f h' h r'
  off' : r' ∉ path'
  off : f r' ∉ path
  acyclic : ¬ Relation.TransGen h.PointsTo (f r') (f r')

/-- What is in reach of a field is not the record itself. -/
theorem Fresh.field {rec' : Record} (hr : ∀ s', h'.Reaches (.object r') s' →
      Fresh f h' h path' path s') (hrec : h'.readable? r' = some rec') {p : String × Value}
    (hp : p ∈ rec'.fields.entries) (hs : h'.Reaches p.2 s') :
    Fresh f h' h (r' :: path') (f r' :: path) s' := by
  have hself := hr r' (h'.reaches_self r')
  have hfresh := hr s' (.field hrec hp hs)
  have hcopies : Heap.Copies f h' h (.object r') := fun t ht => (hr t ht).copy
  have hstep := hcopies.transGen (h'.reaches_self r') (Heap.transGen_of_field hrec hp hs)
  refine ⟨hfresh.copy, ?_, ?_, hfresh.acyclic⟩
  · rw [List.mem_cons, not_or]
    refine ⟨?_, hfresh.off'⟩
    rintro rfl
    exact hself.acyclic hstep
  · rw [List.mem_cons, not_or]
    refine ⟨fun heq => ?_, hfresh.off⟩
    rw [heq] at hstep
    exact hself.acyclic hstep

variable [JsonWriter]

mutual

/-- Where no record is met inside of itself, a copy is written as the original. -/
theorem Written.copy : {path' path : List Ref} → {v' : Value} → {j : Json} →
    Written h' path' v' j → (∀ r', h'.Reaches v' r' → Fresh f h' h path' path r') →
    Written h path (v'.rename f) j
  | _, path, _, _, .scalar _ s, _ => by
    rw [Value.rename]
    exact .scalar path s
  | _, _, _, _, .array hs, hr => by
    rw [Value.rename]
    exact .array (hs.copy fun v' hv' r' hr' => hr r' (.item hv' hr'))
  | _, _, _, _, .circular hmem, hr => absurd hmem (hr _ (h'.reaches_self _)).off'
  | _, _, _, _, @Written.expanded _ _ _ r' rec' _ _ hrec hs, hr => by
    have hself := hr r' (h'.reaches_self r')
    obtain ⟨_, rec, hrec', horig, hfields⟩ := hself.copy
    cases hrec.symm.trans hrec'
    rw [Value.rename]
    refine .expanded hself.off horig ?_
    rw [hfields]
    exact hs.copy fun p hp s' hs' => Fresh.field hr hrec hp hs'

theorem WrittenItems.copy : {path' path : List Ref} → {vs' : List Value} → {js : List Json} →
    WrittenItems h' path' vs' js →
    (∀ v' ∈ vs', ∀ r', h'.Reaches v' r' → Fresh f h' h path' path r') →
    WrittenItems h path (Value.renameItems f vs') js
  | _, path, _, _, .nil _, _ => by
    rw [Value.renameItems]
    exact .nil path
  | _, _, _, _, .cons hv hs, hr => by
    rw [Value.renameItems]
    exact .cons (hv.copy (hr _ (by simp))) (hs.copy fun v' hv' => hr v' (by simp [hv']))

theorem WrittenFields.copy : {path' path : List Ref} → {fields : List (String × Value)} →
    {members : List (String × Json)} → WrittenFields h' path' fields members →
    (∀ p ∈ fields, ∀ r', h'.Reaches p.2 r' → Fresh f h' h path' path r') →
    WrittenFields h path (fields.map fun p => (p.1, p.2.rename f)) members
  | _, path, _, _, .nil _, _ => .nil path
  | _, _, _, _, .omitted key hs, hr => by
    rw [List.map_cons, Value.rename]
    exact .omitted key (hs.copy fun p hp => hr p (by simp [hp]))
  | _, _, _, _, .cons key hu hv hs, hr => by
    rw [List.map_cons]
    refine .cons key ?_ (hv.copy (hr _ List.mem_cons_self)) ?_
    · rw [Value.isUndefined_rename, hu]
    · exact hs.copy fun p hp => hr p (by simp [hp])

end

end Copies

/-! ## The structural form of any value -/

/-- No record is held, and every record that a field mentions is there. -/
def Heap.Closed (h : Heap) : Prop :=
  ∀ rec ∈ h.records.toList, rec.borrow ≠ .held ∧
    ∀ p ∈ rec.fields.entries, ∀ r ∈ p.2.refs, r.index < h.size

theorem Heap.Closed.exists_readable? {h : Heap} {r : Ref} (hh : h.Closed) (hr : r.index < h.size) :
    ∃ rec ∈ h.records.toList, h.readable? r = some rec := by
  obtain ⟨rec, hrec⟩ : ∃ rec, h.record? r = some rec := ⟨_, Array.getElem?_eq_getElem hr⟩
  have hmem : rec ∈ h.records.toList := Array.mem_toList_iff.mpr (Array.mem_of_getElem? hrec)
  refine ⟨rec, hmem, Option.filter_eq_some_iff.mpr ⟨hrec, ?_⟩⟩
  simpa using (hh rec hmem).1

theorem Heap.Closed.isOpen {h : Heap} {v : Value} (hh : h.Closed)
    (hv : ∀ r ∈ v.refs, r.index < h.size) : h.Open v := by
  rintro s ⟨root, hroot, hreach⟩
  have hlt : s.index < h.size := by
    induction hreach with
    | refl => exact hv root hroot
    | tail _ hp _ =>
      obtain ⟨rec, hrec, p, hp, hs⟩ := hp
      have hmem := Array.mem_of_getElem? (Option.filter_eq_some_iff.mp hrec).1
      exact (hh rec (by simpa using hmem)).2 p hp _ hs
  obtain ⟨_, _, hrec⟩ := hh.exists_readable? hlt
  rw [hrec]
  rfl

/-- The structural form of a value, however its records refer to each other, if none of those in
reach of it is held. It is the one form that the rules give: a record is marked if and only if it
is met inside of itself, and every other one is written with its fields in order, those that are
`undefined` left out. Lists and records are shown as the compact text of it. No record is ever
written inside of itself, and wherever a value is met its part of the form is what the rules give
inside of the records around it. Without cycles the form does not say which records are shared:
copies of a value have the same form and the same text. -/
theorem structural_form [JsonWriter] {h : Heap} {v : Value} (hopen : h.Open v) :
    (∀ j, Written h [] v j ↔ h.toJson v = j) ∧
    ((∀ s, v ≠ .scalar s) → h.render v = (h.toJson v).compact) ∧
    (∀ path x, Occurs h v path x → path.Nodup ∧ ∃ j, Written h path x j ∧
      j.Within (h.toJson v) ∧ ∀ r, x = .object r → (j = .string circularMark ↔ r ∈ path)) ∧
    (h.Acyclic v → ∀ f h' v', v'.rename f = v → Heap.Copies f h' h v' →
      h'.toJson v' = h.toJson v ∧ h'.render v' = h.render v) := by
  have hwritten : Written h [] v (h.toJson v) := (written_iff hopen).mpr rfl
  refine ⟨fun j => written_iff hopen, render_of_open hopen, fun path x ho => ?_, ?_⟩
  · obtain ⟨hn, j, hj, hwithin⟩ := ho.written hwritten
    refine ⟨hn, j, hj, hwithin, ?_⟩
    rintro r rfl
    exact hj.eq_mark_iff
  rintro hacyclic f h' v' rfl hcopies
  have hopen' : h'.Open v' := by
    intro r' hr'
    obtain ⟨rec', _, hrec', _⟩ := hcopies r' hr'
    rw [hrec']
    rfl
  have hform : h'.toJson v' = h.toJson (v'.rename f) := by
    have hcopy : Written h [] (v'.rename f) (h'.toJson v') :=
      ((written_iff hopen').mpr rfl).copy fun r' hr' =>
        ⟨hcopies r' hr', by simp, by simp, hacyclic (f r') (hcopies.reaches hr')⟩
    exact ((written_iff hopen).mp hcopy).symm
  refine ⟨hform, ?_⟩
  have hparts : (∀ s, v' ≠ .scalar s) → h'.render v' = h.render (v'.rename f) := by
    intro hv'
    rw [render_of_open hopen' hv', render_of_open hopen, hform]
    intro s hs
    cases v' with
    | scalar s' => exact hv' s' rfl
    | array items =>
      rw [Value.rename] at hs
      cases hs
    | object r =>
      rw [Value.rename] at hs
      cases hs
  cases v' with
  | scalar s =>
    rw [Value.rename]
    rfl
  | array items => exact hparts (by simp)
  | object r => exact hparts (by simp)

namespace Branches

def leaf : Record := { fields := ⟨[("n", .null)]⟩ }

/-- A record that mentions itself, and one that mentions a third one twice. -/
def heap : Heap where
  records := #[
    { fields := ⟨[("self", .object ⟨0⟩), ("none", .undefined),
        ("both", .array [.object ⟨1⟩, .undefined, .object ⟨0⟩])]⟩ },
    { fields := ⟨[("left", .object ⟨2⟩), ("right", .object ⟨2⟩)]⟩ },
    leaf]

/-- The second record with two leaves of its own. -/
def unshared : Heap where
  records := #[{}, { fields := ⟨[("left", .object ⟨2⟩), ("right", .object ⟨3⟩)]⟩ }, leaf, leaf]

def original (r : Ref) : Ref := if r = ⟨3⟩ then ⟨2⟩ else r

def leaves : Json := .object [("left", .object [("n", .null)]), ("right", .object [("n", .null)])]

theorem closed : heap.Closed := by
  unfold Heap.Closed
  decide

/-- Past the first record, references lead to later records only. -/
theorem lt_of_pointsTo {r s : Ref} (hr : 0 < r.index) (h : heap.PointsTo r s) :
    r.index < s.index := by
  obtain ⟨rec, hrec, p, hp, hs⟩ := h
  obtain ⟨n⟩ := r
  match n, hr with
  | 1, _ =>
    cases hrec
    change p ∈ [("left", Value.object ⟨2⟩), ("right", .object ⟨2⟩)] at hp
    simp only [List.mem_cons, List.not_mem_nil, or_false] at hp
    rcases hp with rfl | rfl <;> simp_all [Value.refs]
  | 2, _ =>
    cases hrec
    change p ∈ [("n", Value.null)] at hp
    simp only [List.mem_cons, List.not_mem_nil, or_false] at hp
    subst hp
    simp [Value.refs] at hs
  | n + 3, _ => cases hrec

theorem lt_of_transGen {r s : Ref} (hr : 0 < r.index)
    (h : Relation.TransGen heap.PointsTo r s) : r.index < s.index := by
  induction h with
  | single hp => exact lt_of_pointsTo hr hp
  | tail _ hp ih => exact ih.trans (lt_of_pointsTo (hr.trans ih) hp)

theorem acyclic : heap.Acyclic (.object ⟨1⟩) := by
  rintro r ⟨root, hroot, hreach⟩ hcycle
  obtain rfl : root = ⟨1⟩ := by simpa [Value.refs] using hroot
  have hr : 0 < r.index := by
    rcases Relation.reflTransGen_iff_eq_or_transGen.mp hreach with rfl | hpath
    · decide
    · exact (lt_of_transGen (by decide) hpath).trans' (by decide)
  exact absurd (lt_of_transGen hr hcycle) (Nat.lt_irrefl _)

theorem reaches_unshared {r : Ref} (hr : unshared.Reaches (.object ⟨1⟩) r) :
    r = ⟨1⟩ ∨ r = ⟨2⟩ ∨ r = ⟨3⟩ := by
  obtain ⟨root, hroot, hreach⟩ := hr
  induction hreach with
  | refl => exact .inl (by simpa [Value.refs] using hroot)
  | tail _ hp ih =>
    obtain ⟨rec, hrec, p, hp, hs⟩ := hp
    rcases ih with rfl | rfl | rfl <;> cases hrec
    · change p ∈ [("left", Value.object ⟨2⟩), ("right", .object ⟨3⟩)] at hp
      simp only [List.mem_cons, List.not_mem_nil, or_false] at hp
      rcases hp with rfl | rfl <;> simp_all [Value.refs]
    all_goals
      change p ∈ [("n", Value.null)] at hp
      simp only [List.mem_cons, List.not_mem_nil, or_false] at hp
      subst hp
      simp [Value.refs] at hs

theorem copies : Heap.Copies original unshared heap (.object ⟨1⟩) := by
  intro r hr
  rcases reaches_unshared hr with rfl | rfl | rfl <;> exact ⟨_, _, rfl, rfl, rfl⟩

/-- A record inside of itself is marked there, and one with two places of its own is written at
both, as two records would be. -/
theorem marked_and_copied :
    heap.Open (.object ⟨0⟩) ∧ heap.Open (.object ⟨1⟩) ∧
    heap.toJson (.object ⟨0⟩) = .object [("self", .string circularMark),
      ("both", .array [leaves, .null, .string circularMark])] ∧
    heap.Acyclic (.object ⟨1⟩) ∧ Heap.Copies original unshared heap (.object ⟨1⟩) ∧
    unshared.toJson (.object ⟨1⟩) = heap.toJson (.object ⟨1⟩) ∧
    heap.toJson (.object ⟨1⟩) = leaves := by
  have hopen : heap.Open (.object ⟨0⟩) := closed.isOpen (by decide)
  have hopen' : heap.Open (.object ⟨1⟩) := closed.isOpen (by decide)
  have hcyclic := structural_form hopen
  have hshared := structural_form hopen'
  have hleaf : ∀ path, (⟨2⟩ : Ref) ∉ path → Written heap path (.object ⟨2⟩)
      (.object [("n", .null)]) := fun path hp =>
    .expanded hp rfl (.cons "n" rfl (.scalar _ .null) (.nil _))
  have hleaves : ∀ path, (⟨1⟩ : Ref) ∉ path → (⟨2⟩ : Ref) ∉ path →
      Written heap path (.object ⟨1⟩) leaves := fun path hp hq =>
    .expanded hp rfl (.cons "left" rfl (hleaf _ (by simpa using hq))
      (.cons "right" rfl (hleaf _ (by simpa using hq)) (.nil _)))
  refine ⟨hopen, hopen', (hcyclic.1 _).mp (.expanded (by simp) rfl ?_), acyclic, copies, ?_, ?_⟩
  · exact .cons "self" rfl (.circular (by simp)) (.omitted "none"
      (.cons "both" rfl (.array (.cons (hleaves _ (by decide) (by decide))
        (.cons (.scalar _ .undefined) (.cons (.circular (by simp)) (.nil _))))) (.nil _)))
  · exact (hshared.2.2.2 acyclic original unshared _ rfl copies).1
  · exact (hshared.1 _).mp (hleaves [] (by simp) (by simp))

end Branches

end Contracts
