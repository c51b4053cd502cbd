import Contracts.Proofs.Structure

/-!
# Contracts.Proofs.Borrows

Text of values while records are borrowed.

* `Heap.InReach`       — the records in reach of a value, whoever has borrowed those on the way.
* `exists_written_iff` — a value has a structural form if and only if no record in reach is held.
* `Heap.itemText`      — a value as an item of a joined list.
* `Heap.unshared`      — the records with those that readers share set free.
* `text_under_borrows` — which of its three texts a list or an object has, and its JSON form.

The structural form looks into objects, and the text of an item does not, so the one may be missing
where the other is there.
-/

namespace Contracts

open Relation (ReflTransGen)

/-! ## Records in reach, held or not -/

namespace Heap

/-- A field of the one record mentions the other, whoever has borrowed them. -/
def Mentions (h : Heap) (r s : Ref) : Prop :=
  ∃ rec, h.record? r = some rec ∧ ∃ p ∈ rec.fields.entries, s ∈ p.2.refs

/-- A record that the value mentions, or that a record in reach mentions. -/
def InReach (h : Heap) (v : Value) (s : Ref) : Prop := ∃ r ∈ v.refs, ReflTransGen h.Mentions r s

/-- A record in reach on a way that meets no record of `path`. -/
def InReachOff (h : Heap) (path : List Ref) (v : Value) (s : Ref) : Prop :=
  ∃ r ∈ v.refs, r ∉ path ∧ ReflTransGen (fun a b => h.Mentions a b ∧ b ∉ path) r s

variable {h : Heap} {path : List Ref} {v : Value} {r s : Ref}

theorem record?_of_readable? {rec : Record} (hr : h.readable? r = some rec) :
    h.record? r = some rec :=
  (Option.filter_eq_some_iff.mp hr).1

theorem isHeld_of_readable? {rec : Record} (hr : h.readable? r = some rec) :
    h.isHeld r = false := by
  rw [isHeld, hr]
  rfl

theorem isSome_readable?_iff : (h.readable? r).isSome ↔ h.isHeld r = false := by
  rw [isHeld]
  cases h.readable? r <;> simp

/-- A record that is there is held if and only if one writer has it. -/
theorem isHeld_iff {rec : Record} (hr : h.record? r = some rec) :
    h.isHeld r = true ↔ rec.borrow = .held := by
  rw [isHeld, readable?, hr]
  cases hb : rec.borrow <;> simp [hb, Option.filter]

theorem PointsTo.mentions (hp : h.PointsTo r s) : h.Mentions r s := by
  obtain ⟨rec, hrec, hs⟩ := hp
  exact ⟨rec, record?_of_readable? hrec, hs⟩

theorem Reaches.inReach (hr : h.Reaches v s) : h.InReach v s := by
  obtain ⟨root, hroot, hpath⟩ := hr
  exact ⟨root, hroot, ReflTransGen.mono (fun _ _ => PointsTo.mentions) _ _ hpath⟩

/-- A value all of whose records in reach can be read is open. -/
theorem open_of_inReach (hv : ∀ r, h.InReach v r → h.isHeld r = false) : h.Open v := by
  intro r hr
  exact isSome_readable?_iff.mpr (hv r hr.inReach)

theorem InReach.off (hr : h.InReach v s) : h.InReachOff [] v s := by
  obtain ⟨root, hroot, hpath⟩ := hr
  exact ⟨root, hroot, by simp, ReflTransGen.mono (fun _ _ hm => ⟨hm, by simp⟩) _ _ hpath⟩

theorem InReach.item {items : List Value} (hv : v ∈ items) (hs : h.InReach v s) :
    h.InReach (.array items) s := by
  obtain ⟨root, hroot, hpath⟩ := hs
  refine ⟨root, ?_, hpath⟩
  rw [Value.refs]
  exact Value.mem_refsOf.mpr ⟨v, hv, hroot⟩

theorem inReach_of_mem_refs (hr : r ∈ v.refs) : h.InReach v r := ⟨r, hr, .refl⟩

end Heap

/-- A way ends where it starts, or it leaves its start for good. -/
theorem eq_or_leaves {α : Type} {R : α → α → Prop} {a b : α} (hab : ReflTransGen R a b) :
    b = a ∨ ∃ c, R a c ∧ c ≠ a ∧ ReflTransGen (fun x y => R x y ∧ y ≠ a) c b := by
  induction hab with
  | refl => exact .inl rfl
  | @tail b c _ hbc ih =>
    by_cases hc : c = a
    · exact .inl hc
    rcases ih with rfl | ⟨d, had, hd, hdb⟩
    · exact .inr ⟨c, hbc, hc, .refl⟩
    · exact .inr ⟨d, had, hd, hdb.tail ⟨hbc, hc⟩⟩

/-- Past a record, what is in reach of it is in reach of its fields without it. -/
theorem Heap.InReachOff.eq_or_field {h : Heap} {path : List Ref} {r s : Ref} {rec : Record}
    (hs : h.InReachOff path (.object r) s) (hrec : h.record? r = some rec) :
    s = r ∨ ∃ p ∈ rec.fields.entries, h.InReachOff (r :: path) p.2 s := by
  obtain ⟨root, hroot, _, hpath⟩ := hs
  obtain rfl : root = r := by simpa [Value.refs] using hroot
  rcases eq_or_leaves hpath with heq | ⟨t, ⟨⟨rec', hrec', p, hp, ht⟩, hoff⟩, hne, hpath⟩
  · exact .inl heq
  cases hrec.symm.trans hrec'
  refine .inr ⟨p, hp, t, ht, by simp [hne, hoff], ReflTransGen.mono ?_ _ _ hpath⟩
  rintro a b ⟨⟨hm, hoff⟩, hne⟩
  exact ⟨hm, by simp [hne, hoff]⟩

/-! ## When there is a structural form -/

section Form

variable [JsonWriter] {h : Heap} {path : List Ref}

mutual

/-- What is written has no held record in reach past the records that it is met inside of. -/
theorem Written.not_held : {path : List Ref} → {v : Value} → {j : Json} → Written h path v j →
    ∀ s, h.InReachOff path v s → h.isHeld s = false
  | _, _, _, .scalar _ _, _, ⟨_, hr, _⟩ => by simp [Value.refs] at hr
  | _, _, _, .array hs, s, ⟨r, hr, hpath⟩ => by
    rw [Value.refs, Value.mem_refsOf] at hr
    obtain ⟨v, hv, hr⟩ := hr
    exact hs.not_held s v hv ⟨r, hr, hpath⟩
  | _, _, _, .circular hmem, _, ⟨r, hr, hoff, _⟩ => by
    obtain rfl : r = _ := by simpa [Value.refs] using hr
    exact absurd hmem hoff
  | _, _, _, .expanded _ hrec hs, s, hreach => by
    rcases hreach.eq_or_field (Heap.record?_of_readable? hrec) with rfl | ⟨p, hp, hreach⟩
    · exact Heap.isHeld_of_readable? hrec
    · exact hs.not_held s p hp hreach

theorem WrittenItems.not_held : {path : List Ref} → {vs : List Value} → {js : List Json} →
    WrittenItems h path vs js →
    ∀ s, ∀ v ∈ vs, h.InReachOff path v s → h.isHeld s = false
  | _, _, _, .nil _, _, _, hv, _ => absurd hv List.not_mem_nil
  | _, _, _, .cons hv hs, s, v, hmem, hreach => by
    rcases List.mem_cons.mp hmem with rfl | hmem
    · exact hv.not_held s hreach
    · exact hs.not_held s v hmem hreach

theorem WrittenFields.not_held : {path : List Ref} → {fields : List (String × Value)} →
    {members : List (String × Json)} → WrittenFields h path fields members →
    ∀ s, ∀ p ∈ fields, h.InReachOff path p.2 s → h.isHeld s = false
  | _, _, _, .nil _, _, _, hp, _ => absurd hp List.not_mem_nil
  | _, _, _, .omitted _ hs, s, p, hmem, hreach => by
    rcases List.mem_cons.mp hmem with rfl | hmem
    · obtain ⟨_, hr, _⟩ := hreach
      simp [Value.refs] at hr
    · exact hs.not_held s p hmem hreach
  | _, _, _, .cons _ _ hv hs, s, p, hmem, hreach => by
    rcases List.mem_cons.mp hmem with rfl | hmem
    · exact hv.not_held s hreach
    · exact hs.not_held s p hmem hreach

end

section
variable {expand : Ref → Tree}

mutual

/-- A value has a JSON form only if the records that it mentions have one. -/
theorem isSome_json?_of_mem : (v : Value) → (v.unfoldWith expand).json?.isSome →
    ∀ r ∈ v.refs, (expand r).json?.isSome
  | .scalar _, _, _, hr => by simp [Value.refs] at hr
  | .object _, hj, r, hr => by
    obtain rfl : r = _ := by simpa [Value.refs] using hr
    rwa [Value.unfoldWith] at hj
  | .array items, hj, r, hr => by
    rw [Value.unfoldWith, Tree.json?, Option.isSome_map] at hj
    rw [Value.refs] at hr
    exact isSome_jsonItems?_of_mem items hj r hr

theorem isSome_jsonItems?_of_mem : (vs : List Value) →
    (Tree.jsonItems? (unfoldItems expand vs)).isSome →
    ∀ r ∈ Value.refsOf vs, (expand r).json?.isSome
  | [], _, _, hr => by simp [Value.refsOf] at hr
  | v :: rest, hj, r, hr => by
    rw [unfoldItems, Tree.jsonItems?] at hj
    cases hv : (v.unfoldWith expand).json? with
    | none => simp [hv] at hj
    | some j =>
      cases hs : Tree.jsonItems? (unfoldItems expand rest) with
      | none => simp [hs] at hj
      | some js =>
        rw [Value.refsOf, List.mem_append] at hr
        rcases hr with hr | hr
        · exact isSome_json?_of_mem v (by rw [hv]; rfl) r hr
        · exact isSome_jsonItems?_of_mem rest (by rw [hs]; rfl) r hr

end

end

theorem isSome_jsonFields?_of_mem {depth : Nat} (fields : List (String × Value))
    (hj : (Tree.jsonFields?
      (fields.map fun (k, v) => (k, v.unfoldWith (h.expand depth path)))).isSome) :
    ∀ p ∈ fields, ∀ r ∈ p.2.refs, (h.expand depth path r).json?.isSome := by
  induction fields with
  | nil => simp
  | cons p rest ih =>
    obtain ⟨key, v⟩ := p
    rw [List.map_cons, Tree.jsonFields?, isUndefined_unfoldWith] at hj
    rw [List.forall_mem_cons]
    cases hu : v.isUndefined with
    | true =>
      rw [hu, if_pos rfl] at hj
      refine ⟨fun r hr => ?_, ih hj⟩
      cases v with
      | scalar s => simp [Value.refs] at hr
      | array items => cases hu
      | object r => cases hu
    | false =>
      rw [hu, if_neg Bool.false_ne_true] at hj
      cases hv : (v.unfoldWith (h.expand depth path)).json? with
      | none => simp [hv] at hj
      | some j =>
        refine ⟨isSome_json?_of_mem v (by rw [hv]; rfl), ih ?_⟩
        cases hs : Tree.jsonFields?
            (rest.map fun (k, v) => (k, v.unfoldWith (h.expand depth path))) with
        | none => simp [hs] at hj
        | some members => rfl

/-- A record that has a JSON form is written as the rules say, held records or not. -/
theorem exists_written_of_isSome {depth : Nat} {r : Ref}
    (hj : (h.expand depth path r).json?.isSome) (hn : path.Nodup)
    (hp : ∀ s ∈ path, s.index < h.size) (hd : h.size < path.length + depth) :
    ∃ j, (h.expand depth path r).json? = some j ∧ Written h path (.object r) j := by
  induction depth generalizing path r with
  | zero =>
    have hlen := Heap.length_le_size hn hp
    omega
  | succ depth ih =>
    rw [Heap.expand] at hj ⊢
    by_cases hmem : r ∈ path
    · rw [if_pos hmem]
      exact ⟨_, by rw [Tree.json?], .circular hmem⟩
    rw [if_neg hmem] at hj ⊢
    cases hrec : h.readable? r with
    | none => simp [hrec, Tree.json?] at hj
    | some rec =>
      simp only [hrec, Tree.json?, Option.isSome_map] at hj ⊢
      have hlt : r.index < h.size := Heap.lt_size_of_record? (Heap.record?_of_readable? hrec)
      have hfields : ∀ p ∈ rec.fields.entries, ∀ s ∈ p.2.refs,
          ∃ j, (h.expand depth (r :: path) s).json? = some j ∧
            Written h (r :: path) (.object s) j := by
        intro p hmemp s hs
        refine ih (isSome_jsonFields?_of_mem _ hj p hmemp s hs) (List.nodup_cons.mpr ⟨hmem, hn⟩)
          (List.forall_mem_cons.mpr ⟨hlt, hp⟩) ?_
        rw [List.length_cons]
        omega
      obtain ⟨members, hjson, hs⟩ := exists_writtenFields rec.fields.entries hfields
      exact ⟨.object members, by rw [hjson, Option.map_some], .expanded hmem hrec hs⟩

variable {v : Value}

theorem written_of_json? {j : Json} (hj : h.json? v = some j) : Written h [] v j := by
  have hunfold : (v.unfoldWith (h.expand (h.size + 1) [])).json?.isSome := by
    rw [← Heap.unfold, ← Heap.json?, hj]
    rfl
  have hrefs : ∀ r ∈ v.refs, ∃ j, (h.expand (h.size + 1) [] r).json? = some j ∧
      Written h [] (.object r) j := fun r hr =>
    exists_written_of_isSome (isSome_json?_of_mem v hunfold r hr) .nil (by simp) (by simp)
  obtain ⟨j', hj', hw⟩ := exists_written v hrefs
  cases hj.symm.trans hj'
  exact hw

/-- A value has a structural form if and only if no record in reach of it is held. -/
theorem exists_written_iff :
    (∃ j, Written h [] v j) ↔ ∀ r, h.InReach v r → h.isHeld r = false := by
  constructor
  · rintro ⟨j, hw⟩ r hr
    exact hw.not_held r hr.off
  · intro hv
    obtain ⟨j, _, hw⟩ := exists_json? (Heap.open_of_inReach hv)
    exact ⟨j, hw⟩

theorem json?_eq_some_iff {j : Json} : h.json? v = some j ↔ Written h [] v j := by
  constructor
  · exact written_of_json?
  · intro hw
    obtain ⟨j', hj', hw'⟩ := exists_json? (Heap.open_of_inReach (exists_written_iff.mp ⟨j, hw⟩))
    rw [hj', hw.unique hw']

end Form

/-! ## Items of a joined list -/

namespace Heap

section Items

variable [JsonWriter]

mutual

/-- A value as an item of a joined list: strings as they are, nothing for `undefined` and `null`,
lists joined in turn, and objects by their class name. -/
def itemText (h : Heap) : Value → String
  | .undefined | .null => ""
  | .string s => s
  | .array items => String.intercalate "," (itemTexts h items)
  | .object r => "[object " ++ (h.className? r).getD "Object" ++ "]"
  | .scalar s => h.render (.scalar s)

def itemTexts (h : Heap) : List Value → List String
  | [] => []
  | v :: rest => itemText h v :: itemTexts h rest

end

variable {h : Heap}

theorem itemTexts_eq_map (vs : List Value) : h.itemTexts vs = vs.map h.itemText := by
  induction vs with
  | nil => simp [itemTexts]
  | cons v rest ih => simp [itemTexts, ih]

/-- The text that a list gives to an item, unless a record in it is held. -/
def item? (h : Heap) (v : Value) : Option String :=
  match v with
  | .undefined | .null => some ""
  | v => h.coerce? v

theorem coerceItems?_cons (v : Value) (rest : List Value) :
    h.coerceItems? (v :: rest) = (do
      let text ← h.item? v
      let rest ← h.coerceItems? rest
      pure (text :: rest)) := by
  cases v with
  | scalar s => cases s <;> simp only [coerceItems?, item?]
  | array items => simp only [coerceItems?, item?]
  | object r => simp only [coerceItems?, item?]

theorem item?_scalar (s : Scalar) : h.item? (.scalar s) = some (h.itemText (.scalar s)) := by
  cases s <;> simp [item?, coerce?, itemText, render]

theorem item?_object (r : Ref) :
    h.item? (.object r) = (h.readable? r).map fun _ => h.itemText (.object r) := by
  change h.coerce? (.object r) = _
  rw [coerce?, itemText, className?]
  cases h.readable? r <;> rfl

theorem item?_array (items : List Value) :
    h.item? (.array items) = (h.coerceItems? items).map (String.intercalate ",") := by
  change h.coerce? (.array items) = _
  rw [coerce?]

/-- A list or an object is coerced as it is in a list, and shown so if it has no JSON form. -/
theorem render_eq {v : Value} (hv : ∀ s, v ≠ .scalar s) :
    h.render v = match h.json? v with
      | some j => j.compact
      | none => (h.item? v).getD unrenderable := by
  match v with
  | .scalar s => exact absurd rfl (hv s)
  | .array items => rfl
  | .object r => rfl

mutual

/-- The text of an item is there as long as no record that it mentions is held. -/
theorem item?_eq_some : (v : Value) → (∀ r ∈ v.refs, h.isHeld r = false) →
    h.item? v = some (h.itemText v)
  | .scalar s, _ => item?_scalar s
  | .object r, hv => by
    obtain ⟨rec, hrec⟩ :=
      Option.isSome_iff_exists.mp (isSome_readable?_iff.mpr (hv r (by simp [Value.refs])))
    rw [item?_object, hrec, Option.map_some]
  | .array items, hv => by
    rw [item?_array, coerceItems?_eq_some items hv, Option.map_some, itemText]

theorem coerceItems?_eq_some : (vs : List Value) → (∀ r ∈ Value.refsOf vs, h.isHeld r = false) →
    h.coerceItems? vs = some (h.itemTexts vs)
  | [], _ => by rw [coerceItems?, itemTexts]
  | v :: rest, hv => by
    rw [coerceItems?_cons, itemTexts, item?_eq_some v fun r hr => hv r (by simp [Value.refsOf, hr]),
      coerceItems?_eq_some rest fun r hr => hv r (by simp [Value.refsOf, hr])]
    rfl

end

mutual

/-- One held record among those that an item mentions leaves it without a text. -/
theorem item?_eq_none : (v : Value) → {r : Ref} → r ∈ v.refs → h.isHeld r = true →
    h.item? v = none
  | .scalar _, _, hr, _ => by simp [Value.refs] at hr
  | .object s, r, hr, hheld => by
    obtain rfl : r = s := by simpa [Value.refs] using hr
    rw [isHeld, Option.isNone_iff_eq_none] at hheld
    rw [item?_object, hheld, Option.map_none]
  | .array items, r, hr, hheld => by
    rw [Value.refs] at hr
    rw [item?_array, coerceItems?_eq_none items hr hheld, Option.map_none]

theorem coerceItems?_eq_none : (vs : List Value) → {r : Ref} → r ∈ Value.refsOf vs →
    h.isHeld r = true → h.coerceItems? vs = none
  | [], _, hr, _ => by simp [Value.refsOf] at hr
  | v :: rest, r, hr, hheld => by
    rw [Value.refsOf, List.mem_append] at hr
    rw [coerceItems?_cons]
    rcases hr with hr | hr
    · rw [item?_eq_none v hr hheld]
      rfl
    · rw [coerceItems?_eq_none rest hr hheld]
      cases h.item? v <;> rfl

end

end Items

end Heap

/-! ## Sharing -/

/-- The record, free if readers share it. -/
def Record.unshared (rec : Record) : Record :=
  { rec with borrow := if rec.borrow = .shared then .free else rec.borrow }

/-- The records with those that readers share set free. -/
def Heap.unshared (h : Heap) : Heap := ⟨h.records.map Record.unshared⟩

theorem Record.unshared_held_iff (rec : Record) :
    rec.unshared.borrow = .held ↔ rec.borrow = .held := by
  rw [unshared]
  cases rec.borrow <;> simp

namespace Heap

variable {h : Heap}

theorem readable?_unshared (r : Ref) :
    h.unshared.readable? r = (h.readable? r).map Record.unshared := by
  rw [readable?, readable?, record?, record?, unshared, Array.getElem?_map]
  cases h.records[r.index]? with
  | none => rfl
  | some rec =>
    have hb := rec.unshared_held_iff
    by_cases hheld : rec.borrow = .held <;> simp [Option.filter, hheld, hb]

theorem expand_unshared (depth : Nat) (path : List Ref) (r : Ref) :
    h.unshared.expand depth path r = h.expand depth path r := by
  induction depth generalizing path r with
  | zero => rfl
  | succ depth ih =>
    rw [expand, expand, readable?_unshared]
    have hfun : h.unshared.expand depth (r :: path) = h.expand depth (r :: path) :=
      funext fun s => ih (r :: path) s
    rw [hfun]
    cases h.readable? r <;> rfl

theorem json?_unshared [JsonWriter] (v : Value) : h.unshared.json? v = h.json? v := by
  have hsize : h.unshared.size = h.size := Array.size_map
  have hfun : h.unshared.expand (h.size + 1) [] = h.expand (h.size + 1) [] :=
    funext fun s => expand_unshared (h.size + 1) [] s
  rw [json?, json?, unfold, unfold, hsize, hfun]

theorem className?_unshared (r : Ref) : h.unshared.className? r = h.className? r := by
  rw [className?, className?, readable?_unshared]
  cases h.readable? r <;> rfl

mutual

theorem item?_unshared [JsonWriter] : (v : Value) → h.unshared.item? v = h.item? v
  | .scalar s => by cases s <;> rfl
  | .object r => by
    rw [item?_object, item?_object, readable?_unshared, Option.map_map, itemText, itemText,
      className?_unshared]
    rfl
  | .array items => by rw [item?_array, item?_array, coerceItems?_unshared items]

theorem coerceItems?_unshared [JsonWriter] :
    (vs : List Value) → h.unshared.coerceItems? vs = h.coerceItems? vs
  | [] => by rw [coerceItems?, coerceItems?]
  | v :: rest => by
    rw [coerceItems?_cons, coerceItems?_cons, item?_unshared v, coerceItems?_unshared rest]

end

theorem render_unshared [JsonWriter] (v : Value) : h.unshared.render v = h.render v := by
  cases v with
  | scalar s => rfl
  | array items => rw [render_eq (by simp), render_eq (by simp), json?_unshared, item?_unshared]
  | object r => rw [render_eq (by simp), render_eq (by simp), json?_unshared, item?_unshared]

theorem toJson_unshared [JsonWriter] (v : Value) : h.unshared.toJson v = h.toJson v := by
  rw [toJson, toJson, json?_unshared, render_unshared]

theorem alike_of_unshared [JsonWriter] {h' : Heap} (hh : h'.unshared = h.unshared) (v : Value) :
    h'.render v = h.render v ∧ h'.toJson v = h.toJson v := by
  constructor
  · rw [← render_unshared (h := h'), hh, render_unshared]
  · rw [← toJson_unshared (h := h'), hh, toJson_unshared]

end Heap

/-! ## The text of lists and objects -/

/-- A list or an object with a structural form is shown as the compact text of it. -/
theorem Written.render_eq [JsonWriter] {h : Heap} {v : Value} {j : Json} (hw : Written h [] v j)
    (hv : ∀ s, v ≠ .scalar s) : h.render v = j.compact ∧ h.toJson v = j := by
  have hjson := json?_eq_some_iff.mpr hw
  rw [Heap.render_eq hv, Heap.toJson, hjson]
  exact ⟨rfl, rfl⟩

/-- The text of a list or an object `v` while records are borrowed in any way. It is the compact
text of the structural form if and only if no record in reach is held, and then that form is the
JSON form. Otherwise it is the label of an object, or the joined items of a list, as long as none
of the records that `v` mentions itself is held; if one of these is, it is a fixed text. In both
cases the text is the JSON form. Records that readers share count as free. -/
theorem text_under_borrows [JsonWriter] {h : Heap} {v : Value} (hv : ∀ s, v ≠ .scalar s) :
    ((∃ j, Written h [] v j ∧ h.render v = j.compact) ↔ ∀ r, h.InReach v r → h.isHeld r = false) ∧
    (∀ j, Written h [] v j → h.render v = j.compact ∧ h.toJson v = j) ∧
    ((∃ r, h.InReach v r ∧ h.isHeld r = true) → h.toJson v = .string (h.render v) ∧
      ((∀ r ∈ v.refs, h.isHeld r = false) →
        (∀ r, v = .object r →
          h.render v = "[object " ++ (h.className? r).getD "Object" ++ "]") ∧
        (∀ items, v = .array items →
          h.render v = String.intercalate "," (items.map h.itemText))) ∧
      ((∃ r ∈ v.refs, h.isHeld r = true) → h.render v = unrenderable)) ∧
    (∀ h' : Heap, h'.unshared = h.unshared → ∀ x, h'.render x = h.render x ∧
      h'.toJson x = h.toJson x) := by
  have hform : ∀ j, Written h [] v j → h.render v = j.compact ∧ h.toJson v = j :=
    fun j hw => hw.render_eq hv
  refine ⟨?_, hform, ?_, fun h' hh x => Heap.alike_of_unshared hh x⟩
  · rw [← exists_written_iff]
    constructor
    · rintro ⟨j, hw, _⟩
      exact ⟨j, hw⟩
    · rintro ⟨j, hw⟩
      exact ⟨j, hw, (hform j hw).1⟩
  rintro ⟨s, hs, hheld⟩
  have hnone : h.json? v = none := by
    rw [Option.eq_none_iff_forall_ne_some]
    intro j hj
    have hfree := (json?_eq_some_iff.mp hj).not_held s hs.off
    rw [hfree] at hheld
    cases hheld
  have htext : h.render v = (h.item? v).getD unrenderable := by rw [Heap.render_eq hv, hnone]
  refine ⟨by rw [Heap.toJson, hnone, Option.getD_none], fun hfree => ?_, ?_⟩
  · rw [Heap.item?_eq_some v hfree, Option.getD_some] at htext
    constructor
    · rintro r rfl
      rw [htext, Heap.itemText]
    · rintro items rfl
      rw [htext, Heap.itemText, Heap.itemTexts_eq_map]
  · rintro ⟨r, hr, hheld⟩
    rw [htext, Heap.item?_eq_none v hr hheld, Option.getD_none]

namespace Vaults

/-- A bank that mentions itself and a branch. The branch has a vault. -/
def bank (branch vault : Borrow) : Heap where
  records := #[
    { className := some "Bank"
      fields := ⟨[("self", .object ⟨0⟩), ("branch", .array [.object ⟨1⟩])]⟩ },
    { fields := ⟨[("vault", .object ⟨2⟩)]⟩, borrow := branch },
    { className := some "Vault", borrow := vault }]

theorem vault_inReach (branch vault : Borrow) :
    (bank branch vault).InReach (.object ⟨0⟩) ⟨2⟩ := by
  have hbranch : (bank branch vault).Mentions ⟨0⟩ ⟨1⟩ := by
    refine ⟨_, rfl, ("branch", .array [.object ⟨1⟩]), List.mem_cons_of_mem _ List.mem_cons_self, ?_⟩
    simp [Value.refs, Value.refsOf]
  have hvault : (bank branch vault).Mentions ⟨1⟩ ⟨2⟩ := by
    refine ⟨_, rfl, ("vault", .object ⟨2⟩), List.mem_cons_self, ?_⟩
    simp [Value.refs]
  exact ⟨⟨0⟩, by simp [Value.refs], .tail (.single hbranch) hvault⟩

/-- While someone writes the vault, the bank has its label only, and a list has no text once it
mentions the vault itself. Readers of the branch change nothing. -/
theorem shown :
    (bank .shared .held).InReach (.object ⟨0⟩) ⟨2⟩ ∧ (bank .shared .held).isHeld ⟨2⟩ = true ∧
    (bank .shared .held).render (.object ⟨0⟩) = "[object Bank]" ∧
    (bank .shared .held).toJson (.object ⟨0⟩) = .string "[object Bank]" ∧
    (bank .shared .held).render (.array [.object ⟨0⟩, .null, .array [.string "a", .object ⟨1⟩]]) =
      "[object Bank],,a,[object Object]" ∧
    (bank .shared .held).render (.array [.object ⟨0⟩, .array [.object ⟨2⟩]]) = unrenderable ∧
    (bank .shared .free).render (.object ⟨0⟩) = (bank .free .free).render (.object ⟨0⟩) := by
  have hheld : (bank .shared .held).isHeld ⟨2⟩ = true := (Heap.isHeld_iff rfl).mpr rfl
  have hfree : (bank .shared .held).isHeld ⟨0⟩ = false ∧ (bank .shared .held).isHeld ⟨1⟩ = false :=
    ⟨rfl, rfl⟩
  have hreach := vault_inReach .shared .held
  obtain ⟨hjson, hlabel, _⟩ :=
    (text_under_borrows (h := bank .shared .held) (v := .object ⟨0⟩) (by simp)).2.2.1
      ⟨⟨2⟩, hreach, hheld⟩
  have hobject : (bank .shared .held).render (.object ⟨0⟩) = "[object Bank]" :=
    (hlabel (by simpa [Value.refs] using hfree.1)).1 _ rfl
  refine ⟨hreach, hheld, hobject, by rw [hjson, hobject], ?_, ?_, ?_⟩
  · obtain ⟨_, hitems, _⟩ := (text_under_borrows (h := bank .shared .held)
      (v := .array [.object ⟨0⟩, .null, .array [.string "a", .object ⟨1⟩]]) (by simp)).2.2.1
      ⟨⟨2⟩, hreach.item (by simp), hheld⟩
    rw [(hitems (by simp [Value.refs, Value.refsOf, hfree])).2 _ rfl]
    rfl
  · exact ((text_under_borrows (by simp)).2.2.1 ⟨⟨2⟩, Heap.inReach_of_mem_refs
      (by simp [Value.refs, Value.refsOf]), hheld⟩).2.2 ⟨⟨2⟩, by simp [Value.refs, Value.refsOf],
      hheld⟩
  · exact ((text_under_borrows (h := bank .free .free) (v := .object ⟨0⟩) (by simp)).2.2.2
      (bank .shared .free) (by simp [bank, Heap.unshared, Record.unshared]) (.object ⟨0⟩)).1

end Vaults

end Contracts
