import Contracts.Input
import Contracts.Proofs.Relations
import Mathlib.Data.List.Nodup
import Mathlib.Data.List.Perm.Subperm
import Mathlib.Data.PEquiv

/-!
# Contracts.Proofs.Renaming

Heaps whose records have other names.

* `Value.Alike`, `Record.Alike`, `Heap.Alike` — equal up to a partial bijection of references.
* `Heap.Alike.unfold_eq` — what is alike unfolds to the same tree.
* `Heap.Alike.render_eq`, `Heap.Alike.toJson_eq`, `Heap.Alike.label_eq` — so messages, traces and
  labels are the same.
* `Heap.Alike.set?`, `Heap.Alike.alloc` — changes of records that stand for each other, and new ones
  that do from then on.
-/

namespace Contracts

open List (Forall₂)

variable {ρ ρ' : Ref ≃. Ref}

/-- References that stand for each other are told apart alike. -/
theorem ref_eq_iff {r r' s s' : Ref} (hr : r' ∈ ρ r) (hs : s' ∈ ρ s) : r = s ↔ r' = s' := by
  constructor
  · rintro rfl
    exact Option.mem_unique hr hs
  · rintro rfl
    exact ρ.inj hr hs

/-! ## Values -/

namespace Value

mutual

/-- Values that are equal up to the names of records. -/
def Alike (ρ : Ref ≃. Ref) : Value → Value → Prop
  | .scalar a, .scalar b => a = b
  | .array as, .array bs => AlikeItems ρ as bs
  | .object r, .object r' => r' ∈ ρ r
  | _, _ => False

def AlikeItems (ρ : Ref ≃. Ref) : List Value → List Value → Prop
  | [], [] => True
  | a :: as, b :: bs => Alike ρ a b ∧ AlikeItems ρ as bs
  | _, _ => False

end

theorem Alike.cases : ∀ {v v' : Value}, Alike ρ v v' →
    (∃ s, v = .scalar s ∧ v' = .scalar s) ∨
      (∃ vs vs', v = .array vs ∧ v' = .array vs' ∧ AlikeItems ρ vs vs') ∨
      ∃ r r', v = .object r ∧ v' = .object r' ∧ r' ∈ ρ r
  | .scalar _, .scalar _, h => .inl ⟨_, rfl, congrArg _ h.symm⟩
  | .array _, .array _, h => .inr (.inl ⟨_, _, rfl, rfl, h⟩)
  | .object _, .object _, h => .inr (.inr ⟨_, _, rfl, rfl, h⟩)

mutual

theorem Alike.mono (hρ : ρ ≤ ρ') : ∀ {v v' : Value}, Alike ρ v v' → Alike ρ' v v'
  | .scalar _, .scalar _, h => h
  | .array _, .array _, h => AlikeItems.mono hρ h
  | .object _, .object _, h => hρ _ _ h

theorem AlikeItems.mono (hρ : ρ ≤ ρ') :
    ∀ {vs vs' : List Value}, AlikeItems ρ vs vs' → AlikeItems ρ' vs vs'
  | [], [], _ => trivial
  | _ :: _, _ :: _, h => ⟨Alike.mono hρ h.1, AlikeItems.mono hρ h.2⟩

end

theorem alikeItems_iff : ∀ {vs vs' : List Value}, AlikeItems ρ vs vs' ↔ Forall₂ (Alike ρ) vs vs'
  | [], [] => by simp [AlikeItems]
  | [], _ :: _ => by simp [AlikeItems]
  | _ :: _, [] => by simp [AlikeItems]
  | _ :: _, _ :: _ => by rw [AlikeItems, alikeItems_iff, List.forall₂_cons]

mutual

/-- Values that are alike compare alike. -/
theorem Alike.same_eq : ∀ {a a' b b' : Value}, Alike ρ a a' → Alike ρ b b' → a.same b = a'.same b'
  | .scalar _, .scalar _, .scalar _, .scalar _, ha, hb => by rw [show _ = _ from ha, show _ = _ from hb]
  | .scalar _, .scalar _, .array _, .array _, _, _ => rfl
  | .scalar _, .scalar _, .object _, .object _, _, _ => rfl
  | .array _, .array _, .scalar _, .scalar _, _, _ => rfl
  | .array _, .array _, .array _, .array _, ha, hb => by
    rw [Value.same, Value.same]
    exact AlikeItems.same_eq ha hb
  | .array _, .array _, .object _, .object _, _, _ => rfl
  | .object _, .object _, .scalar _, .scalar _, _, _ => rfl
  | .object _, .object _, .array _, .array _, _, _ => rfl
  | .object r, .object r', .object s, .object s', ha, hb => by
    rw [Value.same, Value.same, Bool.eq_iff_iff, beq_iff_eq, beq_iff_eq]
    exact ref_eq_iff ha hb

theorem AlikeItems.same_eq : ∀ {as as' bs bs' : List Value}, AlikeItems ρ as as' →
    AlikeItems ρ bs bs' → sameItems as bs = sameItems as' bs'
  | [], [], [], [], _, _ => rfl
  | [], [], _ :: _, _ :: _, _, _ => rfl
  | _ :: _, _ :: _, [], [], _, _ => rfl
  | _ :: _, _ :: _, _ :: _, _ :: _, ha, hb => by
    rw [sameItems, sameItems, Alike.same_eq ha.1 hb.1, AlikeItems.same_eq ha.2 hb.2]

end

mutual

/-- Values that are alike unfold alike if references that stand for each other do. -/
theorem Alike.unfoldWith_eq {f g : Ref → Tree} (hfg : ∀ r r', r' ∈ ρ r → f r = g r') :
    ∀ {v v' : Value}, Alike ρ v v' → v.unfoldWith f = v'.unfoldWith g
  | .scalar _, .scalar _, h => congrArg Tree.scalar h
  | .array _, .array _, h => congrArg Tree.array (AlikeItems.unfoldItems_eq hfg h)
  | .object _, .object _, h => hfg _ _ h

theorem AlikeItems.unfoldItems_eq {f g : Ref → Tree} (hfg : ∀ r r', r' ∈ ρ r → f r = g r') :
    ∀ {vs vs' : List Value}, AlikeItems ρ vs vs' → unfoldItems f vs = unfoldItems g vs'
  | [], [], _ => rfl
  | _ :: _, _ :: _, h => by
    rw [unfoldItems, unfoldItems, Alike.unfoldWith_eq hfg h.1, AlikeItems.unfoldItems_eq hfg h.2]

end

end Value

/-! ## Records and heaps -/

/-- Records with the same label, borrow and field names, and with values that are alike. -/
structure Record.Alike (ρ : Ref ≃. Ref) (rec rec' : Record) : Prop where
  className : rec.className = rec'.className
  borrow : rec.borrow = rec'.borrow
  fields : Forall₂ (fun p q => p.1 = q.1 ∧ p.2.Alike ρ q.2) rec.fields.entries rec'.fields.entries

/-- Heaps in which references that stand for each other are those of records that are alike. -/
def Heap.Alike (ρ : Ref ≃. Ref) (h h' : Heap) : Prop :=
  ∀ r r', r' ∈ ρ r → ∃ rec rec', h.record? r = some rec ∧ h'.record? r' = some rec' ∧
    rec.Alike ρ rec'

theorem Record.Alike.mono (hρ : ρ ≤ ρ') {rec rec' : Record} (h : rec.Alike ρ rec') :
    rec.Alike ρ' rec' :=
  { h with fields := h.fields.imp fun _ _ hp => ⟨hp.1, hp.2.mono hρ⟩ }

namespace Heap

theorem lt_size_of_record? {h : Heap} {r : Ref} {rec : Record} (hr : h.record? r = some rec) :
    r.index < h.size :=
  (Array.getElem?_eq_some_iff.mp hr).1

/-- A path that holds no record twice is no longer than the heap. -/
theorem length_le_size {h : Heap} {path : List Ref} (hn : path.Nodup)
    (hp : ∀ r ∈ path, r.index < h.size) : path.length ≤ h.size := by
  have hinj : Function.Injective Ref.index := by
    rintro ⟨a⟩ ⟨b⟩ hab
    exact congrArg Ref.mk hab
  have hmap : (path.map Ref.index).Nodup := List.Nodup.map hinj hn
  have hsub : path.map Ref.index ⊆ List.range h.size := by
    intro n hn
    obtain ⟨r, hr, rfl⟩ := List.mem_map.mp hn
    exact List.mem_range.mpr (hp r hr)
  simpa using (List.Nodup.subperm hmap hsub).length_le

theorem mem_path_iff {path path' : List Ref} (hp : Forall₂ (fun r r' => r' ∈ ρ r) path path')
    {r r' : Ref} (hr : r' ∈ ρ r) : r ∈ path ↔ r' ∈ path' := by
  induction hp with
  | nil => simp
  | @cons a b path path' hab _ ih =>
    rw [List.mem_cons, List.mem_cons, ref_eq_iff hr hab, ih]

namespace Alike

section

variable {h h' : Heap} (hh : Heap.Alike ρ h h')

include hh

theorem readable? {r r' : Ref} (hr : r' ∈ ρ r) :
    Option.Rel (Record.Alike ρ) (h.readable? r) (h'.readable? r') := by
  obtain ⟨rec, rec', hrec, hrec', halike⟩ := hh r r' hr
  rw [Heap.readable?, Heap.readable?, hrec, hrec']
  simp only [Option.filter_some, halike.borrow]
  split
  · exact .some halike
  · exact .none

theorem path_bounds {path path' : List Ref} (hp : Forall₂ (fun r r' => r' ∈ ρ r) path path') :
    (∀ r ∈ path, r.index < h.size) ∧ ∀ r ∈ path', r.index < h'.size := by
  induction hp with
  | nil => simp
  | @cons a b path path' hab _ ih =>
    obtain ⟨rec, rec', hrec, hrec', _⟩ := hh a b hab
    simp only [List.mem_cons, forall_eq_or_imp]
    exact ⟨⟨lt_size_of_record? hrec, ih.1⟩, lt_size_of_record? hrec', ih.2⟩

/-- Below paths that stand for each other records unfold to the same tree. Both depths suffice,
since a path holds no record twice. -/
theorem expand_eq {d d' : Nat} {path path' : List Ref}
    (hp : Forall₂ (fun r r' => r' ∈ ρ r) path path') (hn : path.Nodup) (hn' : path'.Nodup)
    (hd : h.size < path.length + d) (hd' : h'.size < path'.length + d') {r r' : Ref}
    (hr : r' ∈ ρ r) : h.expand d path r = h'.expand d' path' r' := by
  have hlen := length_le_size hn (hh.path_bounds hp).1
  have hlen' := length_le_size hn' (hh.path_bounds hp).2
  induction d generalizing d' path path' r r' with
  | zero => omega
  | succ d ih =>
    cases d' with
    | zero => omega
    | succ d' =>
      simp only [expand, mem_path_iff hp hr]
      by_cases hmem : r' ∈ path'
      · rw [if_pos hmem, if_pos hmem]
      rw [if_neg hmem, if_neg hmem]
      have hread := hh.readable? hr
      revert hread
      rcases h.readable? r with _ | rec <;> rcases h'.readable? r' with _ | rec' <;> intro hread
      · rfl
      · cases hread
      · cases hread
      cases hread with
      | some halike =>
        have hnext : ∀ a a', a' ∈ ρ a → h.expand d (r :: path) a = h'.expand d' (r' :: path') a' := by
          intro a a' ha
          have hmem' : r ∉ path := fun hm => hmem ((mem_path_iff hp hr).mp hm)
          have hp' : Forall₂ (fun r r' => r' ∈ ρ r) (r :: path) (r' :: path') := .cons hr hp
          have hn₂ := List.nodup_cons.mpr ⟨hmem', hn⟩
          have hn₂' := List.nodup_cons.mpr ⟨hmem, hn'⟩
          have hlen₂ := length_le_size hn₂ (hh.path_bounds hp').1
          have hlen₂' := length_le_size hn₂' (hh.path_bounds hp').2
          rw [List.length_cons] at hlen₂ hlen₂'
          refine ih hp' hn₂ hn₂' ?_ ?_ ha ?_ ?_ <;> rw [List.length_cons] <;> omega
        simp only [halike.className]
        refine congrArg (Tree.object rec'.className) (map_eq_of_forall₂ ?_ halike.fields)
        rintro ⟨key, v⟩ ⟨_, v'⟩ ⟨rfl, hv⟩
        exact congrArg (Prod.mk key) (hv.unfoldWith_eq hnext)

theorem unfold_eq {v v' : Value} (hv : v.Alike ρ v') : h.unfold v = h'.unfold v' :=
  hv.unfoldWith_eq fun _ _ hr => hh.expand_eq .nil .nil .nil (by simp) (by simp) hr

theorem json?_eq [JsonWriter] {v v' : Value} (hv : v.Alike ρ v') : h.json? v = h'.json? v' := by
  rw [json?, json?, hh.unfold_eq hv]

end

mutual

theorem coerce?_eq [JsonWriter] {h h' : Heap} (hh : Heap.Alike ρ h h') :
    ∀ {v v' : Value}, v.Alike ρ v' → h.coerce? v = h'.coerce? v'
  | .scalar s, .scalar _, hv => by
    cases hv
    cases s <;> simp only [coerce?]
  | .array _, .array _, hv => by rw [coerce?, coerce?, coerceItems?_eq hh hv]
  | .object r, .object r', hv => by
    rw [coerce?, coerce?]
    exact map_eq_of_optionRel (fun rec rec' hrec => by rw [hrec.className]) (hh.readable? hv)

theorem coerceItems?_eq [JsonWriter] {h h' : Heap} (hh : Heap.Alike ρ h h') :
    ∀ {vs vs' : List Value}, Value.AlikeItems ρ vs vs' → h.coerceItems? vs = h'.coerceItems? vs'
  | [], [], _ => rfl
  | v :: rest, v' :: rest', hvs => by
    have hv := coerce?_eq hh hvs.1
    have hrest := coerceItems?_eq hh hvs.2
    rcases hvs.1.cases with ⟨s, rfl, rfl⟩ | ⟨as, bs, rfl, rfl, _⟩ | ⟨r, r', rfl, rfl, _⟩
    · cases s <;> simp only [coerceItems?, hv, hrest]
    · simp only [coerceItems?, hv, hrest]
    · simp only [coerceItems?, hv, hrest]

end

section

variable {h h' : Heap} (hh : Heap.Alike ρ h h')

include hh

theorem renderParts_eq [JsonWriter] {v v' : Value} (hv : v.Alike ρ v') :
    h.renderParts v = h'.renderParts v' := by
  rw [renderParts, renderParts, hh.json?_eq hv, coerce?_eq hh hv]

theorem render_eq [JsonWriter] {v v' : Value} (hv : v.Alike ρ v') : h.render v = h'.render v' := by
  rcases hv.cases with ⟨s, rfl, rfl⟩ | ⟨as, bs, rfl, rfl, _⟩ | ⟨r, r', rfl, rfl, _⟩
  · rfl
  · exact hh.renderParts_eq hv
  · exact hh.renderParts_eq hv

theorem toJson_eq [JsonWriter] {v v' : Value} (hv : v.Alike ρ v') : h.toJson v = h'.toJson v' := by
  rw [toJson, toJson, hh.json?_eq hv, hh.render_eq hv]

theorem className?_eq {r r' : Ref} (hr : r' ∈ ρ r) : h.className? r = h'.className? r' := by
  rw [Heap.className?, Heap.className?]
  have hread := hh.readable? hr
  revert hread
  rcases h.readable? r with _ | rec <;> rcases h'.readable? r' with _ | rec' <;> intro hread
  · rfl
  · cases hread
  · cases hread
  · cases hread with
    | some halike => exact halike.className

theorem label_eq (site : CallSite) {v v' : Value} (hv : v.Alike ρ v') :
    site.label h v = site.label h' v' := by
  cases hsite : site.className with
  | some c => simp only [CallSite.label, hsite]
  | none =>
    rcases hv.cases with ⟨s, rfl, rfl⟩ | ⟨as, bs, rfl, rfl, _⟩ | ⟨r, r', rfl, rfl, hr⟩
    · rfl
    · simp only [CallSite.label, hsite]
    · simp only [CallSite.label, hsite, hh.className?_eq hr]

end

end Alike

end Heap

/-! ## Reading a record -/

theorem Heap.Alike.getField {h h' : Heap} (hh : Heap.Alike ρ h h') (field : String)
    {v v' : Value} (hv : v.Alike ρ v') : (h.getField v field).Alike ρ (h'.getField v' field) := by
  rcases hv.cases with ⟨s, rfl, rfl⟩ | ⟨as, bs, rfl, rfl, _⟩ | ⟨r, r', rfl, rfl, hr⟩
  · exact rfl
  · exact rfl
  · have hread := hh.readable? hr
    simp only [Heap.getField, Heap.get]
    revert hread
    rcases h.readable? r with _ | rec <;> rcases h'.readable? r' with _ | rec' <;> intro hread
    · exact rfl
    · cases hread
    · cases hread
    cases hread with
    | some halike =>
      have hfind := Table.Alike.get? halike.fields field
      simp only [Option.bind_some]
      revert hfind
      generalize rec.fields.get? field = x
      generalize rec'.fields.get? field = y
      rintro (hv | _)
      · exact hv
      · exact rfl

/-! ## Writing a record -/

theorem Heap.record?_modify (h : Heap) (r s : Ref) (f : Record → Record) :
    (h.modify r f).record? s = if r = s then (h.record? s).map f else h.record? s := by
  simp only [Heap.record?, Heap.modify, Array.getElem?_modify]
  obtain ⟨a⟩ := r
  obtain ⟨b⟩ := s
  simp only [Ref.mk.injEq]

theorem Heap.size_modify (h : Heap) (r : Ref) (f : Record → Record) :
    (h.modify r f).size = h.size := by
  simp only [Heap.size, Heap.modify, Array.size_modify]

theorem Heap.Alike.modify {h h' : Heap} (hh : Heap.Alike ρ h h') {r r' : Ref} (hr : r' ∈ ρ r)
    {f g : Record → Record} (hfg : ∀ rec rec', rec.Alike ρ rec' → (f rec).Alike ρ (g rec')) :
    Heap.Alike ρ (h.modify r f) (h'.modify r' g) := by
  intro s s' hs
  obtain ⟨rec, rec', hrec, hrec', halike⟩ := hh s s' hs
  rw [Heap.record?_modify, Heap.record?_modify, hrec, hrec']
  by_cases hrs : r = s
  · rw [if_pos hrs, if_pos ((ref_eq_iff hr hs).mp hrs)]
    exact ⟨_, _, rfl, rfl, hfg _ _ halike⟩
  · rw [if_neg hrs, if_neg fun hrs' => hrs ((ref_eq_iff hr hs).mpr hrs')]
    exact ⟨_, _, rfl, rfl, halike⟩

theorem Heap.Alike.set? {h h' : Heap} (hh : Heap.Alike ρ h h') {r r' : Ref} (hr : r' ∈ ρ r)
    (field : String) {v v' : Value} (hv : v.Alike ρ v') :
    Option.Rel (Heap.Alike ρ) (h.set? r field v) (h'.set? r' field v') := by
  obtain ⟨rec, rec', hrec, hrec', halike⟩ := hh r r' hr
  simp only [Heap.set?, hrec, hrec', halike.borrow]
  split
  · exact .some (hh.modify hr fun _ _ hab => { hab with fields := Table.Alike.put hab.fields _ hv })
  · exact .none

theorem Heap.Alike.hold? {h h' : Heap} (hh : Heap.Alike ρ h h') {r r' : Ref} (hr : r' ∈ ρ r) :
    Option.Rel (Heap.Alike ρ) (h.hold? r) (h'.hold? r') := by
  obtain ⟨rec, rec', hrec, hrec', halike⟩ := hh r r' hr
  simp only [Heap.hold?, hrec, hrec', halike.borrow]
  split
  · exact .some (hh.modify hr fun _ _ hab => { hab with borrow := rfl })
  · exact .none

theorem Heap.Alike.share? {h h' : Heap} (hh : Heap.Alike ρ h h') {r r' : Ref} (hr : r' ∈ ρ r) :
    Option.Rel (Heap.Alike ρ) (h.share? r) (h'.share? r') := by
  obtain ⟨rec, rec', hrec, hrec', halike⟩ := hh r r' hr
  simp only [Heap.share?, hrec, hrec', halike.borrow]
  split
  · exact .none
  · exact .some (hh.modify hr fun _ _ hab => { hab with borrow := rfl })

theorem Heap.Alike.release {h h' : Heap} (hh : Heap.Alike ρ h h') {r r' : Ref} (hr : r' ∈ ρ r) :
    Heap.Alike ρ (h.release r) (h'.release r') :=
  hh.modify hr fun _ _ hab => { hab with borrow := rfl }

/-! ## Making a record -/

/-- One more pair of references that stand for each other. -/
def extend (ρ : Ref ≃. Ref) (r r' : Ref) (hr : ρ r = none) (hr' : ρ.symm r' = none) :
    Ref ≃. Ref where
  toFun a := if a = r then some r' else ρ a
  invFun b := if b = r' then some r else ρ.symm b
  inv a b := by
    by_cases ha : a = r <;> by_cases hb : b = r'
    · simp [ha, hb]
    · rw [if_neg hb, if_pos ha, ha, ρ.eq_some_iff, hr]
      simp [Ne.symm hb]
    · rw [if_pos hb, if_neg ha, hb, ← ρ.eq_some_iff, hr']
      simp [Ne.symm ha]
    · rw [if_neg hb, if_neg ha, ρ.eq_some_iff]

section

variable {r r' : Ref} {hr : ρ r = none} {hr' : ρ.symm r' = none}

theorem extend_apply (a : Ref) : extend ρ r r' hr hr' a = if a = r then some r' else ρ a := rfl

theorem mem_extend_self : r' ∈ extend ρ r r' hr hr' r := by
  rw [extend_apply, if_pos rfl]
  rfl

theorem le_extend : ρ ≤ extend ρ r r' hr hr' := by
  intro a b hab
  have hne : a ≠ r := by
    rintro rfl
    rw [Option.mem_def, hr] at hab
    cases hab
  rwa [extend_apply, if_neg hne]

end

theorem Heap.record?_alloc (h : Heap) (rec : Record) (r : Ref) :
    (h.alloc rec).2.record? r = if r.index = h.size then some rec else h.record? r := by
  simp only [Heap.alloc, Heap.record?, Heap.size, Array.getElem?_push]
  rfl

theorem Heap.record?_alloc_of_some {h : Heap} {r : Ref} {rec' : Record}
    (hr : h.record? r = some rec') (rec : Record) : (h.alloc rec).2.record? r = some rec' := by
  rw [Heap.record?_alloc, if_neg (Heap.lt_size_of_record? hr).ne, hr]

theorem Heap.size_alloc (h : Heap) (rec : Record) : (h.alloc rec).2.size = h.size + 1 := by
  simp only [Heap.alloc, Heap.size, Array.size_push]

/-- References of the next records stand for nothing yet. -/
theorem Heap.Alike.fresh {h h' : Heap} (hh : Heap.Alike ρ h h') :
    ρ ⟨h.size⟩ = none ∧ ρ.symm ⟨h'.size⟩ = none := by
  constructor
  · rw [Option.eq_none_iff_forall_not_mem]
    intro r' hr'
    obtain ⟨_, _, hrec, _, _⟩ := hh _ _ hr'
    exact absurd (Heap.lt_size_of_record? hrec) (lt_irrefl _)
  · rw [Option.eq_none_iff_forall_not_mem]
    intro r hr
    obtain ⟨_, _, _, hrec, _⟩ := hh _ _ (ρ.mem_iff_mem.mp hr)
    exact absurd (Heap.lt_size_of_record? hrec) (lt_irrefl _)

/-- Records that are alike and made at the same time stand for each other from then on. -/
theorem Heap.Alike.alloc {h h' : Heap} (hh : Heap.Alike ρ h h') (hr : ρ ⟨h.size⟩ = none)
    (hr' : ρ.symm ⟨h'.size⟩ = none) {rec rec' : Record} (hrec : rec.Alike ρ rec') :
    Heap.Alike (extend ρ ⟨h.size⟩ ⟨h'.size⟩ hr hr') (h.alloc rec).2 (h'.alloc rec').2 := by
  intro a a' ha
  rw [Option.mem_def, extend_apply] at ha
  split at ha
  · next hnew =>
    cases hnew
    cases ha
    refine ⟨rec, rec', ?_, ?_, hrec.mono le_extend⟩
    · exact (Heap.record?_alloc _ _ _).trans (if_pos rfl)
    · exact (Heap.record?_alloc _ _ _).trans (if_pos rfl)
  · obtain ⟨old, old', hold, hold', halike⟩ := hh a a' ha
    exact ⟨old, old', Heap.record?_alloc_of_some hold rec,
      Heap.record?_alloc_of_some hold' rec', halike.mono le_extend⟩

end Contracts
