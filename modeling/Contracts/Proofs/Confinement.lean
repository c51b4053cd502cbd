import Contracts.Proofs.Renaming
import Contracts.Proofs.Simulation.Protocol

/-!
# Contracts.Proofs.Confinement

Callbacks that stay within their own part of the state.

* `Layout`      — what each of several calls owns of the callbacks' part of the state.
* `Layout.view` — one call among others, and the same call on its own.
* `acts_writeField`, `acts_newRecord` — writing a record that it knows, and making one, stay within
  what a call owns.

A call knows the records in the domain of a partial bijection, which gives their names in the run
on its own. Everything else is out of its reach: it neither depends on it nor changes it.
-/

namespace Contracts

open List (Forall₂)

/-- The parts of several calls. -/
structure Layout (ι ε π : Type) where
  /-- What a call owns of the callbacks' part of the state. -/
  part : ι → ε → π
  /-- Parts that are equal up to the names of records. -/
  alike : (Ref ≃. Ref) → π → π → Prop
  alike_mono : ∀ {ρ ρ' p q}, ρ ≤ ρ' → alike ρ p q → alike ρ' p q

variable {ι ε π α : Type} {ρ ρ' : Ref ≃. Ref}

namespace Layout

/-- A call sees the same in both states. -/
structure Agree (L : Layout ι ε π) (i : ι) (ρ : Ref ≃. Ref) (w v : World ε) : Prop where
  heap : w.heap.Alike ρ v.heap
  mode : w.mode.current = v.mode.current
  own : L.alike ρ (L.part i w.own) (L.part i v.own)

/-- A call went on, and left what it does not know as it was. -/
structure Moved (L : Layout ι ε π) (i : ι) (ρ : Ref ≃. Ref) (w v : World ε) (ρ' : Ref ≃. Ref)
    (w' v' : World ε) : Prop where
  le : ρ ≤ ρ'
  /-- What it knows now and did not know before is new. -/
  fresh : ∀ r, ρ r = none → ρ' r ≠ none → w.heap.size ≤ r.index
  size : w.heap.size ≤ w'.heap.size
  kept : ∀ r, ρ r = none → r.index < w.heap.size → w'.heap.record? r = w.heap.record? r
  mode : w'.mode.current = w.mode.current
  others : ∀ j, j ≠ i → L.part j w'.own = L.part j w.own
  /-- Both runs wrote the same into the journal. -/
  entries : ∃ new new', w'.entries = new ++ w.entries ∧ v'.entries = new' ++ v.entries ∧
    Forall₂ (SameEvent (Value.Alike ρ')) new new'

variable {L : Layout ι ε π} {i : ι} {w v : World ε}

/-- The callbacks' part of the state aside, what a call has written and nothing else. -/
theorem Moved.refl (w v : World ε) : L.Moved i ρ w v ρ w v where
  le := le_rfl
  fresh _ h h' := absurd h h'
  size := le_rfl
  kept _ _ _ := rfl
  mode := rfl
  others _ _ := rfl
  entries := ⟨[], [], rfl, rfl, .nil⟩

theorem Moved.trans {ρ₁ ρ₂ ρ₃ : Ref ≃. Ref} {w₁ v₁ w₂ v₂ w₃ v₃ : World ε}
    (h : L.Moved i ρ₁ w₁ v₁ ρ₂ w₂ v₂) (h' : L.Moved i ρ₂ w₂ v₂ ρ₃ w₃ v₃) :
    L.Moved i ρ₁ w₁ v₁ ρ₃ w₃ v₃ where
  le := h.le.trans h'.le
  fresh r hr hr' := by
    by_cases hr₂ : ρ₂ r = none
    · exact h.size.trans (h'.fresh r hr₂ hr')
    · exact h.fresh r hr hr₂
  size := h.size.trans h'.size
  kept r hr hlt := by
    have hr₂ : ρ₂ r = none := by
      by_contra hne
      have := h.fresh r hr hne
      omega
    rw [h'.kept r hr₂ (lt_of_lt_of_le hlt h.size), h.kept r hr hlt]
  mode := h'.mode.trans h.mode
  others j hj := (h'.others j hj).trans (h.others j hj)
  entries := by
    obtain ⟨new, new', hw, hv, hnew⟩ := h.entries
    obtain ⟨more, more', hw', hv', hmore⟩ := h'.entries
    refine ⟨more ++ new, more' ++ new', ?_, ?_, ?_⟩
    · rw [hw', hw, List.append_assoc]
    · rw [hv', hv, List.append_assoc]
    · exact List.rel_append hmore (hnew.imp fun _ _ he => he.mono fun _ _ => Value.Alike.mono h'.le)

/-- A call among others, and the same call on its own. -/
def view (L : Layout ι ε π) (i : ι) : Comparison (Ref ≃. Ref) ε ε where
  agree := L.Agree i
  move := L.Moved i
  move_refl _ := Moved.refl _ _
  move_trans h h' := h.trans h'
  le_of_move h := h.le
  value := Value.Alike
  value_mono hρ h := h.mono hρ
  undefined _ := rfl
  render h hv := h.heap.render_eq hv
  toJson h hv := h.heap.toJson_eq hv
  label site h hv := h.heap.label_eq site hv
  log {ρ w v e e'} h he := by
    refine ⟨⟨h.heap, h.mode, h.own⟩, ?_⟩
    exact { Moved.refl w v with entries := ⟨[e], [e'], rfl, rfl, .cons he .nil⟩ }
  readMode {ρ w v} h := by
    refine ⟨h.mode, ⟨h.heap, ?_, h.own⟩, ?_⟩
    · simp only [ModeCell.current_read, h.mode]
    · exact { Moved.refl w v with mode := ModeCell.current_read w.mode }

end Layout

/-! ## Records that a call knows -/

namespace Layout

variable {L : Layout ι ε π} {i : ι}

/-- Writing a field of a record that it knows stays within what a call owns. -/
theorem acts_writeField {r r' : Ref} (hr : r' ∈ ρ r) (field : String) {v v' : Value}
    (hv : v.Alike ρ v') :
    (L.view i).Acts (fun _ => Eq) ρ (World.writeField r field v)
      (World.writeField r' field v') := by
  intro ρ₁ hρ w u hw
  have hr₁ := hρ _ _ hr
  obtain ⟨rec, rec', hrec, hrec', halike⟩ := hw.heap r r' hr₁
  simp only [World.writeField, World.exec_changeHeap, Heap.set?, hrec, hrec', halike.borrow]
  by_cases hfree : rec'.borrow = .free
  · simp only [if_pos hfree]
    refine ⟨ρ₁, ⟨hw.heap.modify hr₁ ?_, hw.mode, hw.own⟩, ?_, .ok rfl⟩
    · exact fun a b hab => { hab with fields := Table.Alike.put hab.fields field (hv.mono hρ) }
    · refine { Moved.refl w u with size := (Heap.size_modify _ _ _).ge, kept := fun s hs _ => ?_ }
      have hne : r ≠ s := by
        rintro rfl
        rw [Option.mem_def, hs] at hr₁
        cases hr₁
      rw [Heap.record?_modify, if_neg hne]
  · simp only [if_neg hfree]
    exact ⟨ρ₁, hw, Moved.refl w u, .error Abort.panic⟩

/-- A new record stays within what a call owns, which knows it from then on. -/
theorem acts_newRecord {rec rec' : Record} (hrec : rec.Alike ρ rec') :
    (L.view i).Acts (fun ρ r r' => r' ∈ ρ r) ρ (World.newRecord rec) (World.newRecord rec') := by
  intro ρ₁ hρ w u hw
  obtain ⟨hr, hr'⟩ := hw.heap.fresh
  refine ⟨extend ρ₁ _ _ hr hr', ⟨hw.heap.alloc hr hr' (hrec.mono hρ), hw.mode,
    L.alike_mono le_extend hw.own⟩, ?_, .ok mem_extend_self⟩
  refine { Moved.refl w u with le := le_extend, fresh := ?_, size := ?_, kept := ?_ }
  · intro a ha ha'
    rw [extend_apply] at ha'
    split at ha'
    · next hnew => exact hnew ▸ le_rfl
    · exact absurd ha ha'
  · exact (Heap.size_alloc _ _).ge.trans' (Nat.le_succ _)
  · intro a _ hlt
    exact (Heap.record?_alloc _ _ _).trans (if_neg hlt.ne)

end Layout

end Contracts
