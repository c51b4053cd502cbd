import Contracts.Proofs.Renaming
import Contracts.Proofs.Scripts

/-!
# Contracts.Proofs.Journals

Two runs of scripts that make different records and write different traces.

* `SameBut`      — journals with the same entries, but for blocks that stand in a relation.
* `World.Alike`  — states with the same failure mode and next symbol, whose records and names stand
  for each other, and whose contracts differ in their traces.
* `retracing`    — runs that keep such states alike and write journals that are the same but for
  blocks.
* `scripts_retracing` — what scripts do to a state keeps it so.
-/

namespace Contracts

open List (Forall₂)
open Script

variable {α β : Type} {ρ ρ' : Ref ≃. Ref} {B : List Event → List Event → Prop}
  {V V' : Value → Value → Prop}

/-! ## Journals -/

/-- Entries that stand for each other, one after the other, but for blocks of entries that stand in
a relation. -/
inductive SameBut (B : List Event → List Event → Prop) (V : Value → Value → Prop) :
    List Event → List Event → Prop where
  | nil : SameBut B V [] []
  | same {e e' : Event} {l l' : List Event} (he : SameEvent V e e') (h : SameBut B V l l') :
      SameBut B V (e :: l) (e' :: l')
  | block {b b' l l' : List Event} (hb : B b b') (h : SameBut B V l l') :
      SameBut B V (b ++ l) (b' ++ l')

namespace SameBut

variable {l l' m m' : List Event}

theorem append (h : SameBut B V l l') (hm : SameBut B V m m') : SameBut B V (l ++ m) (l' ++ m') := by
  induction h with
  | nil => exact hm
  | same he _ ih => exact .same he ih
  | block hb _ ih =>
    rw [List.append_assoc, List.append_assoc]
    exact .block hb ih

theorem mono (hV : ∀ v v', V v v' → V' v v') (h : SameBut B V l l') : SameBut B V' l l' := by
  induction h with
  | nil => exact .nil
  | same he _ ih => exact .same (he.mono hV) ih
  | block hb _ ih => exact .block hb ih

end SameBut

/-! ## States -/

/-- States that are the same up to the names of records and the traces of contracts, journals
aside. -/
structure World.Alike (T : TraceSetting Callback → TraceSetting Callback → Prop) (ρ : Ref ≃. Ref)
    (w v : State) : Prop where
  heap : w.heap.Alike ρ v.heap
  mode : w.mode.current = v.mode.current
  nextSymbol : w.nextSymbol = v.nextSymbol
  scope : w.own.Alike (Value.Alike ρ) T v.own

/-- Both runs have gone on, and have written journals that are the same but for blocks. -/
structure World.Went (B : List Event → List Event → Prop) (ρ : Ref ≃. Ref) (w v : State)
    (ρ' : Ref ≃. Ref) (w' v' : State) : Prop where
  le : ρ ≤ ρ'
  journal : ∃ new new', w'.journal = w.journal ++ new ∧ v'.journal = v.journal ++ new' ∧
    SameBut B (Value.Alike ρ') new new'

theorem Script.Scope.Alike.mono {T : TraceSetting Callback → TraceSetting Callback → Prop}
    (hV : ∀ v v', V v v' → V' v v') {s s' : Scope} (h : s.Alike V T s') : s.Alike V' T s' :=
  { h with
    values := h.values.mono hV
    instances := h.instances.mono fun _ _ hi => ⟨hi.ofClass, hV _ _ hi.this⟩ }

/-- Both runs have written nothing. -/
theorem World.went_of_entries {w v w' v' : State} (hρ : ρ ≤ ρ') (hw : w'.entries = w.entries)
    (hv : v'.entries = v.entries) : World.Went B ρ w v ρ' w' v' where
  le := hρ
  journal := ⟨[], [], by rw [journal, hw, List.append_nil]; rfl,
    by rw [journal, hv, List.append_nil]; rfl, .nil⟩

/-- Two runs of scripts that make different records and write different traces. -/
def retracing (B : List Event → List Event → Prop)
    (T : TraceSetting Callback → TraceSetting Callback → Prop) :
    Comparison (Ref ≃. Ref) Scope Scope where
  agree := World.Alike T
  move := World.Went B
  move_refl _ := World.went_of_entries le_rfl rfl rfl
  move_trans := by
    rintro _ _ _ _ _ _ _ _ _ ⟨hρ, new, new', hw, hv, hnew⟩ ⟨hρ', more, more', hw', hv', hmore⟩
    refine ⟨hρ.trans hρ', new ++ more, new' ++ more', ?_, ?_, ?_⟩
    · rw [hw', hw, List.append_assoc]
    · rw [hv', hv, List.append_assoc]
    · exact (hnew.mono fun _ _ => Value.Alike.mono hρ').append hmore
  le_of_move h := h.le
  value := Value.Alike
  value_mono hρ h := h.mono hρ
  undefined _ := rfl
  render h hv := h.heap.render_eq hv
  toJson h hv := h.heap.toJson_eq hv
  label site h hv := h.heap.label_eq site hv
  log h he := by
    refine ⟨⟨h.heap, h.mode, h.nextSymbol, h.scope⟩, le_rfl, [_], [_], ?_, ?_, .same he .nil⟩
    · exact World.journal_log _ _
    · exact World.journal_log _ _
  readMode h := by
    refine ⟨h.mode, ⟨h.heap, ?_, h.nextSymbol, h.scope⟩, World.went_of_entries le_rfl rfl rfl⟩
    simp only [ModeCell.current_read, h.mode]

/-! ## What scripts do to a state -/

section

variable {T : TraceSetting Callback → TraceSetting Callback → Prop}
  {R : (Ref ≃. Ref) → α → β → Prop}

/-- What is done with states that are alike and leaves the journals as they are. -/
theorem acts_of_exec {a : Effect α} {b : Effect β}
    (h : ∀ ρ', ρ ≤ ρ' → ∀ w v, World.Alike T ρ' w v →
      (a.exec w).2.entries = w.entries ∧ (b.exec v).2.entries = v.entries ∧
      ∃ ρ'', ρ' ≤ ρ'' ∧ World.Alike T ρ'' (a.exec w).2 (b.exec v).2 ∧
        Ends (R ρ'') (a.exec w).1 (b.exec v).1) :
    (retracing B T).Acts R ρ a b := by
  intro ρ' hρ w v hw
  obtain ⟨hentries, hentries', ρ'', hρ', halike, hends⟩ := h ρ' hρ w v hw
  exact ⟨ρ'', halike, World.went_of_entries hρ' hentries hentries', hends⟩

theorem acts_changeHeap {f g : Heap → Option Heap}
    (h : ∀ ρ', ρ ≤ ρ' → ∀ h h' : Heap, h.Alike ρ' h' → Option.Rel (Heap.Alike ρ') (f h) (g h')) :
    (retracing B T).Acts (fun _ => Eq) ρ (World.changeHeap f) (World.changeHeap g) := by
  refine acts_of_exec fun ρ' hρ w v hw => ?_
  have hchange := h ρ' hρ w.heap v.heap hw.heap
  rw [World.exec_changeHeap, World.exec_changeHeap]
  revert hchange
  generalize f w.heap = x
  generalize g v.heap = y
  rintro (hheap | _)
  · exact ⟨rfl, rfl, ρ', le_rfl, { hw with heap := hheap }, .ok rfl⟩
  · exact ⟨rfl, rfl, ρ', le_rfl, hw, .error _⟩

theorem acts_bindNames {f g : Scope → Scope}
    (h : ∀ ρ', ρ ≤ ρ' → ∀ s s' : Scope, s.Alike (Value.Alike ρ') T s' →
      (f s).Alike (Value.Alike ρ') T (g s')) :
    (retracing B T).Acts (fun _ => Eq) ρ (bindNames f) (bindNames g) := by
  refine acts_of_exec fun ρ' hρ w v hw => ?_
  exact ⟨rfl, rfl, ρ', le_rfl, { hw with scope := h ρ' hρ _ _ hw.scope }, .ok rfl⟩

theorem acts_create (className : Option String) {t t' : Table String Value}
    (ht : t.Alike (Value.Alike ρ) t') :
    (retracing B T).Acts (fun ρ r r' => r' ∈ ρ r) ρ
      (World.newRecord { className, fields := t }) (World.newRecord { className, fields := t' }) := by
  refine acts_of_exec fun ρ' hρ w v hw => ?_
  obtain ⟨hr, hr'⟩ := hw.heap.fresh
  have hrec : Record.Alike ρ' { className, fields := t } { className, fields := t' } :=
    ⟨rfl, rfl, ht.mono fun _ _ => Value.Alike.mono hρ⟩
  have hle : ρ' ≤ extend ρ' _ _ hr hr' := le_extend
  exact ⟨rfl, rfl, _, hle, ⟨hw.heap.alloc hr hr' hrec, hw.mode, hw.nextSymbol,
    hw.scope.mono fun _ _ => Value.Alike.mono hle⟩, .ok mem_extend_self⟩

theorem scripts_retracing : (retracing B T).Scripts T where
  shape hv := by
    rcases Value.Alike.cases hv with hs | ⟨vs, vs', rfl, rfl, hvs⟩ | ⟨r, r', rfl, rfl, _⟩
    · exact .inl hs
    · exact .inr (.inl ⟨vs, vs', rfl, rfl, Value.alikeItems_iff.mp hvs⟩)
    · exact .inr (.inr ⟨r, r', rfl, rfl⟩)
  field name hw hv := hw.heap.getField name hv
  create className _ _ ht := acts_create className ht
  write name _ _ hr hv := acts_changeHeap fun ρ' hρ _ _ hh =>
    hh.set? (hρ _ _ hr) name (hv.mono hρ)
  scalar _ _ := rfl
  array hvs := Value.alikeItems_iff.mpr hvs
  same ha hb := ha.same_eq hb
  className hw hr := hw.heap.className?_eq hr
  unfold hw hv := hw.heap.unfold_eq hv
  scope hw := hw.scope
  bindVariable name _ _ hv := acts_bindNames fun ρ' hρ _ _ hs =>
    { hs with values := hs.values.insert name (hv.mono hρ) }
  newSymbol description := acts_of_exec fun ρ' _ w v hw => by
    refine ⟨rfl, rfl, ρ', le_rfl, { hw with nextSymbol := ?_ }, .ok ?_⟩
    · exact congrArg (· + 1) hw.nextSymbol
    · exact congrArg (Symbol.mk · description) hw.nextSymbol
  setFailureMode m := acts_of_exec fun ρ' _ w v hw => by
    exact ⟨rfl, rfl, ρ', le_rfl, { hw with mode := rfl }, .ok hw.mode⟩
  borrow {_ r r'} change hr := by
    cases change with
    | hold => exact acts_changeHeap fun ρ' hρ _ _ hh => hh.hold? (hρ _ _ hr)
    | share => exact acts_changeHeap fun ρ' hρ _ _ hh => hh.share? (hρ _ _ hr)
    | release => exact acts_changeHeap fun ρ' hρ _ _ hh => .some (hh.release (hρ _ _ hr))

end

end Contracts
