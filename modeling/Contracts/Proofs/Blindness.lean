import Contracts.Proofs.Observing
import Contracts.Proofs.Settling
import Contracts.Proofs.Simulation.Classes
import Mathlib.Order.CompleteBooleanAlgebra
import Mathlib.Order.CompletePartialOrder

/-!
# Contracts.Proofs.Blindness

What does not see the journal. The journal is there for those who look at a run from outside;
callbacks have no means to read it, but as functions of the state they could.

* `Future.poll_induction` — induction on what is left of a future after a poll.
* `Simulation.starts_drive` — callbacks that agree agree when they are driven to their end.
* `journalless` — two runs whose states differ in the journal alone; both write the same entries.
* `Host.Blind`  — callbacks that do not see the journal.
* `Host.Blind.use`, `Host.Blind.get`, `Host.Blind.construct` — then neither do the uses of classes.
-/

namespace Contracts

variable {κ ε σ τ α β : Type}

/-! ## Driving what agrees -/

/-- What holds of a future if it holds of all that may be left of it after a poll. -/
theorem Future.poll_induction {Q : Future σ α → Prop}
    (h : ∀ t, (∀ s rest s', t.poll s = (.waiting rest, s') → Q rest) → Q t) (t : Future σ α) :
    Q t := by
  -- along with the future itself, all that may be left of it
  have hboth : Q t ∧ ∀ s rest s', t.poll s = (.waiting rest, s') → Q rest := by
    induction t with
    | done a => exact ⟨h _ (by rintro _ _ _ ⟨⟩), by rintro _ _ _ ⟨⟩⟩
    | abort c => exact ⟨h _ (by rintro _ _ _ ⟨⟩), by rintro _ _ _ ⟨⟩⟩
    | get next ih =>
      have hrest : ∀ s rest s', (Future.get next).poll s = (.waiting rest, s') → Q rest :=
        fun s rest s' hpoll => (ih s).2 s rest s' hpoll
      exact ⟨h _ hrest, hrest⟩
    | put s₁ t ih =>
      have hrest : ∀ s rest s', (Future.put s₁ t).poll s = (.waiting rest, s') → Q rest :=
        fun _ rest s' hpoll => ih.2 s₁ rest s' hpoll
      exact ⟨h _ hrest, hrest⟩
    | wait t ih =>
      have hrest : ∀ s rest s', (Future.wait t).poll s = (.waiting rest, s') → Q rest := by
        rintro s rest s' ⟨⟩
        exact ih.1
      exact ⟨h _ hrest, hrest⟩
  exact hboth.1

namespace Simulation

variable {K : Type} [Preorder K] {S : Simulation K σ τ} {R : K → α → β → Prop} {k : K}

/-- Futures that agree agree when they are driven to their end. -/
theorem runs_drive {t : Future σ α} {u : Future τ β} (h : S.Runs R k t u) :
    S.Acts R k (.ofFun t.drive) (.ofFun u.drive) := by
  induction t using Future.poll_induction generalizing k u with
  | h t ih =>
    intro k₁ hk s s' hs
    obtain ⟨k₂, hs₂, hm₂, hp⟩ := h.pollsTo k₁ hk s s' hs
    simp only [Action.exec_ofFun, Future.drive_eq_poll t, Future.drive_eq_poll u]
    revert hs₂ hm₂ hp
    rcases ht : t.poll s with ⟨x, s₂⟩
    rcases u.poll s' with ⟨y, s₂'⟩
    intro hs₂ hm₂ hp
    cases hp with
    | finished hab => exact ⟨k₂, hs₂, hm₂, .ok hab⟩
    | aborted c => exact ⟨k₂, hs₂, hm₂, .error c⟩
    | waiting hw =>
      obtain ⟨k₃, hs₃, hm₃, he⟩ := ih s _ s₂ ht hw k₂ le_rfl _ _ hs₂
      exact ⟨k₃, hs₃, S.move_trans hm₂ hm₃, he⟩

theorem starts_drive (hR : ∀ k k', k ≤ k' → ∀ a b, R k a b → R k' a b)
    {a : Action σ (Eventual σ α)} {b : Action τ (Eventual τ β)} (h : S.Starts R k a b) :
    S.Acts R k a.drive b.drive := by
  refine acts_bind h fun k' _ x y hxy => runs_drive ?_
  cases hxy with
  | ready hab => exact runs_done fun k'' hk => hR k' k'' hk _ _ hab
  | pending htu => exact htu

end Simulation

/-! ## States that differ in the journal alone -/

namespace World

variable {w w' : World ε}

theorem heap_of_state (h : w.state = w'.state) : w.heap = w'.heap := by
  have hheap : w.state.heap = w'.state.heap := by rw [h]
  exact hheap

theorem mode_of_state (h : w.state = w'.state) : w.mode = w'.mode := by
  have hmode : w.state.mode = w'.state.mode := by rw [h]
  exact hmode

theorem own_of_state (h : w.state = w'.state) : w.own = w'.own := by
  have hown : w.state.own = w'.state.own := by rw [h]
  exact hown

theorem state_withHeap (h : w.state = w'.state) (heap : Heap) :
    { w with heap }.state = { w' with heap }.state := by
  have hstate : { w.state with heap } = { w'.state with heap } := by rw [h]
  exact hstate

theorem state_withMode (h : w.state = w'.state) (mode : ModeCell) :
    { w with mode }.state = { w' with mode }.state := by
  have hstate : { w.state with mode } = { w'.state with mode } := by rw [h]
  exact hstate

theorem state_withOwn (h : w.state = w'.state) (own : ε) :
    { w with own }.state = { w' with own }.state := by
  have hstate : { w.state with own } = { w'.state with own } := by rw [h]
  exact hstate

end World

/-- Two runs whose states differ in the journal alone. What one of them writes there the other one
writes too. -/
def journalless (ε : Type) : Comparison Unit ε ε where
  agree _ w w' := w.state = w'.state
  move _ w w' _ w₁ w₁' := ∃ new, w₁.entries = new ++ w.entries ∧ w₁'.entries = new ++ w'.entries
  move_refl _ := ⟨[], rfl, rfl⟩
  move_trans := by
    rintro _ _ _ _ _ _ _ _ _ ⟨new, h, h'⟩ ⟨more, hm, hm'⟩
    exact ⟨more ++ new, by rw [hm, h, List.append_assoc], by rw [hm', h', List.append_assoc]⟩
  le_of_move _ := le_rfl
  value _ := Eq
  value_mono _ h := h
  undefined _ := rfl
  render := by
    rintro _ w w' v _ hw rfl
    rw [World.heap_of_state hw]
  toJson := by
    rintro _ w w' v _ hw rfl
    rw [World.heap_of_state hw]
  label := by
    rintro _ w w' v _ site hw rfl
    rw [World.heap_of_state hw]
  log := by
    rintro _ w w' e _ hw he
    rw [he.eq]
    exact ⟨hw, [_], rfl, rfl⟩
  readMode := by
    intro _ w w' hw
    rw [World.mode_of_state hw]
    exact ⟨rfl, World.state_withMode hw _, [], rfl, rfl⟩

/-- The action does not see the journal. -/
abbrev Action.Blind (a : Action (World ε) α) : Prop := (journalless ε).Acts (fun _ => Eq) () a a

/-- Neither the callback nor what it answers later sees the journal. -/
abbrev Action.StartsBlind (a : Action (World ε) (Eventual (World ε) α)) : Prop :=
  (journalless ε).Starts (fun _ => Eq) () a a

/-- Callbacks that do not see the journal. -/
structure Host.Blind (host : Host κ ε) : Prop where
  accepts : ∀ code vs, (host.accepts code vs).StartsBlind
  holds : ∀ code v, (host.holds code v).StartsBlind
  operate : ∀ code v i, (host.operate code v i).StartsBlind
  read : ∀ code v, (host.read code v).Blind
  setUp : ∀ code v args, (host.setUp code v args).Blind
  deliver : ∀ code e, (host.deliver code e).Blind

namespace Action

theorem blind_pure (a : α) : (pure a : Action (World ε) α).Blind :=
  Simulation.acts_pure fun _ _ => rfl

/-- From two states that differ in the journal alone a blind action comes to the same, in such
states again, with the same new entries. -/
theorem Blind.exists_exec {a : Action (World ε) α} (h : a.Blind) {w w' : World ε}
    (hw : w.state = w'.state) : ∃ r w₁ w₁' new, a.exec w = (r, w₁) ∧ a.exec w' = (r, w₁') ∧
      w₁.state = w₁'.state ∧ w₁.entries = new ++ w.entries ∧ w₁'.entries = new ++ w'.entries := by
  obtain ⟨_, hstate, ⟨new, hnew, hnew'⟩, hends⟩ := h () le_rfl w w' hw
  exact ⟨(a.exec w).1, (a.exec w).2, (a.exec w').2, new, rfl, Prod.ext hends.eq.symm rfl, hstate,
    hnew, hnew'⟩

theorem StartsBlind.drive {a : Action (World ε) (Eventual (World ε) α)} (h : a.StartsBlind) :
    a.drive.Blind :=
  Simulation.starts_drive (fun _ _ _ _ _ h => h) h

/-- A change of the heap does not see the journal. -/
theorem blind_changeHeap (f : Heap → Option Heap) :
    (World.changeHeap f : Action (World ε) Unit).Blind := by
  intro k _ w w' hw
  rw [World.exec_changeHeap, World.exec_changeHeap, World.heap_of_state hw]
  cases f w'.heap with
  | none => exact ⟨k, hw, ⟨[], rfl, rfl⟩, .error _⟩
  | some h => exact ⟨k, World.state_withHeap hw h, ⟨[], rfl, rfl⟩, .ok rfl⟩

end Action

/-! ## Blind callbacks in calls and constructions -/

theorem sameRecords_journalless : (journalless ε).SameRecords where
  value := Iff.rfl
  heap := World.heap_of_state
  create rec := by
    intro k _ w w' hw
    simp only [World.exec_newRecord, World.heap_of_state hw]
    exact ⟨k, World.state_withHeap hw _, ⟨[], rfl, rfl⟩, .ok rfl⟩
  change := Action.blind_changeHeap

namespace Host.Blind

variable {host : Host κ ε}

theorem sameAnswers (h : host.Blind) : (journalless ε).SameAnswers host host where
  accepts code vs vs' hvs := by
    obtain rfl := sameRecords_journalless.values.mp hvs
    exact h.accepts code vs
  holds code _ _ hv := hv ▸ h.holds code _
  operate code v v' i i' hv hi := by
    rw [sameRecords_journalless.outcomeSame_eq, ← hi.eq, ← hv]
    exact h.operate code v i
  read code _ _ hv := hv ▸ h.read code _
  setUp code v v' args args' hv hargs := by
    obtain rfl := sameRecords_journalless.values.mp hargs
    exact hv ▸ h.setUp code v args

theorem of_sameAnswers (h : (journalless ε).SameAnswers host host)
    (hdeliver : ∀ code e, (host.deliver code e).Blind) : host.Blind where
  accepts code vs := h.accepts code (sameRecords_journalless.values.mpr rfl)
  holds code v := h.holds code rfl
  operate code v i := by
    have hop := h.operate (k := ()) code (rfl : v = v) (.refl (fun _ => rfl) i)
    rwa [sameRecords_journalless.outcomeSame_eq] at hop
  read code v := h.read code rfl
  setUp code v args := h.setUp code rfl (sameRecords_journalless.values.mpr rfl)
  deliver := hdeliver

theorem sameHosts (h : host.Blind) : (journalless ε).SameHosts Eq host host where
  toSameAnswers := h.sameAnswers
  emit ht e _ he := ht ▸ Comparison.acts_emit (fun code _ => he.eq ▸ h.deliver code e) he

/-- Calls under any number of contracts do not see the journal if their callbacks do not. -/
theorem call (h : host.Blind) (op : Operation κ) (v : Value) (i : Input) :
    (op.call host v i).StartsBlind :=
  sameRecords_journalless.call h.sameHosts op v i

theorem use (h : host.Blind) (i : Instance κ) (u : Use) : (i.use host u).StartsBlind := by
  have hi : i.Retraced Eq Eq i := ⟨.refl (fun _ => rfl) _, rfl⟩
  rw [Action.StartsBlind, ← sameRecords_journalless.outcomeSame_eq]
  cases u with
  | call key args => exact h.sameHosts.callMember hi key (sameRecords_journalless.values.mpr rfl)
  | set key v => exact h.sameHosts.setMember sameRecords_journalless.objects hi key rfl

theorem get (h : host.Blind) (i : Instance κ) (key : MemberKey) : (i.get host key).Blind :=
  h.sameHosts.getMember sameRecords_journalless.objects ⟨.refl (fun _ => rfl) _, rfl⟩ key

theorem construct (h : host.Blind) (c : Class κ) (args : List Value) :
    (c.construct host args).Blind :=
  sameRecords_journalless.construct h.sameHosts c args

end Host.Blind
end Contracts
