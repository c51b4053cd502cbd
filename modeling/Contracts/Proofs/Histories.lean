import Contracts.Proofs.Guarding
import Contracts.Proofs.Simulation.Classes

/-!
# Contracts.Proofs.Histories

What a throwing contract on a class guarantees over whole histories.

* `Move`, `History` — constructions, guarded uses, polls of suspended uses, and whatever others do.
* `History.SameAs`  — watching a history changes nothing else.
* `History.Kept`    — what every step of a watched history keeps.
* `guarded_histories` — no operation starts on an invalid receiver, and what ends well leaves its
  receiver valid.
-/

namespace Contracts

open List (Forall₂)

variable {κ ε : Type} {base derived : Class κ}

/-! ## Histories -/

/-- What happens next: an object of the derived class is constructed, a member that the base
declares is used through it, the suspended use number `n` is polled, or anybody does anything else
to the state. -/
inductive Move (base derived : Class κ) (ε : Type) where
  | construct (args : List Value)
  | use (i : Instance κ) (u : Use) (guarded : Guarded base derived i u)
  | poll (n : Nat)
  | other (change : World ε → World ε)

/-- The end of a use, with the state in which it ended. -/
structure Ending (ε : Type) where
  receiver : Value
  result : Except ContractError Value
  moment : World ε

structure History (ε : Type) where
  world : World ε
  /-- The uses that have not ended, each with its receiver and what is left of it. -/
  suspended : List (Value × Future (World ε) (Except ContractError Value)) := []
  /-- The objects that were constructed, each with the state it was left in. -/
  constructed : List (Value × World ε) := []
  ended : List (Ending ε) := []

namespace History

def started (h : History ε) (v : Value) : Except Abort (Completion ε) × World ε → History ε
  | (.ok x, w) =>
    match x.progress with
    | .inl r => { h with world := w, ended := ⟨v, r, w⟩ :: h.ended }
    | .inr t => { h with world := w, suspended := h.suspended ++ [(v, t)] }
  | (.error _, w) => { h with world := w }

/-- The use number `n`, of `v`, has been polled. -/
def polled (h : History ε) (n : Nat) (v : Value) :
    Polled (World ε) (Except ContractError Value) × World ε → History ε
  | (.finished r, w) =>
    { h with world := w, suspended := h.suspended.eraseIdx n, ended := ⟨v, r, w⟩ :: h.ended }
  | (.aborted _, w) => { h with world := w, suspended := h.suspended.eraseIdx n }
  | (.waiting t, w) => { h with world := w, suspended := h.suspended.set n (v, t) }

def built (h : History ε) : Except Abort (Except ContractError (Instance κ)) × World ε → History ε
  | (.ok (.ok i), w) => { h with world := w, constructed := (i.this, w) :: h.constructed }
  | (_, w) => { h with world := w }

def step (host : Host κ ε) (h : History ε) : Move base derived ε → History ε
  | .construct args => h.built ((derived.construct host args).exec h.world)
  | .use i u _ => h.started i.this ((i.use host u).exec h.world)
  | .poll n =>
    match h.suspended[n]? with
    | some (v, t) => h.polled n v (t.poll h.world)
    | none => h
  | .other change => { h with world := change h.world }

def run (host : Host κ ε) (h : History ε) (moves : List (Move base derived ε)) : History ε :=
  moves.foldl (step host) h

end History

/-- The same move where the callbacks are watched. Others do not change the marks. -/
def Move.watched : Move base derived ε → Move base derived (ε × List (Mark κ ε))
  | .construct args => .construct args
  | .use i u guarded => .use i u guarded
  | .poll n => .poll n
  | .other change => .other (World.changeMain change)

/-! ## Watched histories -/

/-- A protocol that waits has not come to its end. -/
theorem progress_of_waiting {host : Host κ ε} {f : Frame κ}
    {operation : Action (World ε) (Completion ε)} {w w' : World ε}
    {rest : Future (World ε) (Except ContractError Value × Evaluation)}
    (h : (f.run host operation).poll w = (.waiting rest, w')) :
    (Eventual.pending (rest.bind fun r => .done r.1)).progress =
      .inr (rest.bind fun r => .done r.1) := by
  simp only [Frame.run, Future.bind_eq, Future.poll_bind] at h
  revert h
  rcases (f.stages host operation).poll w with ⟨⟨r, e⟩ | c | t, s⟩
  · simp only [Future.poll_lift, World.exec_log]
    exact fun h => by cases h
  · exact fun h => by cases h
  · intro h
    cases h
    -- the entry in the journal still has to be made
    cases t <;> rfl

/-- Both calls have ended with the same answer, or what is left of them runs alike. -/
def SameProgress (x : Completion (ε × List (Mark κ ε))) (y : Completion ε) : Prop :=
  Sum.LiftRel Eq ((leavingAside ε (List (Mark κ ε))).Runs (fun _ => Eq) ()) x.progress y.progress

/-- A watched call is started as the call itself, and comes to its end at the same time. -/
theorem progress_watched (host : Host κ ε) (f : Frame κ) (callee : Callee κ)
    (operation : Action (World ε) (Completion ε)) (w : World (ε × List (Mark κ ε))) :
    let seen := (invoke host.watched f (watch callee .outcome operation)).exec w
    let call := (invoke host f operation).exec w.main
    seen.2.main = call.2 ∧ Ends SameProgress seen.1 call.1 := by
  obtain ⟨_, hw₂, _, hp⟩ := (Comparison.runs_run (sameFrame_watched host f)
    (starts_operation callee operation)).pollsTo () le_rfl w w.main rfl
  simp only [invoke, Action.exec_ofFun]
  have hseen := @progress_of_waiting κ _ host.watched f (watch callee .outcome operation) w
  have hcall := @progress_of_waiting κ _ host f operation w.main
  revert hw₂ hp hseen hcall
  rcases (f.run host.watched (watch callee .outcome operation)).poll w with ⟨p, s⟩
  rcases (f.run host operation).poll w.main with ⟨q, s'⟩
  rintro rfl hp hseen hcall
  cases hp with
  | @finished x y h =>
    obtain ⟨r, e⟩ := x
    obtain ⟨r', e'⟩ := y
    have hr : r = r' := Ends.eq h.1
    have he : e.isSuspended = e'.isSuspended := h.2.isSuspended
    by_cases hsus : e'.isSuspended
    · simp only [he, if_pos hsus]
      exact ⟨trivial, .ok (.inl hr)⟩
    · simp only [he, if_neg hsus]
      exact ⟨trivial, .ok (.inl hr)⟩
  | aborted c => exact ⟨rfl, .error c⟩
  | waiting h =>
    refine ⟨rfl, .ok ?_⟩
    rw [SameProgress, hseen rfl, hcall rfl]
    refine .inr (Simulation.runs_bind h ?_)
    rintro _ _ ⟨r, e⟩ ⟨r', e'⟩ hr
    exact Simulation.runs_done fun _ _ => Ends.eq hr.1

theorem started_watched {c : ClassContract κ} (hbase : base.own.Plain) {i : Instance κ} {u : Use}
    (hu : Guarded base (.extend (base.own.underContract c) (some base)) i u) (host : Host κ ε)
    (w : World (ε × List (Mark κ ε))) :
    let seen := (i.use host.watched u).exec w
    let call := (i.use host u).exec w.main
    seen.2.main = call.2 ∧ Ends SameProgress seen.1 call.1 := by
  obtain ⟨key, code, _, _, huse⟩ := use_guarded hbase c hu
  simp only [huse, Operation.exec_call_checked]
  exact progress_watched host
    (Operation.frame (memberSite base.name key) c.spec i.this u.input w.heap) _
    (host.operate code i.this u.input) w

section Construct

variable (host : Host κ ε)

theorem sameRecords_leavingAside {γ : Type} : (leavingAside ε γ).SameRecords where
  value := Iff.rfl
  heap := by
    rintro _ w _ rfl
    rfl
  create rec := by
    rintro k _ w _ rfl
    exact ⟨k, rfl, trivial, .ok rfl⟩
  change f := by
    rintro k _ w _ rfl
    have hheap : w.main.heap = w.heap := rfl
    rw [World.exec_changeHeap, World.exec_changeHeap, hheap]
    cases f w.heap with
    | none => exact ⟨k, rfl, trivial, .error _⟩
    | some h => exact ⟨k, rfl, trivial, .ok rfl⟩

theorem sameHosts_watched :
    (leavingAside ε (List (Mark κ ε))).SameHosts Eq host.watched host where
  accepts code vs vs' hvs := by
    obtain rfl := sameRecords_leavingAside.values.mp hvs
    exact starts_watch (fun _ => rfl) _ _ _
  holds code v v' hv := by
    obtain rfl := hv
    exact starts_watch (fun _ => rfl) _ _ _
  operate code v v' i i' hv hi := by
    obtain rfl := hv
    obtain rfl := hi.eq
    exact starts_operation _ _
  read code v v' hv := by
    obtain rfl := hv
    exact acts_widen (fun _ => rfl) _
  setUp code v v' args args' hv hargs := by
    obtain rfl := hv
    obtain rfl := sameRecords_leavingAside.values.mp hargs
    exact acts_widen (fun _ => rfl) _
  emit ht _ _ he :=
    ht ▸ Comparison.acts_emit (fun _ _ => he.eq ▸ acts_widen (fun _ => rfl) _) he

theorem construct_watched (derived : Class κ) (args : List Value) (w : World (ε × List (Mark κ ε))) :
    let seen := (derived.construct host.watched args).exec w
    let plain := (derived.construct host args).exec w.main
    seen.1 = plain.1 ∧ seen.2.main = plain.2 := by
  obtain ⟨_, hw, _, hr⟩ := sameRecords_leavingAside.construct (sameHosts_watched host) derived args
    () le_rfl w w.main rfl
  exact ⟨hr.eq, hw⟩

end Construct

namespace History

/-- A watched history and the history itself have come to the same. -/
structure SameAs (seen : History (ε × List (Mark κ ε))) (plain : History ε) : Prop where
  world : seen.world.main = plain.world
  suspended : Forall₂ (fun p q => p.1 = q.1 ∧
    (leavingAside ε (List (Mark κ ε))).Runs (fun _ => Eq) () p.2 q.2) seen.suspended plain.suspended
  constructed : plain.constructed = seen.constructed.map fun p => (p.1, p.2.main)
  ended : plain.ended = seen.ended.map fun o => ⟨o.receiver, o.result, o.moment.main⟩

variable {seen : History (ε × List (Mark κ ε))} {plain : History ε}

theorem SameAs.built (h : seen.SameAs plain)
    {x : Except Abort (Except ContractError (Instance κ))} {w : World (ε × List (Mark κ ε))} :
    (seen.built (x, w)).SameAs (plain.built (x, w.main)) := by
  rcases x with cause | err | i
  · exact { h with world := rfl }
  · exact { h with world := rfl }
  · refine { h with world := rfl, constructed := ?_ }
    rw [History.built, History.built, h.constructed]
    rfl

theorem SameAs.started (h : seen.SameAs plain) (v : Value)
    {x : Except Abort (Completion (ε × List (Mark κ ε)))} {y : Except Abort (Completion ε)}
    (hxy : Ends SameProgress x y) {w : World (ε × List (Mark κ ε))} :
    (seen.started v (x, w)).SameAs (plain.started v (y, w.main)) := by
  cases hxy with
  | error cause => exact { h with world := rfl }
  | @ok x y hxy =>
    simp only [SameProgress] at hxy
    simp only [History.started]
    generalize x.progress = p at hxy ⊢
    generalize y.progress = q at hxy ⊢
    cases hxy with
    | inl hr =>
      refine { h with world := rfl, ended := ?_ }
      rw [h.ended, hr]
      rfl
    | inr ht =>
      exact { h with
        world := rfl
        suspended := List.rel_append h.suspended (.cons ⟨rfl, ht⟩ .nil) }

theorem SameAs.polled (h : seen.SameAs plain) (n : Nat) (v : Value)
    {p : Polled (World (ε × List (Mark κ ε))) (Except ContractError Value)}
    {q : Polled (World ε) (Except ContractError Value)}
    (hpq : Shows Eq ((leavingAside ε (List (Mark κ ε))).Runs (fun _ => Eq) ()) p q)
    {w : World (ε × List (Mark κ ε))} :
    (seen.polled n v (p, w)).SameAs (plain.polled n v (q, w.main)) := by
  cases hpq with
  | aborted cause =>
    exact { h with world := rfl, suspended := forall₂_eraseIdx h.suspended n }
  | waiting ht =>
    exact { h with world := rfl, suspended := forall₂_set h.suspended ⟨rfl, ht⟩ n }
  | finished hr =>
    refine { h with world := rfl, suspended := forall₂_eraseIdx h.suspended n, ended := ?_ }
    rw [History.polled, History.polled, h.ended, hr]
    rfl

theorem SameAs.step {c : ClassContract κ} (hbase : base.own.Plain) (host : Host κ ε)
    (h : seen.SameAs plain)
    (m : Move base (.extend (base.own.underContract c) (some base)) ε) :
    (seen.step host.watched m.watched).SameAs (plain.step host m) := by
  cases m with
  | construct args =>
    obtain ⟨hresult, hworld⟩ :=
      construct_watched host (.extend (base.own.underContract c) (some base)) args seen.world
    simp only [Move.watched, History.step, ← h.world]
    rw [← Prod.eta (Action.exec _ seen.world.main), ← hresult, ← hworld]
    exact h.built
  | use i u guarded =>
    obtain ⟨hworld, hends⟩ := started_watched hbase guarded host seen.world
    simp only [Move.watched, History.step, ← h.world]
    rw [← Prod.eta (Action.exec _ seen.world.main), ← hworld]
    exact h.started i.this hends
  | poll n =>
    have hn := forall₂_getElem? h.suspended n
    simp only [Move.watched, History.step, ← h.world]
    generalize seen.suspended[n]? = p at hn ⊢
    generalize plain.suspended[n]? = q at hn ⊢
    cases hn with
    | none => exact h
    | @some p q hpq =>
      obtain ⟨v, t⟩ := p
      obtain ⟨v', u⟩ := q
      obtain ⟨rfl, ht⟩ := hpq
      obtain ⟨_, hworld, _, hshows⟩ := ht.pollsTo () le_rfl seen.world seen.world.main rfl
      simp only []
      rw [← Prod.eta (u.poll seen.world.main), ← hworld]
      exact h.polled n v hshows
  | other change =>
    refine { h with world := ?_ }
    rw [History.step, ← h.world]
    rfl

theorem SameAs.run {c : ClassContract κ} (hbase : base.own.Plain) (host : Host κ ε)
    (h : seen.SameAs plain)
    (moves : List (Move base (.extend (base.own.underContract c) (some base)) ε)) :
    (seen.run host.watched (moves.map Move.watched)).SameAs (plain.run host moves) := by
  induction moves generalizing seen plain with
  | nil => exact h
  | cons m rest ih => exact ih (h.step hbase host m)

/-! ## What every step keeps -/

/-- Soundness so far, and all that the uses which go on need to keep it. -/
structure Kept (valid : World ε → Value → Bool) (seen : History (ε × List (Mark κ ε))) : Prop where
  sound : Sound valid seen.world.aside
  suspended : ∀ p ∈ seen.suspended, StaysGuarded valid p.1 p.2
  constructed : ∀ p ∈ seen.constructed, valid p.2.main.state p.1 = true
  ended : ∀ o ∈ seen.ended, o.result.isOk = true → valid o.moment.main.state o.receiver = true

variable {valid : World ε → Value → Bool}

theorem Kept.built (h : seen.Kept valid)
    {x : Except Abort (Except ContractError (Instance κ)) × World (ε × List (Mark κ ε))}
    (hw : Sound valid x.2.aside)
    (hx : ∀ i, x.1 = .ok (.ok i) → valid x.2.main.state i.this = true) :
    (seen.built x).Kept valid := by
  obtain ⟨cause | err | i, w⟩ := x
  · exact { h with sound := hw }
  · exact { h with sound := hw }
  · refine { h with sound := hw, constructed := ?_ }
    rintro p (_ | ⟨_, hp⟩)
    · exact hx i rfl
    · exact h.constructed p hp

theorem Kept.started (h : seen.Kept valid) (v : Value)
    {x : Except Abort (Completion (ε × List (Mark κ ε))) × World (ε × List (Mark κ ε))}
    (hx : Begun valid v x) : (seen.started v x).Kept valid := by
  obtain ⟨cause | x, w⟩ := x
  · exact { h with sound := hx }
  · simp only [Begun] at hx
    simp only [History.started]
    generalize x.progress = p at hx ⊢
    rcases p with r | t
    · refine { h with sound := hx.1, ended := ?_ }
      rintro o (_ | ⟨_, ho⟩)
      · exact hx.2
      · exact h.ended o ho
    · refine { h with sound := hx.1, suspended := fun p hp => ?_ }
      rcases List.mem_append.mp hp with hp | hp
      · exact h.suspended p hp
      · cases List.mem_singleton.mp hp
        exact hx.2

theorem Kept.polled (h : seen.Kept valid) (n : Nat) (v : Value)
    {x : Polled (World (ε × List (Mark κ ε))) (Except ContractError Value) ×
      World (ε × List (Mark κ ε))}
    (hx : Future.PollUpholds (SoundAfter valid) (fun w => Sound valid w.aside)
      (Guarantee valid v) x) : (seen.polled n v x).Kept valid := by
  have herase : ∀ p ∈ seen.suspended.eraseIdx n, StaysGuarded valid p.1 p.2 :=
    fun p hp => h.suspended p (List.mem_of_mem_eraseIdx hp)
  obtain ⟨r | cause | t, w⟩ := x
  · refine { h with sound := hx.1, suspended := herase, ended := ?_ }
    rintro o (_ | ⟨_, ho⟩)
    · exact hx.2
    · exact h.ended o ho
  · exact { h with sound := hx, suspended := herase }
  · refine { h with sound := hx.1, suspended := fun p hp => ?_ }
    rcases List.mem_or_eq_of_mem_set hp with hp | rfl
    · exact h.suspended p hp
    · exact hx.2

theorem Kept.step {host : Host κ ε} {c : ClassContract κ} (hc : Throwing host c valid)
    (hbase : base.own.Plain) (h : seen.Kept valid)
    (m : Move base (.extend (base.own.underContract c) (some base)) ε) :
    (seen.step host.watched m.watched).Kept valid := by
  cases m with
  | construct args =>
    have hsound := sound_construct host (.extend (base.own.underContract c) (some base)) args
      seen.world h.sound
    obtain ⟨hresult, hworld⟩ :=
      construct_watched host (.extend (base.own.underContract c) (some base)) args seen.world
    refine h.built hsound fun i hi => ?_
    rw [hworld]
    exact valid_of_construct hc (Prod.ext (hresult.symm.trans hi) rfl)
  | use i u guarded => exact h.started i.this (begun_use hc hbase guarded seen.world h.sound)
  | poll n =>
    simp only [Move.watched, History.step]
    cases hn : seen.suspended[n]? with
    | none => exact h
    | some p =>
      have hp := h.suspended p (List.mem_of_getElem? hn)
      exact h.polled n p.1 ((Future.upholds_iff_poll _ _).mp (hp seen.world h.sound))
  | other change => exact { h with sound := h.sound }

theorem Kept.run {host : Host κ ε} {c : ClassContract κ} (hc : Throwing host c valid)
    (hbase : base.own.Plain) (h : seen.Kept valid)
    (moves : List (Move base (.extend (base.own.underContract c) (some base)) ε)) :
    (seen.run host.watched (moves.map Move.watched)).Kept valid := by
  induction moves generalizing seen with
  | nil => exact h
  | cons m rest ih => exact ih (h.step hc hbase m)

end History

/-! ## The guarantee -/

/-- The use of a member is over at once with the violation of its first check. Only an invariant
has been called, and the state is as it was. -/
def Refused (host : Host κ ε) (className : String) (i : Instance κ) (u : Use) (w : World ε) :
    Prop :=
  ∃ (key : MemberKey) (code : κ) (w' : World ε), (key == u.key) = true ∧
    (i.use host u).exec w = (.ok (.ready (.error (.violation (.about .constantBefore className
      (some key.text) (u.input.subject w.heap className key.text))))), w') ∧
    w'.state = w.state ∧
    ((i.use host.watched u).exec (w.beside [])).2.aside = checkMarks code i.this w false

theorem refused_of_invalid {host : Host κ ε} {c : ClassContract κ} {valid : World ε → Value → Bool}
    (hc : Throwing host c valid) (hbase : base.own.Plain) {i : Instance κ} {u : Use}
    (hu : Guarded base (.extend (base.own.underContract c) (some base)) i u) (w : World ε)
    (hinvalid : valid w.state i.this = false) : Refused host base.name i u w := by
  obtain ⟨key, s, hkey, hexec, hs⟩ := exec_use_refused hc hbase hu (w.beside []) hinvalid
  obtain ⟨key', code, _, _, huse⟩ := use_guarded hbase c hu
  have hstarts : (leavingAside ε (List (Mark κ ε))).Starts
      (leavingAside ε (List (Mark κ ε))).OutcomeSame () (i.use host.watched u) (i.use host u) := by
    rw [huse, huse]
    exact Comparison.starts_call rfl (.refl (fun _ => rfl) _) _
      ⟨sameChecks_watched host _ _ _, starts_operation _ _⟩
  obtain ⟨_, hworld, _, hends⟩ := hstarts () le_rfl (w.beside []) w rfl
  rw [hexec] at hworld hends
  refine ⟨key, c.invariant, s, hkey, ?_, hs, ?_⟩
  · rcases hcall : (i.use host u).exec w with ⟨x, w'⟩
    rw [hcall] at hworld hends
    -- the call itself is ready, as the watched one is, and with the same error
    cases hends with
    | ok hx =>
      cases hx with
      | ready hr =>
        rw [← Ends.eq hr, show w' = s from hworld.symm]
        rfl
  · rw [hexec]
    rfl

/-- The class was declared member by member, with or without a parent. -/
def Class.Declared (base : Class κ) : Prop :=
  ∃ name init members parent, base = .extend (.build name init members) parent

/-- `derived` is `base` under a contract that throws. The invariant of the contract only reads, and
its sink does not write. -/
structure ThrowingContract (host : Host κ ε) (base : Class κ) (d : Declaration κ)
    (derived : Class κ) (valid : World ε → Value → Bool) : Prop where
  declared : base.Declared
  derives : ∃ notices, contractClass base d = (.ok derived, notices)
  throws : d.resolve.1.mode = some .throw
  readOnly : ∀ code, d.resolve.1.invariant = some code → ReadOnly host code valid
  quiet : d.resolve.1.trace.Quiet host

theorem ThrowingContract.throwing {host : Host κ ε} {d : Declaration κ}
    {valid : World ε → Value → Bool} (h : ThrowingContract host base d derived valid) :
    base.own.Plain ∧
      ∃ c, Throwing host c valid ∧ derived = .extend (base.own.underContract c) (some base) := by
  obtain ⟨name, init, members, parent, rfl⟩ := h.declared
  obtain ⟨notices, hderives⟩ := h.derives
  obtain ⟨c, hspec, hderived⟩ := contractClass_eq hderives
  obtain ⟨code, hcode, rfl⟩ := Option.map_eq_some_iff.mp hspec
  exact ⟨plain_build name init members, _, ⟨h.throws, h.readOnly code hcode, h.quiet⟩, hderived⟩

/-- What a throwing contract on a class guarantees in every history: constructions, uses of the
members that the base declares itself, polls of those that are suspended, and arbitrary changes by
others, in any order. Watching the callbacks changes nothing. No operation of such a member is
started on a receiver that is not valid at that moment; what was constructed is valid; a use that
ended well left its receiver valid; and while an instance is not valid, every such use of it is
refused. -/
theorem guarded_histories {d : Declaration κ} {host : Host κ ε} {valid : World ε → Value → Bool}
    (h : ThrowingContract host base d derived valid) (w : World ε)
    (moves : List (Move base derived ε)) :
    let plain := History.run host { world := w } moves
    let seen := History.run host.watched { world := w.beside [] } (moves.map Move.watched)
    seen.SameAs plain ∧
    (∀ v i w', .started (.operation v i) w' ∈ seen.world.aside → valid w'.state v = true) ∧
    (∀ p ∈ plain.constructed, valid p.2.state p.1 = true) ∧
    (∀ o ∈ plain.ended, o.result.isOk = true → valid o.moment.state o.receiver = true) ∧
    ∀ i u w', Guarded base derived i u → valid w'.state i.this = false →
      Refused host base.name i u w' := by
  intro plain seen
  obtain ⟨hplain, c, hc, rfl⟩ := h.throwing
  have hsame : seen.SameAs plain := History.SameAs.run hplain host ⟨rfl, .nil, rfl, rfl⟩ moves
  have hkept : seen.Kept valid := by
    refine History.Kept.run hc hplain ⟨?_, ?_, ?_, ?_⟩ moves
    · exact fun _ _ _ h => by cases h
    · exact fun _ h => by cases h
    · exact fun _ h => by cases h
    · exact fun _ h => by cases h
  refine ⟨hsame, hkept.sound, ?_, ?_, ?_⟩
  · rw [hsame.constructed]
    exact List.forall_mem_map.mpr hkept.constructed
  · rw [hsame.ended]
    exact List.forall_mem_map.mpr hkept.ended
  · exact fun i u w' hu hinvalid => refused_of_invalid hc hplain hu w' hinvalid

/-! ## A vase -/

namespace Vase

/-- Code that breaks its receiver or leaves it alone; a vase is valid until it is broken. -/
def host : Host Bool Unit where
  accepts _ _ := pure (.ready true)
  holds _ v := do
    let h ← World.readHeap
    pure (.ready (h.getField v "broken").isUndefined)
  operate breaks v _ := do
    match breaks, v with
    | true, .object r => World.writeField r "broken" (.bool true)
    | _, _ => pure ()
    pure (.ready (.ok .undefined))
  read _ _ := pure .undefined
  setUp _ _ _ := pure (.ok ())
  deliver _ _ := pure ()

def valid (w : World Unit) (v : Value) : Bool := (w.heap.getField v "broken").isUndefined

/-- A method, and a setter in the slot for construction. -/
def unguarded : Class Bool :=
  .extend (.build "Vase" none
    [(.name "drop", .method true), (.name "constructor", .setter false)]) none

def declaration : Declaration Bool := .record { invariant := some false, mode := some "throw" }

def guarded : Class Bool :=
  .extend (unguarded.own.underContract ⟨false, .default, some .throw⟩) (some unguarded)

def vase : Instance Bool := ⟨guarded, .object ⟨0⟩⟩

def world : World Unit := { mode := .holding .log, own := () }

def broken : World Unit :=
  { world with heap := ⟨#[{ className := some "Vase", fields := ⟨[("broken", .bool true)]⟩ }]⟩ }

theorem throwingContract : ThrowingContract host unguarded declaration guarded valid where
  declared := ⟨_, _, _, none, rfl⟩
  derives := ⟨[.classContracted "Vase" 1 0], rfl⟩
  throws := rfl
  readOnly _ _ w _ := ⟨w, rfl, rfl⟩
  quiet := by rintro _ _ _ ⟨⟩

theorem guarded_drop : Guarded unguarded guarded vase (.call (.name "drop") []) :=
  ⟨rfl, rfl, by decide⟩

/-- A vase is made, and it is dropped twice. -/
def moves : List (Move unguarded guarded Unit) :=
  [.construct [], .use vase _ guarded_drop, .use vase _ guarded_drop]

example : (History.run host { world } moves).constructed.length = 1 ∧
    (History.run host { world } moves).ended.map (·.result.isOk) = [false, false] := by
  exact ⟨rfl, rfl⟩

/-- A vase that was dropped is not taken up again. -/
theorem dropped_once :
    ThrowingContract host unguarded declaration guarded valid ∧
    Guarded unguarded guarded vase (.call (.name "drop") []) ∧
    (∀ p ∈ (History.run host { world } moves).constructed, valid p.2.state p.1 = true) ∧
    Refused host "Vase" vase (.call (.name "drop") []) broken := by
  obtain ⟨_, _, hconstructed, _, hrefused⟩ := guarded_histories throwingContract world moves
  exact ⟨throwingContract, guarded_drop, hconstructed, hrefused vase _ broken guarded_drop rfl⟩

/-- The slot for construction is left out, also where it is a setter of the class itself: an
assignment to it runs on a broken vase. -/
theorem constructor_setter_unguarded :
    ThrowingContract host unguarded declaration guarded valid ∧
    (unguarded.own? (.set (.name "constructor") .undefined)).isSome ∧
    valid broken.state vase.this = false ∧
    ((vase.use host (.set (.name "constructor") .undefined)).exec broken).1 =
      .ok (.ready (.ok .undefined)) ∧
    ((vase.use host.watched (.set (.name "constructor") .undefined)).exec
      (broken.beside [])).2.aside =
      [.started (.operation vase.this (.value .undefined)) broken,
        .settled (.outcome (.ok .undefined))] :=
  ⟨throwingContract, rfl, rfl, rfl, rfl⟩

end Vase

end Contracts
