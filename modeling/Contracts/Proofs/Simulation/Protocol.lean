import Contracts.Operation
import Contracts.Proofs.Simulation

/-!
# Contracts.Proofs.Simulation.Protocol

Two runs of one call, side by side.

* `Comparison`  — a simulation that also says when two values stand for each other.
* `LikeFrame`   — two calls that agree at every check, but for the errors that the checks raise.
* `LikeFrame.runs_protocol` — then their protocols agree: poll by poll they show the same outcome,
  but for these errors, and the same evaluation.
* `SameFrame`   — two calls whose contracts, inputs and callbacks agree.
* `runs_run`    — then their protocols agree, errors included.
* `starts_invoke`, `starts_call` — and so do the calls themselves, under any number of contracts.

Nothing is asked of the two hosts but that the callbacks of the call agree.
-/

namespace Contracts

open List (Forall₂)

/-! ## What stands for each other -/

section Same

variable (V : Value → Value → Prop)

/-- Evaluations that differ in the operation's result alone. -/
structure SameEvaluation (e e' : Evaluation) : Prop where
  invariantBefore : e.invariantBefore = e'.invariantBefore
  precondition : e.precondition = e'.precondition
  postcondition : e.postcondition = e'.postcondition
  invariantAfter : e.invariantAfter = e'.invariantAfter
  suspendedAt : e.suspendedAt = e'.suspendedAt
  result : Option.Rel V e.result e'.result

inductive SameInput : Input → Input → Prop where
  | args {vs vs' : List Value} (h : Forall₂ V vs vs') : SameInput (.args vs) (.args vs')
  | value {v v' : Value} (h : V v v') : SameInput (.value v) (.value v')

/-- Checks that are traced alike. -/
structure SameCheck (e e' : TraceEvent) : Prop where
  kind : e.kind = e'.kind
  className : e.className = e'.className
  member : e.member = e'.member
  input : SameInput V e.input e'.input
  result : Option.Rel V e.result e'.result
  passed : e.passed = e'.passed
  failure : e.failure = e'.failure

/-- Entries that differ in the result of an evaluation alone. -/
inductive SameEvent : Event → Event → Prop where
  | refl (e : Event) : SameEvent e e
  | evaluated (className member : String) (succeeded : Bool) {e e' : Evaluation}
      (h : SameEvaluation V e e') :
      SameEvent (.evaluated className member succeeded e) (.evaluated className member succeeded e')

end Same

variable {V V' : Value → Value → Prop}

namespace SameEvaluation

variable {e e' : Evaluation}

theorem empty : SameEvaluation V {} {} := ⟨rfl, rfl, rfl, rfl, rfl, .none⟩

theorem record (h : SameEvaluation V e e') (g : Guard) (held : Bool) :
    SameEvaluation V (e.record g held) (e'.record g held) := by
  cases g with
  | invariantBefore => exact { h with invariantBefore := rfl }
  | precondition => exact { h with precondition := rfl }
  | postcondition => exact { h with postcondition := rfl }
  | invariantAfter => exact { h with invariantAfter := rfl }

theorem suspend (h : SameEvaluation V e e') (stage : Stage) :
    SameEvaluation V (e.suspend stage) (e'.suspend stage) :=
  { h with suspendedAt := by simp only [Evaluation.suspend, h.suspendedAt] }

theorem recordResult (h : SameEvaluation V e e') {v v' : Value} (hv : V v v') :
    SameEvaluation V (e.recordResult v) (e'.recordResult v') :=
  { h with result := .some hv }

theorem isSuspended (h : SameEvaluation V e e') : e.isSuspended = e'.isSuspended := by
  simp only [Evaluation.isSuspended, h.suspendedAt]

theorem mono (hV : ∀ v v', V v v' → V' v v') (h : SameEvaluation V e e') :
    SameEvaluation V' e e' where
  invariantBefore := h.invariantBefore
  precondition := h.precondition
  postcondition := h.postcondition
  invariantAfter := h.invariantAfter
  suspendedAt := h.suspendedAt
  result := optionRel_mono hV h.result

theorem eq (h : SameEvaluation Eq e e') : e = e' := by
  obtain ⟨_, _, result, _, _, _⟩ := e
  obtain ⟨_, _, result', _, _, _⟩ := e'
  obtain ⟨rfl, rfl, rfl, rfl, rfl, hr⟩ := h
  have hr : result = result' := eq_of_optionRel hr
  rw [hr]

end SameEvaluation

theorem SameEvent.mono (hV : ∀ v v', V v v' → V' v v') {e e' : Event} (h : SameEvent V e e') :
    SameEvent V' e e' := by
  cases h with
  | refl => exact .refl _
  | evaluated className member succeeded h => exact .evaluated _ _ _ (h.mono hV)

theorem SameEvent.eq {e e' : Event} (h : SameEvent Eq e e') : e = e' := by
  cases h with
  | refl => rfl
  | evaluated className member succeeded h => rw [h.eq]

namespace SameInput

theorem refl (hV : ∀ v, V v v) (i : Input) : SameInput V i i := by
  cases i with
  | args vs => exact .args (List.forall₂_same.mpr fun v _ => hV v)
  | value v => exact .value (hV v)

theorem mono (hV : ∀ v v', V v v' → V' v v') {i i' : Input} (h : SameInput V i i') :
    SameInput V' i i' := by
  cases h with
  | args hvs => exact .args (hvs.imp fun _ _ => hV _ _)
  | value hv => exact .value (hV _ _ hv)

theorem eq {i i' : Input} (h : SameInput Eq i i') : i = i' := by
  cases h with
  | args hvs =>
    rw [List.forall₂_eq_eq_eq] at hvs
    rw [hvs]
  | value hv => rw [hv]

theorem values {i i' : Input} (h : SameInput V i i') : Forall₂ V i.values i'.values := by
  cases h with
  | args hvs => exact hvs
  | value hv => exact .cons hv .nil

theorem failure {i i' : Input} (h : SameInput V i i') (g : Guard) : i.failure g = i'.failure g := by
  cases h <;> cases g <;> rfl

end SameInput

namespace SameCheck

theorem refl (hV : ∀ v, V v v) (e : TraceEvent) : SameCheck V e e where
  kind := rfl
  className := rfl
  member := rfl
  input := .refl hV e.input
  result := by
    cases e.result with
    | none => exact .none
    | some v => exact .some (hV v)
  passed := rfl
  failure := rfl

theorem mono (hV : ∀ v v', V v v' → V' v v') {e e' : TraceEvent} (h : SameCheck V e e') :
    SameCheck V' e e' :=
  { h with
    input := h.input.mono hV
    result := optionRel_mono hV h.result }

theorem eq {e e' : TraceEvent} (h : SameCheck Eq e e') : e = e' := by
  obtain ⟨_, _, _, input, result, _, _⟩ := e
  obtain ⟨_, _, _, input', result', _, _⟩ := e'
  obtain ⟨rfl, rfl, rfl, hi, hr, rfl, rfl⟩ := h
  have hi : input = input' := hi.eq
  have hr : result = result' := eq_of_optionRel hr
  rw [hi, hr]

end SameCheck

/-! ## The parts of a protocol -/

namespace Frame

variable {κ ε : Type}

/-- What follows the operation of a call. -/
def conclude (host : Host κ ε) (f : Frame κ) (r : Except ContractError Value) (e : Evaluation) :
    Future (World ε) (Except ContractError Value × Evaluation) :=
  match r with
  | .error err => pure (.error err, e)
  | .ok result =>
    (f.leave host result f.spec.exit (e.recordResult result)).bind fun
      | (.error err, e) => .done (.error err, e)
      | (.ok (), e) => .done (.ok result, e)

/-- The evaluation in the journal, and the outcome. -/
def close (f : Frame κ) (r : Except ContractError Value) (e : Evaluation) :
    Future (World ε) (Except ContractError Value × Evaluation) :=
  (Future.lift (World.log (.evaluated f.className f.site.member r.isOk e))).bind fun _ =>
    .done (r, e)

theorem stages_eq (host : Host κ ε) (f : Frame κ) (operation : Action (World ε) (Completion ε)) :
    f.stages host operation = (f.enter host f.spec.entry {}).bind fun
      | (.error err, e) => .done (.error err, e)
      | (.ok false, e) => .done (.ok .undefined, e)
      | (.ok true, e) =>
        (settle .invocation e operation).bind fun x => f.conclude host x.1 x.2 := by
  rw [stages, Future.bind_eq]
  congr 1
  funext ⟨verdict, e⟩
  rcases verdict with err | _ | _
  · rfl
  · rfl
  · exact congrArg (settle .invocation e operation).bind
      (funext fun x => by obtain ⟨r | v, e⟩ := x <;> rfl)

theorem run_eq (host : Host κ ε) (f : Frame κ) (operation : Action (World ε) (Completion ε)) :
    f.run host operation = (f.stages host operation).bind fun x => f.close x.1 x.2 :=
  rfl

end Frame

/-! ## Comparing runs of contracts -/

/-- A way to compare two runs of contracts. Values that stand for each other are shown alike, and
what the protocol itself does to the states, entries in the journal and the first look at the
failure mode, keeps them in agreement. -/
structure Comparison (K ε δ : Type) [Preorder K] extends Simulation K (World ε) (World δ) where
  value : K → Value → Value → Prop
  value_mono : ∀ {k k' v v'}, k ≤ k' → value k v v' → value k' v v'
  undefined : ∀ k, value k .undefined .undefined
  render : ∀ {k w w' v v'}, agree k w w' → value k v v' → w.heap.render v = w'.heap.render v'
  toJson : ∀ {k w w' v v'}, agree k w w' → value k v v' → w.heap.toJson v = w'.heap.toJson v'
  label : ∀ {k w w' v v'} (site : CallSite), agree k w w' → value k v v' →
    site.label w.heap v = site.label w'.heap v'
  log : ∀ {k w w' e e'}, agree k w w' → SameEvent (value k) e e' →
    agree k { w with entries := e :: w.entries } { w' with entries := e' :: w'.entries } ∧
      move k w w' k { w with entries := e :: w.entries } { w' with entries := e' :: w'.entries }
  readMode : ∀ {k w w'}, agree k w w' → w.mode.current = w'.mode.current ∧
    agree k { w with mode := w.mode.read.2 } { w' with mode := w'.mode.read.2 } ∧
      move k w w' k { w with mode := w.mode.read.2 } { w' with mode := w'.mode.read.2 }

namespace Comparison

variable {K ε δ κ : Type} [Preorder K] {C : Comparison K ε δ} {k : K}

theorem acts_log {e e' : Event} (h : ∀ k', k ≤ k' → SameEvent (C.value k') e e') :
    C.Acts (fun _ => Eq) k (World.log e) (World.log e') := by
  intro k₁ hk w w' hw
  obtain ⟨hw₂, hm⟩ := C.log hw (h k₁ hk)
  exact ⟨k₁, hw₂, hm, .ok rfl⟩

theorem acts_log_same (e : Event) : C.Acts (fun _ => Eq) k (World.log e) (World.log e) :=
  acts_log fun _ _ => .refl e

/-- What both runs do with their heaps agrees if it does for the heaps of states that agree. -/
theorem acts_readHeap {α β : Type} {R : K → α → β → Prop} {f : Heap → Action (World ε) α}
    {g : Heap → Action (World δ) β}
    (h : ∀ k', k ≤ k' → ∀ w w', C.agree k' w w' → C.Acts R k' (f w.heap) (g w'.heap)) :
    C.Acts R k (World.readHeap >>= f) (World.readHeap >>= g) := by
  intro k₁ hk w w' hw
  simp only [Action.exec_bind, World.exec_readHeap]
  exact h k₁ hk w w' hw k₁ le_rfl w w' hw

theorem acts_effectiveMode (override : Option FailureMode) :
    C.Acts (fun _ => Eq) k (effectiveMode override) (effectiveMode override) := by
  cases override with
  | some m => exact Simulation.acts_pure fun _ _ => rfl
  | none =>
    intro k₁ hk w w' hw
    obtain ⟨hmode, hw₂, hm⟩ := C.readMode hw
    refine ⟨k₁, hw₂, hm, ?_⟩
    simp only [effectiveMode, World.exec_failureMode, ModeCell.read_fst, hmode]
    exact .ok rfl

theorem acts_report (override : Option FailureMode) (v : Violation) :
    C.Acts (fun _ => Eq) k (report override v) (report override v) := by
  refine Simulation.acts_bind (acts_effectiveMode override) ?_
  rintro k' hk m _ rfl
  cases m with
  | throw => exact Simulation.acts_pure fun _ _ => rfl
  | log =>
    refine Simulation.acts_bind (acts_log_same _) ?_
    rintro k'' hk' _ _ _
    exact Simulation.acts_pure fun _ _ => rfl

/-! ## Texts -/

section Texts

variable {w : World ε} {w' : World δ} (hw : C.agree k w w') {i i' : Input}

include hw

theorem renderArgs_eq {vs vs' : List Value} (h : Forall₂ (C.value k) vs vs') :
    w.heap.renderArgs vs = w'.heap.renderArgs vs' := by
  unfold Heap.renderArgs
  rw [map_eq_of_forall₂ (fun _ _ hv => C.render hw hv) h]

theorem renderInput_eq (h : SameInput (C.value k) i i') : i.render w.heap = i'.render w'.heap := by
  cases h with
  | args hvs => exact renderArgs_eq hw hvs
  | value hv => exact C.render hw hv

theorem subject_eq (h : SameInput (C.value k) i i') (className member : String) :
    i.subject w.heap className member = i'.subject w'.heap className member := by
  cases h with
  | args hvs => simp only [Input.subject, renderArgs_eq hw hvs]
  | value hv => simp only [Input.subject, C.render hw hv]

theorem inputMember_eq (h : SameInput (C.value k) i i') :
    TraceEvent.inputMember w.heap i = TraceEvent.inputMember w'.heap i' := by
  cases h with
  | args hvs =>
    simp only [TraceEvent.inputMember, map_eq_of_forall₂ (fun _ _ hv => C.toJson hw hv) hvs]
  | value hv => simp only [TraceEvent.inputMember, C.toJson hw hv]

theorem renderResult_eq {r r' : Option Value} (h : Option.Rel (C.value k) r r') :
    r.map w.heap.render = r'.map w'.heap.render :=
  map_eq_of_optionRel (fun _ _ hv => C.render hw hv) h

theorem traceText_eq {x y : TraceEvent} (h : SameCheck (C.value k) x y) :
    x.text w.heap = y.text w'.heap := by
  have hresult : x.result.map (fun v => ("result", w.heap.toJson v)) =
      y.result.map (fun v => ("result", w'.heap.toJson v)) :=
    map_eq_of_optionRel (fun _ _ hv => by rw [C.toJson hw hv]) h.result
  simp only [TraceEvent.text, TraceEvent.toJson, h.kind, h.className, h.member, h.passed,
    h.failure, hresult, inputMember_eq hw h.input]

end Texts

/-! ## The protocol -/

/-- What a stage comes to: a verdict or a value, and the evaluation so far. -/
def StageSame {α β : Type} (C : Comparison K ε δ) (R : K → α → β → Prop) (k : K)
    (x : α × Evaluation) (y : β × Evaluation) : Prop :=
  R k x.1 y.1 ∧ SameEvaluation (C.value k) x.2 y.2

/-- Outcomes that differ in the value alone. -/
def OutcomeSame (C : Comparison K ε δ) (k : K) :
    Except ContractError Value → Except ContractError Value → Prop :=
  Ends (C.value k)

/-- Outcomes that differ in the value, and in the error as far as it is of `E`. -/
def OutcomeLike (C : Comparison K ε δ) (E : ContractError → ContractError → Prop) (k : K) :
    Except ContractError Value → Except ContractError Value → Prop :=
  EndsIn E (C.value k)

theorem outcomeLike_eq : C.OutcomeLike Eq = C.OutcomeSame := by
  funext k
  exact endsIn_eq

theorem OutcomeLike.mono {E : ContractError → ContractError → Prop} {k' : K} (hk : k ≤ k')
    {r r' : Except ContractError Value} (h : C.OutcomeLike E k r r') : C.OutcomeLike E k' r r' := by
  cases h with
  | ok hv => exact .ok (C.value_mono hk hv)
  | error he => exact .error he

theorem OutcomeSame.mono {k' : K} (hk : k ≤ k') {r r' : Except ContractError Value}
    (h : C.OutcomeSame k r r') : C.OutcomeSame k' r r' := by
  cases h with
  | ok hv => exact .ok (C.value_mono hk hv)
  | error e => exact .error e

theorem StageSame.mono {α β : Type} {R : K → α → β → Prop}
    (hR : ∀ k k', k ≤ k' → ∀ a b, R k a b → R k' a b) {k' : K} (hk : k ≤ k') {x : α × Evaluation}
    {y : β × Evaluation} (h : C.StageSame R k x y) : C.StageSame R k' x y :=
  ⟨hR k k' hk _ _ h.1, h.2.mono fun _ _ => C.value_mono hk⟩

/-- Two calls that make the same checks, whose predicates agree, and for which what follows a check
agrees. The errors that the checks raise may differ as far as they are of `E`. -/
structure LikeFrame (C : Comparison K ε δ) (E : ContractError → ContractError → Prop) (k : K)
    (host : Host κ ε) (host' : Host κ δ) (f f' : Frame κ) : Prop where
  member : f.site.member = f'.site.member
  className : f.className = f'.className
  entry : f.spec.entry = f'.spec.entry
  exit : f.spec.exit = f'.spec.exit
  test_entry : ∀ p ∈ f.spec.entry,
    C.Starts (fun _ => Eq) k (f.test host none p.2 p.1) (f'.test host' none p.2 p.1)
  test_exit : ∀ p ∈ f.spec.exit, ∀ k', k ≤ k' → ∀ v v', C.value k' v v' →
    C.Starts (fun _ => Eq) k' (f.test host (some v) p.2 p.1) (f'.test host' (some v') p.2 p.1)
  observe : ∀ k', k ≤ k' → ∀ v v', Option.Rel (C.value k') v v' → ∀ g held,
    C.Acts (fun _ => EndsIn E Eq) k' (f.observe host v g held) (f'.observe host' v' g held)

section Frame

variable {host : Host κ ε} {host' : Host κ δ} {f f' : Frame κ} {e e' : Evaluation}
  {v v' : Option Value} {g : Guard} {code : κ}

theorem runs_settle {α β : Type} {R : K → α → β → Prop}
    (hR : ∀ k k', k ≤ k' → ∀ a b, R k a b → R k' a b) (stage : Stage)
    (he : SameEvaluation (C.value k) e e')
    {start : Action (World ε) (Eventual (World ε) α)}
    {start' : Action (World δ) (Eventual (World δ) β)} (h : C.Starts R k start start') :
    C.Runs (C.StageSame R) k (Frame.settle stage e start) (Frame.settle stage e' start') := by
  refine Simulation.runs_bind (Simulation.runs_lift h) ?_
  intro k' hk x y hxy
  have he' := he.mono fun _ _ => C.value_mono hk
  cases hxy with
  | ready hab =>
    exact Simulation.runs_done fun k'' hk' => StageSame.mono hR hk' ⟨hab, he'⟩
  | pending htu =>
    refine Simulation.runs_bind htu ?_
    intro k'' hk' a b hab
    refine Simulation.runs_done fun k₃ hk₃ => StageSame.mono hR hk₃ ⟨hab, ?_⟩
    exact (he'.mono fun _ _ => C.value_mono hk').suspend stage

namespace LikeFrame

variable {E : ContractError → ContractError → Prop}

theorem mono {k' : K} (hf : C.LikeFrame E k host host' f f') (hk : k ≤ k') :
    C.LikeFrame E k' host host' f f' :=
  { hf with
    test_entry := fun p hp => (hf.test_entry p hp).mono hk
    test_exit := fun p hp k'' hk' => hf.test_exit p hp k'' (le_trans hk hk')
    observe := fun k'' hk' => hf.observe k'' (le_trans hk hk') }

/-- One check agrees if its predicates do. -/
theorem runs_examine (hf : C.LikeFrame E k host host' f f') (hv : Option.Rel (C.value k) v v')
    (he : SameEvaluation (C.value k) e e')
    (htest : C.Starts (fun _ => Eq) k (f.test host v code g) (f'.test host' v' code g)) :
    C.Runs (C.StageSame fun _ => EndsIn E Eq) k (f.examine host v g code e)
      (f'.examine host' v' g code e') := by
  refine Simulation.runs_bind
    (runs_settle (fun _ _ _ _ _ h => h) (.check g) he htest) ?_
  rintro k' hk ⟨held, e₁⟩ ⟨_, e₂⟩ ⟨rfl, he₁⟩
  have hobs := hf.observe k' hk v v' (optionRel_mono (fun _ _ => C.value_mono hk) hv) g held
  refine Simulation.runs_bind (Simulation.runs_lift hobs) ?_
  intro k'' hk' verdict verdict' hverdict
  refine Simulation.runs_done fun k₃ hk₃ => ⟨?_, ?_⟩
  · cases hverdict with
    | ok _ => exact .ok rfl
    | error h => exact .error h
  · exact (he₁.mono fun _ _ => C.value_mono (le_trans hk' hk₃)).record g held

theorem runs_enter (hf : C.LikeFrame E k host host' f f') (he : SameEvaluation (C.value k) e e')
    (checks : List (Guard × κ)) (htest : ∀ p ∈ checks,
      C.Starts (fun _ => Eq) k (f.test host none p.2 p.1) (f'.test host' none p.2 p.1)) :
    C.Runs (C.StageSame fun _ => EndsIn E Eq) k (f.enter host checks e)
      (f'.enter host' checks e') := by
  induction checks generalizing k e e' with
  | nil =>
    exact Simulation.runs_done fun k' hk => ⟨.ok rfl, he.mono fun _ _ => C.value_mono hk⟩
  | cons p rest ih =>
    refine Simulation.runs_bind (hf.runs_examine .none he (htest p (by simp))) ?_
    rintro k' hk ⟨verdict, e₁⟩ ⟨verdict', e₂⟩ ⟨hverdict, he₁⟩
    have hstop : C.Runs (C.StageSame fun _ => EndsIn E Eq) k' (.done (verdict, e₁))
        (.done (verdict', e₂)) :=
      Simulation.runs_done fun k'' hk' => ⟨hverdict, he₁.mono fun _ _ => C.value_mono hk'⟩
    cases hverdict with
    | error h => exact hstop
    | @ok held _ h =>
      obtain rfl := h
      cases held with
      | false => exact hstop
      | true => exact ih (hf.mono hk) he₁ fun q hq => (htest q (by simp [hq])).mono hk

theorem runs_leave (hf : C.LikeFrame E k host host' f f') (he : SameEvaluation (C.value k) e e')
    {r r' : Value} (hr : C.value k r r') (checks : List (Guard × κ))
    (htest : ∀ p ∈ checks, ∀ k', k ≤ k' →
      C.Starts (fun _ => Eq) k' (f.test host (some r) p.2 p.1) (f'.test host' (some r') p.2 p.1)) :
    C.Runs (C.StageSame fun _ => EndsIn E Eq) k (f.leave host r checks e)
      (f'.leave host' r' checks e') := by
  induction checks generalizing k e e' with
  | nil =>
    exact Simulation.runs_done fun k' hk => ⟨.ok rfl, he.mono fun _ _ => C.value_mono hk⟩
  | cons p rest ih =>
    refine Simulation.runs_bind
      (hf.runs_examine (.some hr) he (htest p (by simp) k le_rfl)) ?_
    rintro k' hk ⟨verdict, e₁⟩ ⟨verdict', e₂⟩ ⟨hverdict, he₁⟩
    cases hverdict with
    | error h =>
      exact Simulation.runs_done fun k'' hk' => ⟨.error h, he₁.mono fun _ _ => C.value_mono hk'⟩
    | ok _ =>
      exact ih (hf.mono hk) he₁ (C.value_mono hk hr)
        fun q hq k'' hk' => htest q (by simp [hq]) k'' (le_trans hk hk')

theorem runs_stage_done {x y : Except ContractError Value × Evaluation}
    (h : C.StageSame (C.OutcomeLike E) k x y) :
    C.Runs (C.StageSame (C.OutcomeLike E)) k (.done x) (.done y) :=
  Simulation.runs_done fun _ hk => h.mono (fun _ _ hk _ _ h => h.mono hk) hk

/-- What follows the operation agrees. -/
theorem runs_conclude (hf : C.LikeFrame E k host host' f f') {r r' : Except ContractError Value}
    (hr : C.OutcomeLike E k r r') (he : SameEvaluation (C.value k) e e') :
    C.Runs (C.StageSame (C.OutcomeLike E)) k (f.conclude host r e) (f'.conclude host' r' e') := by
  cases hr with
  | error h => exact runs_stage_done ⟨.error h, he⟩
  | @ok v v' hr =>
    unfold Frame.conclude
    rw [← hf.exit]
    refine Simulation.runs_bind (hf.runs_leave (he.recordResult hr) hr f.spec.exit
      fun p hp k₁ hk₁ => hf.test_exit p hp k₁ hk₁ v v' (C.value_mono hk₁ hr)) ?_
    rintro k₁ hk₁ ⟨verdict, e₁⟩ ⟨verdict', e₂⟩ ⟨hverdict, he₁⟩
    cases hverdict with
    | error h => exact runs_stage_done ⟨.error h, he₁⟩
    | ok _ => exact runs_stage_done ⟨.ok (C.value_mono hk₁ hr), he₁⟩

theorem runs_stages (hf : C.LikeFrame E k host host' f f') {op : Action (World ε) (Completion ε)}
    {op' : Action (World δ) (Completion δ)} (hop : C.Starts (C.OutcomeLike E) k op op') :
    C.Runs (C.StageSame (C.OutcomeLike E)) k (f.stages host op) (f'.stages host' op') := by
  rw [Frame.stages_eq, Frame.stages_eq, ← hf.entry]
  refine Simulation.runs_bind (hf.runs_enter .empty f.spec.entry hf.test_entry) ?_
  rintro k₁ hk₁ ⟨verdict, e₁⟩ ⟨verdict', e₂⟩ ⟨hverdict, he₁⟩
  cases hverdict with
  | error h => exact runs_stage_done ⟨.error h, he₁⟩
  | @ok held _ h =>
    obtain rfl := h
    cases held with
    | false => exact runs_stage_done ⟨.ok (C.undefined k₁), he₁⟩
    | true =>
      refine Simulation.runs_bind
        (runs_settle (fun _ _ hk _ _ h => h.mono hk) .invocation he₁ (hop.mono hk₁)) ?_
      rintro k₂ hk₂ ⟨r, e₃⟩ ⟨r', e₄⟩ ⟨hr, he₂⟩
      exact (hf.mono (le_trans hk₁ hk₂)).runs_conclude hr he₂

/-- The evaluation in the journal, at the end of a protocol. -/
theorem runs_close (hf : C.LikeFrame E k host host' f f') {r r' : Except ContractError Value}
    (hr : C.OutcomeLike E k r r') (he : SameEvaluation (C.value k) e e') :
    C.Runs (C.StageSame (C.OutcomeLike E)) k (f.close r e) (f'.close r' e') := by
  have hok : r.isOk = r'.isOk := by cases hr <;> rfl
  unfold Frame.close
  rw [← hf.className, ← hf.member, hok]
  refine Simulation.runs_bind (Simulation.runs_lift (acts_log fun k₁ hk₁ =>
    .evaluated _ _ _ (he.mono fun _ _ => C.value_mono hk₁))) ?_
  rintro k₁ hk₁ _ _ _
  exact (runs_stage_done ⟨hr, he⟩).mono hk₁

/-- The protocols of two calls that agree show the same, poll by poll. -/
theorem runs_protocol (hf : C.LikeFrame E k host host' f f')
    {op : Action (World ε) (Completion ε)} {op' : Action (World δ) (Completion δ)}
    (hop : C.Starts (C.OutcomeLike E) k op op') :
    C.Runs (C.StageSame (C.OutcomeLike E)) k (f.run host op) (f'.run host' op') := by
  rw [Frame.run_eq, Frame.run_eq]
  refine Simulation.runs_bind (hf.runs_stages hop) ?_
  rintro k₁ hk₁ ⟨r, e₁⟩ ⟨r', e₂⟩ ⟨hr, he⟩
  exact (hf.mono hk₁).runs_close hr he

/-- Two calls that agree start alike: both outcomes are there, or both calls are pending and agree
from then on. -/
theorem starts (hf : C.LikeFrame E k host host' f f')
    {op : Action (World ε) (Completion ε)} {op' : Action (World δ) (Completion δ)}
    (hop : C.Starts (C.OutcomeLike E) k op op') :
    C.Starts (C.OutcomeLike E) k (invoke host f op) (invoke host' f' op') := by
  intro k₁ hk₁ w w' hw
  obtain ⟨k₂, hw₂, hm, hp⟩ := (hf.runs_protocol hop).pollsTo k₁ hk₁ w w' hw
  simp only [invoke, Action.exec_ofFun]
  revert hw₂ hm hp
  rcases (f.run host op).poll w with ⟨x, w₂⟩
  rcases (f'.run host' op').poll w' with ⟨y, w₂'⟩
  intro hw₂ hm hp
  cases hp with
  | aborted c => exact ⟨k₂, hw₂, hm, .error c⟩
  | waiting htu =>
    refine ⟨k₂, hw₂, hm, .ok (.pending (Simulation.runs_bind htu ?_))⟩
    rintro k₃ hk₃ x y ⟨hr, _⟩
    exact Simulation.runs_done fun k₄ hk₄ => hr.mono hk₄
  | @finished x y hxy =>
    obtain ⟨hr, he⟩ := hxy
    simp only [he.isSuspended]
    by_cases hsus : y.2.isSuspended
    · rw [if_pos hsus, if_pos hsus]
      exact ⟨k₂, hw₂, hm, .ok (.pending (Simulation.runs_done fun k₃ hk₃ => hr.mono hk₃))⟩
    · rw [if_neg hsus, if_neg hsus]
      exact ⟨k₂, hw₂, hm, .ok (.ready hr)⟩

end LikeFrame

end Frame

/-! ## Calls of one form -/

/-- Two calls whose contracts have the same checks and mode, and whose callbacks and traces
agree. -/
structure SameFrame (C : Comparison K ε δ) (k : K) (host : Host κ ε) (host' : Host κ δ)
    (f f' : Frame κ) : Prop where
  site : f.site = f'.site
  className : f.className = f'.className
  mode : f.spec.mode = f'.spec.mode
  invariant : f.spec.invariant = f'.spec.invariant
  precondition : f.spec.precondition = f'.spec.precondition
  postcondition : f.spec.postcondition = f'.spec.postcondition
  input : SameInput (C.value k) f.input f'.input
  holds : ∀ code, f.spec.invariant = some code →
    C.Starts (fun _ => Eq) k (host.holds code f.receiver) (host'.holds code f'.receiver)
  before : ∀ code, f.spec.precondition = some code →
    C.Starts (fun _ => Eq) k (host.accepts code f.input.values) (host'.accepts code f'.input.values)
  after : ∀ code, f.spec.postcondition = some code → ∀ k', k ≤ k' → ∀ v v', C.value k' v v' →
    C.Starts (fun _ => Eq) k' (host.accepts code (v :: f.input.values))
      (host'.accepts code (v' :: f'.input.values))
  emit : ∀ k', k ≤ k' → ∀ v v', Option.Rel (C.value k') v v' → ∀ g held,
    C.Acts (fun _ => Eq) k' (f.spec.trace.emit host (f.traceEvent v g held))
      (f'.spec.trace.emit host' (f'.traceEvent v' g held))

section Frame

variable {host : Host κ ε} {host' : Host κ δ} {f f' : Frame κ} {e e' : Evaluation}
  {v v' : Option Value} {g : Guard}

theorem SameFrame.mono {k' : K} (hf : C.SameFrame k host host' f f') (hk : k ≤ k') :
    C.SameFrame k' host host' f f' :=
  { hf with
    input := hf.input.mono fun _ _ => C.value_mono hk
    holds := fun code hc => (hf.holds code hc).mono hk
    before := fun code hc => (hf.before code hc).mono hk
    after := fun code hc k'' hk' => hf.after code hc k'' (le_trans hk hk')
    emit := fun k'' hk' => hf.emit k'' (le_trans hk hk') }

theorem acts_observe (hf : C.SameFrame k host host' f f') (hv : Option.Rel (C.value k) v v')
    (held : Bool) :
    C.Acts (fun _ => Eq) k (f.observe host v g held) (f'.observe host' v' g held) := by
  refine Simulation.acts_bind (hf.emit k le_rfl v v' hv g held) ?_
  rintro k' hk _ _ _
  cases held with
  | true => exact Simulation.acts_pure fun _ _ => rfl
  | false =>
    refine acts_readHeap fun k'' hk' w w' hw => ?_
    have hf' := hf.mono (le_trans hk hk')
    have hsubject : f.subject w.heap v = f'.subject w'.heap v' := by
      simp only [Frame.subject, hf.site, hf.className, subject_eq hw hf'.input]
      cases hv with
      | none => rfl
      | some hv => simp only [C.render hw (C.value_mono (le_trans hk hk') hv)]
    rw [hsubject, hf.mode, hf.className, hf.site, hf.input.failure]
    exact acts_report _ _

theorem mem_entry {s : Spec κ} {p : Guard × κ} : p ∈ s.entry ↔
    (p.1 = .invariantBefore ∧ s.invariant = some p.2) ∨
      (p.1 = .precondition ∧ s.precondition = some p.2) := by
  obtain ⟨g, code⟩ := p
  cases hi : s.invariant <;> cases hp : s.precondition <;>
    simp [Spec.entry, hi, hp, eq_comm]

theorem mem_exit {s : Spec κ} {p : Guard × κ} : p ∈ s.exit ↔
    (p.1 = .postcondition ∧ s.postcondition = some p.2) ∨
      (p.1 = .invariantAfter ∧ s.invariant = some p.2) := by
  obtain ⟨g, code⟩ := p
  cases hi : s.invariant <;> cases hp : s.postcondition <;>
    simp [Spec.exit, hi, hp, eq_comm]

theorem SameFrame.entry_eq (hf : C.SameFrame k host host' f f') : f.spec.entry = f'.spec.entry := by
  simp only [Spec.entry, hf.invariant, hf.precondition]

theorem SameFrame.exit_eq (hf : C.SameFrame k host host' f f') : f.spec.exit = f'.spec.exit := by
  simp only [Spec.exit, hf.invariant, hf.postcondition]

theorem SameFrame.test_entry (hf : C.SameFrame k host host' f f') (p : Guard × κ)
    (hp : p ∈ f.spec.entry) :
    C.Starts (fun _ => Eq) k (f.test host none p.2 p.1) (f'.test host' none p.2 p.1) := by
  obtain ⟨g, code⟩ := p
  rcases mem_entry.mp hp with ⟨hg, hc⟩ | ⟨hg, hc⟩
  · cases hg; exact hf.holds code hc
  · cases hg; exact hf.before code hc

theorem SameFrame.test_exit (hf : C.SameFrame k host host' f f') {r r' : Value}
    (hr : C.value k r r') (p : Guard × κ) (hp : p ∈ f.spec.exit) (k' : K) (hk : k ≤ k') :
    C.Starts (fun _ => Eq) k' (f.test host (some r) p.2 p.1) (f'.test host' (some r') p.2 p.1) := by
  obtain ⟨g, code⟩ := p
  rcases mem_exit.mp hp with ⟨hg, hc⟩ | ⟨hg, hc⟩
  · cases hg; exact hf.after code hc k' hk r r' (C.value_mono hk hr)
  · cases hg; exact (hf.holds code hc).mono hk

theorem SameFrame.like (hf : C.SameFrame k host host' f f') :
    C.LikeFrame Eq k host host' f f' where
  member := by rw [hf.site]
  className := hf.className
  entry := hf.entry_eq
  exit := hf.exit_eq
  test_entry := hf.test_entry
  test_exit p hp k' hk _ _ hr := (hf.mono hk).test_exit hr p hp k' le_rfl
  observe := by
    intro k' hk v v' hv g held
    rw [endsIn_eq, ends_eq]
    exact acts_observe (hf.mono hk) hv held

theorem runs_enter (hf : C.SameFrame k host host' f f') (he : SameEvaluation (C.value k) e e')
    (checks : List (Guard × κ)) (htest : ∀ p ∈ checks,
      C.Starts (fun _ => Eq) k (f.test host none p.2 p.1) (f'.test host' none p.2 p.1)) :
    C.Runs (C.StageSame fun _ => Eq) k (f.enter host checks e) (f'.enter host' checks e') := by
  have h := hf.like.runs_enter he checks htest
  rwa [endsIn_eq, ends_eq] at h

theorem runs_stage_done {x y : Except ContractError Value × Evaluation}
    (h : C.StageSame C.OutcomeSame k x y) :
    C.Runs (C.StageSame C.OutcomeSame) k (.done x) (.done y) :=
  Simulation.runs_done fun _ hk => h.mono (fun _ _ hk _ _ h => h.mono hk) hk

theorem runs_conclude (hf : C.SameFrame k host host' f f') {r r' : Except ContractError Value}
    (hr : C.OutcomeSame k r r') (he : SameEvaluation (C.value k) e e') :
    C.Runs (C.StageSame C.OutcomeSame) k (f.conclude host r e) (f'.conclude host' r' e') := by
  rw [← outcomeLike_eq] at hr ⊢
  exact hf.like.runs_conclude hr he

theorem runs_close (hf : C.SameFrame k host host' f f') {r r' : Except ContractError Value}
    (hr : C.OutcomeSame k r r') (he : SameEvaluation (C.value k) e e') :
    C.Runs (C.StageSame C.OutcomeSame) k (f.close r e) (f'.close r' e') := by
  rw [← outcomeLike_eq] at hr ⊢
  exact hf.like.runs_close hr he

/-- The protocols of two calls that agree show the same, poll by poll. -/
theorem runs_run (hf : C.SameFrame k host host' f f') {op : Action (World ε) (Completion ε)}
    {op' : Action (World δ) (Completion δ)} (hop : C.Starts C.OutcomeSame k op op') :
    C.Runs (C.StageSame C.OutcomeSame) k (f.run host op) (f'.run host' op') := by
  rw [← outcomeLike_eq] at hop ⊢
  exact hf.like.runs_protocol hop

theorem starts_invoke (hf : C.SameFrame k host host' f f')
    {op : Action (World ε) (Completion ε)} {op' : Action (World δ) (Completion δ)}
    (hop : C.Starts C.OutcomeSame k op op') :
    C.Starts C.OutcomeSame k (invoke host f op) (invoke host' f' op') := by
  rw [← outcomeLike_eq] at hop ⊢
  exact hf.like.starts hop

end Frame

/-- A trace goes the same way in both runs if the sink is delivered to alike. -/
theorem acts_emit {host : Host κ ε} {host' : Host κ δ} {t : TraceSetting κ} {x y : TraceEvent}
    (hsink : ∀ code, t = .sink code →
      C.Acts (fun _ => Eq) k (host.deliver code x) (host'.deliver code y))
    (h : SameCheck (C.value k) x y) :
    C.Acts (fun _ => Eq) k (t.emit host x) (t.emit host' y) := by
  cases t with
  | disabled => exact Simulation.acts_pure fun _ _ => rfl
  | default =>
    refine acts_readHeap fun k' hk w w' hw => ?_
    have h' := h.mono fun _ _ => C.value_mono hk
    rw [h.kind, h.className, h.member, h.passed, h.failure, renderInput_eq hw h'.input,
      renderResult_eq hw h'.result]
    exact acts_log_same _
  | sink code =>
    refine acts_readHeap fun k' hk w w' hw => ?_
    simp only [traceText_eq hw (h.mono fun _ _ => C.value_mono hk), h.kind]
    refine Simulation.acts_bind (acts_log_same _) fun k'' hk' _ _ _ => ?_
    exact Simulation.acts_tryCatch ((hsink code rfl).mono (le_trans hk hk'))
      fun _ => acts_log_same _

/-! ## Calls -/

/-- The callbacks of a contract around one call agree. -/
structure SameChecks (C : Comparison K ε δ) (k : K) (host : Host κ ε) (host' : Host κ δ)
    (spec : Spec κ) (v v' : Value) (i i' : Input) : Prop where
  holds : ∀ code, spec.invariant = some code →
    C.Starts (fun _ => Eq) k (host.holds code v) (host'.holds code v')
  before : ∀ code, spec.precondition = some code →
    C.Starts (fun _ => Eq) k (host.accepts code i.values) (host'.accepts code i'.values)
  after : ∀ code, spec.postcondition = some code → ∀ k', k ≤ k' → ∀ r r', C.value k' r r' →
    C.Starts (fun _ => Eq) k' (host.accepts code (r :: i.values))
      (host'.accepts code (r' :: i'.values))
  deliver : ∀ code, spec.trace = .sink code → ∀ k', k ≤ k' → ∀ x y, SameCheck (C.value k') x y →
    C.Acts (fun _ => Eq) k' (host.deliver code x) (host'.deliver code y)

section Calls

variable {host : Host κ ε} {host' : Host κ δ} {v v' : Value} {i i' : Input}

theorem SameChecks.sameFrame {spec : Spec κ} (h : C.SameChecks k host host' spec v v' i i')
    (hi : SameInput (C.value k) i i') (site : CallSite) (className : String) :
    C.SameFrame k host host' ⟨site, spec, v, i, className⟩ ⟨site, spec, v', i', className⟩ where
  site := rfl
  className := rfl
  mode := rfl
  invariant := rfl
  precondition := rfl
  postcondition := rfl
  input := hi
  holds := h.holds
  before := h.before
  after := h.after
  emit := by
    intro k' hk r r' hr g held
    have hi' := hi.mono fun _ _ => C.value_mono hk
    have hfailure : (if held then none else some (i.failure g)) =
        if held then none else some (i'.failure g) := by rw [hi.failure]
    have hx : SameCheck (C.value k') (Frame.traceEvent ⟨site, spec, v, i, className⟩ r g held)
        (Frame.traceEvent ⟨site, spec, v', i', className⟩ r' g held) :=
      ⟨rfl, rfl, rfl, hi', hr, rfl, hfailure⟩
    exact acts_emit (fun code hc => h.deliver code hc k' hk _ _ hx) hx

theorem SameChecks.mono {spec : Spec κ} {k' : K} (h : C.SameChecks k host host' spec v v' i i')
    (hk : k ≤ k') : C.SameChecks k' host host' spec v v' i i' where
  holds code hc := (h.holds code hc).mono hk
  before code hc := (h.before code hc).mono hk
  after code hc k'' hk' := h.after code hc k'' (le_trans hk hk')
  deliver code hc k'' hk' := h.deliver code hc k'' (le_trans hk hk')

/-- All callbacks of a call agree: those of every contract around the operation, and the operation
itself. -/
def SameCallbacks (C : Comparison K ε δ) (k : K) (host : Host κ ε) (host' : Host κ δ)
    (v v' : Value) (i i' : Input) : Operation κ → Prop
  | .plain code => C.Starts C.OutcomeSame k (host.operate code v i) (host'.operate code v' i')
  | .checked _ spec inner =>
    C.SameChecks k host host' spec v v' i i' ∧ C.SameCallbacks k host host' v v' i i' inner

/-- Calls whose callbacks agree start alike, under any number of contracts. -/
theorem starts_call (hv : C.value k v v') (hi : SameInput (C.value k) i i') (op : Operation κ)
    (h : C.SameCallbacks k host host' v v' i i' op) :
    C.Starts C.OutcomeSame k (op.call host v i) (op.call host' v' i') := by
  induction op with
  | plain code => exact h
  | checked site spec inner ih =>
    refine acts_readHeap fun k' hk w w' hw => ?_
    unfold Operation.frame
    rw [C.label site hw (C.value_mono hk hv)]
    refine starts_invoke ?_ ((ih h.2).mono hk)
    exact (h.1.mono hk).sameFrame (hi.mono fun _ _ => C.value_mono hk) site _

end Calls

end Comparison
end Contracts
