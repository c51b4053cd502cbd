import Contracts.Operation
import Contracts.Proofs.Simulation
import Contracts.Timing

/-!
# Contracts.Proofs.Latency

Calls whose callbacks take their time.

* `Bodies`, `Timings` — what callbacks do, and when their answers are there.
* `Bodies.host`       — the host of both.
* `Alike`             — futures that come to the same when they are driven, up to the stage that
  is noted as the one that waited.
* `call_alike`        — a call that is driven to its end comes to the same under all timings.
-/

namespace Contracts

variable {κ ε α β : Type}

/-! ## Bodies and timings -/

/-- What callbacks do. -/
structure Bodies (κ ε : Type) where
  accepts : κ → List Value → Action (World ε) Bool
  holds : κ → Value → Action (World ε) Bool
  operate : κ → Value → Input → Action (World ε) (Except ContractError Value)
  read : κ → Value → Action (World ε) Value
  setUp : κ → Value → List Value → Action (World ε) (Except ContractError Unit)
  deliver : κ → TraceEvent → Action (World ε) Unit

/-- When the answers of callbacks are there. It may be different each time. -/
structure Timings (κ ε : Type) where
  accepts : κ → List Value → World ε → Timing
  holds : κ → Value → World ε → Timing
  operate : κ → Value → Input → World ε → Timing

def startAt (timing : World ε → Timing) (body : Action (World ε) α) :
    Action (World ε) (Eventual (World ε) α) := do
  (timing (← get)).start body

def Bodies.host (b : Bodies κ ε) (t : Timings κ ε) : Host κ ε where
  accepts code vs := startAt (t.accepts code vs) (b.accepts code vs)
  holds code v := startAt (t.holds code v) (b.holds code v)
  operate code v i := startAt (t.operate code v i) (b.operate code v i)
  read := b.read
  setUp := b.setUp
  deliver := b.deliver

/-- A callback that is waited for does what its body does. -/
theorem finish_startAt (timing : World ε → Timing) (body : Action (World ε) α) (w : World ε) :
    (do let e ← startAt timing body; e.finish : Action (World ε) α).exec w = body.exec w := by
  rw [← Timing.finish_start (timing w) body w]
  rfl

/-! ## What does not depend on timings -/

def Evaluation.unsuspended (e : Evaluation) : Evaluation := { e with suspendedAt := none }

/-- The entry without the note on the stage that waited. -/
def Event.unsuspended : Event → Event
  | .evaluated className member succeeded e => .evaluated className member succeeded e.unsuspended
  | e => e

/-- The state without that note in the newest entry of the journal. -/
def World.unsuspended (w : World ε) : World ε :=
  { w with entries := w.entries.modifyHead Event.unsuspended }

/-- Callbacks that come to the same when they are waited for. -/
def SameEnd (a b : Action (World ε) (Eventual (World ε) α)) : Prop :=
  ∀ w, (do let e ← a; e.finish : Action (World ε) α).exec w =
    (do let e ← b; e.finish : Action (World ε) α).exec w

/-- Futures that come to the same when they are driven, without that note. -/
def Alike (t u : Future (World ε) (α × Evaluation)) : Prop :=
  ∀ w, (t.drive w).2 = (u.drive w).2 ∧
    Ends (fun r r' => r.1 = r'.1 ∧ r.2.unsuspended = r'.2.unsuspended) (t.drive w).1 (u.drive w).1

theorem alike_done (a : α) {e e' : Evaluation} (h : e.unsuspended = e'.unsuspended) :
    Alike (.done (a, e) : Future (World ε) _) (.done (a, e')) :=
  fun _ => ⟨rfl, .ok ⟨rfl, h⟩⟩

theorem alike_bind {t u : Future (World ε) (α × Evaluation)}
    {f g : α × Evaluation → Future (World ε) (β × Evaluation)} (h : Alike t u)
    (hfg : ∀ a e e', e.unsuspended = e'.unsuspended → Alike (f (a, e)) (g (a, e'))) :
    Alike (t.bind f) (u.bind g) := by
  intro w
  obtain ⟨hstate, hend⟩ := h w
  simp only [Future.drive_bind]
  revert hstate hend
  rcases t.drive w with ⟨x, w₁⟩
  rcases u.drive w with ⟨y, w₂⟩
  rintro rfl hend
  cases hend with
  | error c => exact ⟨rfl, .error c⟩
  | @ok r r' h =>
    obtain ⟨a, e⟩ := r
    obtain ⟨_, e'⟩ := r'
    obtain ⟨rfl, he⟩ := h
    exact hfg a e e' he w₁

namespace Frame

variable {e e' : Evaluation} {host host' : Host κ ε} {f : Frame κ}

/-- A stage that is driven does what its callback does. -/
theorem drive_settle (stage : Stage) (e : Evaluation)
    (start : Action (World ε) (Eventual (World ε) α)) (w : World ε) :
    ∃ e', e'.unsuspended = e.unsuspended ∧ (settle stage e start).drive w =
      match (do let e ← start; e.finish : Action (World ε) α).exec w with
        | (.ok a, w') => (.ok (a, e'), w')
        | (.error c, w') => (.error c, w') := by
  simp only [settle, Future.bind_eq, Future.drive_bind, Future.drive_lift, Action.exec_bind]
  rcases start.exec w with ⟨c | a | t, w₁⟩
  · exact ⟨e, rfl, rfl⟩
  · exact ⟨e, rfl, rfl⟩
  · refine ⟨e.suspend stage, rfl, ?_⟩
    simp only [Future.drive_bind, Eventual.exec_finish, Eventual.toFuture]
    rcases t.drive w₁ with ⟨c | a, w₂⟩ <;> rfl

theorem alike_settle (stage : Stage) (he : e.unsuspended = e'.unsuspended)
    {start start' : Action (World ε) (Eventual (World ε) α)} (h : SameEnd start start') :
    Alike (settle stage e start) (settle stage e' start') := by
  intro w
  obtain ⟨e₁, he₁, h₁⟩ := drive_settle stage e start w
  obtain ⟨e₂, he₂, h₂⟩ := drive_settle stage e' start' w
  rw [h₁, h₂, h w]
  rcases (do let e ← start'; e.finish : Action (World ε) α).exec w with ⟨c | a, w'⟩
  · exact ⟨rfl, .error c⟩
  · exact ⟨rfl, .ok ⟨rfl, he₁.trans (he.trans he₂.symm)⟩⟩

/-- Two hosts whose callbacks come to the same when they are waited for. -/
structure SameEnds (host host' : Host κ ε) : Prop where
  accepts : ∀ code vs, SameEnd (host.accepts code vs) (host'.accepts code vs)
  holds : ∀ code v, SameEnd (host.holds code v) (host'.holds code v)
  deliver : host.deliver = host'.deliver

variable (h : SameEnds host host')

include h

theorem observe_eq (result : Option Value) (g : Guard) (held : Bool) :
    f.observe host result g held = f.observe host' result g held := by
  have hemit : ∀ e, f.spec.trace.emit host e = f.spec.trace.emit host' e := by
    intro e
    cases f.spec.trace <;> simp only [TraceSetting.emit, h.deliver]
  simp only [observe, hemit]

theorem sameEnd_test (result : Option Value) (code : κ) (g : Guard) :
    SameEnd (f.test host result code g) (f.test host' result code g) := by
  cases g with
  | invariantBefore => exact h.holds _ _
  | invariantAfter => exact h.holds _ _
  | precondition => exact h.accepts _ _
  | postcondition => exact h.accepts _ _

theorem alike_examine (he : e.unsuspended = e'.unsuspended) (result : Option Value) (g : Guard)
    (code : κ) : Alike (f.examine host result g code e) (f.examine host' result g code e') := by
  refine alike_bind (alike_settle (.check g) he (sameEnd_test h result code g)) ?_
  intro held e₁ e₂ he₁ w
  simp only [observe_eq h, Future.bind_eq, Future.drive_bind, Future.drive_lift]
  rcases (f.observe host' result g held).exec w with ⟨c | verdict, w₁⟩
  · exact ⟨rfl, .error c⟩
  · refine alike_done _ ?_ w₁
    cases g <;> simp_all [Evaluation.unsuspended, Evaluation.record]

theorem alike_enter (checks : List (Guard × κ)) (he : e.unsuspended = e'.unsuspended) :
    Alike (f.enter host checks e) (f.enter host' checks e') := by
  induction checks generalizing e e' with
  | nil => exact alike_done _ he
  | cons p rest ih =>
    refine alike_bind (alike_examine h he none p.1 p.2) ?_
    intro verdict e₁ e₂ he₁
    rcases verdict with err | _ | _
    · exact alike_done _ he₁
    · exact alike_done _ he₁
    · exact ih he₁

theorem alike_leave (result : Value) (checks : List (Guard × κ))
    (he : e.unsuspended = e'.unsuspended) :
    Alike (f.leave host result checks e) (f.leave host' result checks e') := by
  induction checks generalizing e e' with
  | nil => exact alike_done _ he
  | cons p rest ih =>
    refine alike_bind (alike_examine h he (some result) p.1 p.2) ?_
    intro verdict e₁ e₂ he₁
    cases verdict with
    | error err => exact alike_done _ he₁
    | ok _ => exact ih he₁

variable {operation operation' : Action (World ε) (Completion ε)}
  (hop : SameEnd operation operation')

include hop

theorem alike_stages : Alike (f.stages host operation) (f.stages host' operation') := by
  refine alike_bind (alike_enter h f.spec.entry rfl) ?_
  intro verdict e₁ e₂ he₁
  rcases verdict with err | _ | _
  · exact alike_done _ he₁
  · exact alike_done _ he₁
  refine alike_bind (alike_settle .invocation he₁ hop) ?_
  intro outcome e₃ e₄ he₂
  cases outcome with
  | error err => exact alike_done _ he₂
  | ok result =>
    have hresult : (e₃.recordResult result).unsuspended = (e₄.recordResult result).unsuspended := by
      simp_all [Evaluation.unsuspended, Evaluation.recordResult]
    refine alike_bind (alike_leave h result f.spec.exit hresult) ?_
    intro verdict e₅ e₆ he₃
    cases verdict with
    | error err => exact alike_done _ he₃
    | ok _ => exact alike_done _ he₃

/-- A protocol that is driven to its end comes to the same, and leaves the same state but for the
note on the stage that waited. -/
theorem drive_run (w : World ε) :
    ((f.run host operation).drive w).1.map Prod.fst =
        ((f.run host' operation').drive w).1.map Prod.fst ∧
      ((f.run host operation).drive w).2.unsuspended =
        ((f.run host' operation').drive w).2.unsuspended := by
  obtain ⟨hstate, hend⟩ := alike_stages (f := f) h hop w
  simp only [run, Future.bind_eq, Future.drive_bind, Future.drive_lift]
  revert hstate hend
  rcases (f.stages host operation).drive w with ⟨x, w₁⟩
  rcases (f.stages host' operation').drive w with ⟨y, w₂⟩
  rintro rfl hend
  cases hend with
  | error c => exact ⟨rfl, rfl⟩
  | @ok r r' h =>
    obtain ⟨outcome, e⟩ := r
    obtain ⟨_, e'⟩ := r'
    obtain ⟨rfl, he⟩ := h
    refine ⟨rfl, ?_⟩
    have hevent : Event.unsuspended (.evaluated f.className f.site.member outcome.isOk e) =
        Event.unsuspended (.evaluated f.className f.site.member outcome.isOk e') := by
      simp only [Event.unsuspended, he]
    simp only [World.exec_log, World.unsuspended]
    exact congrArg (fun ev => { w₁ with entries := ev :: w₁.entries }) hevent

end Frame

/-! ## Calls -/

/-- A call that is waited for is its protocol driven to the end. -/
theorem finish_invoke (host : Host κ ε) (f : Frame κ) (operation : Action (World ε) (Completion ε))
    (w : World ε) :
    (do let c ← invoke host f operation; c.finish : Action (World ε) _).exec w =
      (((f.run host operation).drive w).1.map Prod.fst, ((f.run host operation).drive w).2) := by
  rw [Action.exec_bind, Future.drive_eq_poll]
  simp only [invoke, Action.exec_ofFun]
  rcases (f.run host operation).poll w with ⟨⟨r, e⟩ | c | rest, w₁⟩
  · by_cases hsus : e.isSuspended
    · simp only [if_pos hsus]
      rfl
    · simp only [if_neg hsus]
      rfl
  · rfl
  · simp only [Eventual.exec_finish, Eventual.toFuture, Future.drive_bind]
    rcases rest.drive w₁ with ⟨c | ⟨r, e⟩, w₂⟩ <;> rfl

theorem finish_invoke_congr {host host' : Host κ ε} (h : Frame.SameEnds host host') (f : Frame κ)
    {operation operation' : Action (World ε) (Completion ε)} (hop : SameEnd operation operation')
    (w : World ε) :
    let one := (do let c ← invoke host f operation; c.finish : Action (World ε) _).exec w
    let other := (do let c ← invoke host' f operation'; c.finish : Action (World ε) _).exec w
    one.1 = other.1 ∧ one.2.unsuspended = other.2.unsuspended := by
  simp only [finish_invoke]
  exact Frame.drive_run h hop w

theorem finish_call (host : Host κ ε) (site : CallSite) (spec : Spec κ) (inner : Operation κ)
    (v : Value) (i : Input) (w : World ε) :
    (do let c ← (Operation.checked site spec inner).call host v i; c.finish :
      Action (World ε) _).exec w =
    (do let c ← invoke host (Operation.frame site spec v i w.heap) (inner.call host v i); c.finish :
      Action (World ε) _).exec w := by
  simp only [Action.exec_bind, Operation.call, World.exec_readHeap]

theorem Bodies.sameEnds (b : Bodies κ ε) (t t' : Timings κ ε) :
    Frame.SameEnds (b.host t) (b.host t') where
  accepts code vs w := by
    rw [Bodies.host, Bodies.host, finish_startAt, finish_startAt]
  holds code v w := by
    rw [Bodies.host, Bodies.host, finish_startAt, finish_startAt]
  deliver := rfl

/-- A call that is driven to its end with nothing happening in between comes to the same whether
the answers of its predicates and of its operation are there at once, after some polls, or after
work that is only done while it is polled: the same outcome or abort, and the same state with the
same journal. Only the stage that is noted as the one that waited may differ. -/
theorem call_alike (b : Bodies κ ε) (t t' : Timings κ ε) (form : Form) (site : CallSite)
    (spec : Spec κ) (code : κ) (receiver : Value) (args : List Value) (w : World ε) :
    let wrapped : Wrapped κ := ⟨form, .checked site spec (.plain code)⟩
    let one := (do let c ← wrapped.call (b.host t) receiver args; c.finish :
      Action (World ε) _).exec w
    let other := (do let c ← wrapped.call (b.host t') receiver args; c.finish :
      Action (World ε) _).exec w
    one.1 = other.1 ∧ one.2.unsuspended = other.2.unsuspended := by
  have hcall : ∀ v i,
      let op : Operation κ := .checked site spec (.plain code)
      let one := (do let c ← op.call (b.host t) v i; c.finish : Action (World ε) _).exec w
      let other := (do let c ← op.call (b.host t') v i; c.finish : Action (World ε) _).exec w
      one.1 = other.1 ∧ one.2.unsuspended = other.2.unsuspended := by
    intro v i
    simp only [finish_call]
    refine finish_invoke_congr (b.sameEnds t t') _ (fun w => ?_) w
    simp only [Operation.call, Bodies.host, finish_startAt]
  cases form with
  | method => exact hcall receiver (.args args)
  | setter => exact hcall receiver (.value (args.headD .undefined))
  | function => exact hcall .undefined (.args args)

end Contracts
