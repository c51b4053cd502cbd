import Contracts.Operation
import Contracts.Proofs.Observing
import Contracts.Proofs.Settling

/-!
# Contracts.Proofs.Accounts

What happens in a call, as a relation.

* `Traced`, `Reported` — a check is traced where its contract traces to, and its failure is raised
  or written down.
* `Finding`  — a check that was made, with the states that it went through.
* `Account`  — the checks of a call and the run of its operation, in order.
* `Frame.Course` — the ways in which a call comes to its end, and what each of them amounts to.
* `ends_run` — a protocol ends if and only if it has a course; its evaluation is that of the
  account.
* `Operation.exec_call_iff` — so a call that is driven to its end gives what its course says.

The states of an account fit together: each stage is taken up in the state that the one before it
left. In between others change the state as a relation `R` allows, and only while a stage waits.
-/

namespace Contracts

variable {κ ε α : Type}

/-! ## Traces and reports -/

/-- An event was sent where a contract traces to: nowhere, to the journal, or to a sink, which may
give up and is then ignored. -/
inductive Traced (host : Host κ ε) (e : TraceEvent) :
    TraceSetting κ → World ε → World ε → Prop where
  | off (w : World ε) : Traced host e .disabled w w
  | written (w : World ε) : Traced host e .default w
      { w with
        entries := .defaultTrace e.kind e.className e.member (e.input.render w.heap)
          (e.result.map w.heap.render) e.passed e.failure :: w.entries }
  | delivered {code : κ} {w w' : World ε}
      (h : (host.deliver code e).exec
        { w with entries := .traced (e.text w.heap) :: w.entries } = (.ok (), w')) :
      Traced host e (.sink code) w w'
  | ignored {code : κ} {w w' : World ε} {cause : Abort}
      (h : (host.deliver code e).exec
        { w with entries := .traced (e.text w.heap) :: w.entries } = (.error cause, w')) :
      Traced host e (.sink code) w { w' with entries := .sinkPanicked e.kind :: w'.entries }

theorem exec_emit_iff {host : Host κ ε} {t : TraceSetting κ} {e : TraceEvent} {w w' : World ε} :
    (t.emit host e).exec w = (.ok (), w') ↔ Traced host e t w w' := by
  constructor
  · intro h
    cases t with
    | disabled =>
      cases h
      exact .off w
    | default =>
      cases h
      exact .written w
    | sink code =>
      simp only [TraceSetting.emit, Action.exec_bind, World.exec_readHeap, World.exec_log,
        Action.exec_tryCatch] at h
      split at h
      · next hdeliver =>
        cases h
        exact .delivered hdeliver
      · next hdeliver =>
        cases h
        exact .ignored hdeliver
  · intro h
    cases h with
    | off => rfl
    | written => rfl
    | delivered h | ignored h =>
      simp only [TraceSetting.emit, Action.exec_bind, World.exec_readHeap, World.exec_log,
        Action.exec_tryCatch, h]

/-- What follows a trace starts in the state that the trace leaves. -/
theorem exec_emit_bind_iff {host : Host κ ε} {t : TraceSetting κ} {e : TraceEvent}
    {next : Unit → Action (World ε) α} {w w' : World ε} {r : Except Abort α} :
    (t.emit host e >>= next).exec w = (r, w') ↔
      ∃ w₁, Traced host e t w w₁ ∧ (next ()).exec w₁ = (r, w') := by
  obtain ⟨w₁, hemit, _⟩ := exec_emit host t e w
  simp only [Action.exec_bind, ← exec_emit_iff, hemit, Prod.mk.injEq, true_and, exists_eq_left']

/-- The state after a look at the failure mode. The process-wide one is only looked at where there
is no override. -/
def World.consulted (w : World ε) : Option FailureMode → World ε
  | none => { w with mode := w.mode.read.2 }
  | some _ => w

/-- A violation was raised, or written down, as the failure mode of this moment has it. -/
inductive Reported (override : Option FailureMode) (v : Violation) (w : World ε) :
    Except ContractError Unit → World ε → Prop where
  | raised (h : override.getD w.mode.current = .throw) :
      Reported override v w (.error (.violation v)) (w.consulted override)
  | written (h : override.getD w.mode.current = .log) : Reported override v w (.ok ())
      { w.consulted override with
        entries := .violated v.failure v.className v.message :: (w.consulted override).entries }

theorem exec_report_iff {override : Option FailureMode} {v : Violation} {w w' : World ε}
    {verdict : Except ContractError Unit} :
    (report override v).exec w = (.ok verdict, w') ↔ Reported override v w verdict w' := by
  -- the mode is looked at first, and then it decides
  have hlooked : (report override v).exec w =
      (report (some (override.getD w.mode.current)) v).exec (w.consulted override) := by
    cases override with
    | none =>
      simp only [report, effectiveMode, Action.exec_bind, World.exec_failureMode,
        ModeCell.read_fst, Option.getD_none]
      rfl
    | some m => rfl
  rw [hlooked]
  constructor
  · intro h
    cases hmode : override.getD w.mode.current with
    | throw =>
      rw [hmode] at h
      cases h
      exact .raised hmode
    | log =>
      rw [hmode] at h
      cases h
      exact .written hmode
  · rintro (hmode | hmode)
    · rw [hmode]
      rfl
    · rw [hmode]
      rfl

/-- A report never gives up. -/
theorem exec_report_eq_iff {override : Option FailureMode} {v : Violation} {w w' : World ε}
    {r : Except Abort (Except ContractError Unit)} :
    (report override v).exec w = (r, w') ↔
      ∃ verdict, r = .ok verdict ∧ Reported override v w verdict w' := by
  constructor
  · intro h
    obtain ⟨verdict, w₁, hreport, _⟩ := exec_report override v w
    cases h.symm.trans hreport
    exact ⟨verdict, rfl, exec_report_iff.mp hreport⟩
  · rintro ⟨verdict, rfl, h⟩
    exact exec_report_iff.mpr h

/-! ## Findings -/

/-- A check that was made. -/
structure Finding (κ ε : Type) where
  guard : Guard
  code : κ
  /-- The operation's result, for the checks after it. -/
  result : Option Value
  held : Bool
  waited : Bool
  /-- The states in which the predicate was started and in which it had answered, and the state
  after the trace of the check. -/
  begun : World ε
  answered : World ε
  traced : World ε

/-- The evaluation with a check that was made. -/
def Finding.note (e : Evaluation) (x : Finding κ ε) : Evaluation :=
  (if x.waited then e.suspend (.check x.guard) else e).record x.guard x.held

namespace Frame

/-- What is reported of a check that failed. -/
def violation (f : Frame κ) (x : Finding κ ε) : Violation :=
  .about (f.input.failure x.guard) f.className (some f.site.member)
    (f.subject x.traced.heap x.result)

/-- The predicate of the check was started and settled, and the check was traced. -/
structure Made (R : World ε → World ε → Prop) (host : Host κ ε) (f : Frame κ) (x : Finding κ ε) :
    Prop where
  answers : (f.test host x.result x.code x.guard).Settles R x.begun x.held x.waited x.answered
  traces : Traced host (f.traceEvent x.result x.guard x.held) f.spec.trace x.answered x.traced

/-- A check that was made, and reported if it failed; and the state that it left. -/
inductive Examined (R : World ε → World ε → Prop) (host : Host κ ε) (f : Frame κ)
    (x : Finding κ ε) : Except ContractError Bool → World ε → Prop where
  | held (hx : f.Made R host x) (h : x.held = true) : Examined R host f x (.ok true) x.traced
  | failed {verdict : Except ContractError Unit} {w' : World ε} (hx : f.Made R host x)
      (h : x.held = false) (hr : Reported f.spec.mode (f.violation x) x.traced verdict w') :
      Examined R host f x (verdict.map fun () => false) w'

variable {R : World ε → World ε → Prop} {host : Host κ ε} {f : Frame κ}

theorem ends_settle {stage : Stage} {e e' : Evaluation}
    {start : Action (World ε) (Eventual (World ε) α)} {w w' : World ε} {a : α} :
    (settle stage e start).Ends R w (a, e') w' ↔
      ∃ waited, start.Settles R w a waited w' ∧ e' = if waited then e.suspend stage else e := by
  simp only [settle, Future.bind_eq, Future.ends_bind, Future.ends_lift]
  constructor
  · rintro ⟨b | t, w₁, hstart, h⟩
    · obtain ⟨hb, rfl⟩ := Future.ends_done.mp h
      cases hb
      exact ⟨false, .ready hstart, rfl⟩
    · obtain ⟨b, w₂, ht, hb⟩ := Future.ends_bind.mp h
      obtain ⟨hb, rfl⟩ := Future.ends_done.mp hb
      cases hb
      exact ⟨true, .pending hstart ht, rfl⟩
  · rintro ⟨_, hstart | ⟨hstart, ht⟩, rfl⟩
    · exact ⟨.ready a, w', hstart, .done _ _⟩
    · exact ⟨.pending _, _, hstart, Future.ends_bind.mpr ⟨a, w', ht, .done _ _⟩⟩

theorem exec_observe_iff {result : Option Value} {g : Guard} {held : Bool} {w w' : World ε}
    {verdict : Except ContractError Unit} :
    (f.observe host result g held).exec w = (.ok verdict, w') ↔
      ∃ w₁, Traced host (f.traceEvent result g held) f.spec.trace w w₁ ∧
        if held then verdict = .ok () ∧ w' = w₁
        else Reported f.spec.mode (.about (f.input.failure g) f.className (some f.site.member)
          (f.subject w₁.heap result)) w₁ verdict w' := by
  simp only [observe, exec_emit_bind_iff]
  refine exists_congr fun w₁ => and_congr_right fun _ => ?_
  cases held with
  | true =>
    simp only [if_true, Action.exec_pure, Prod.mk.injEq, Except.ok.injEq, eq_comm]
  | false =>
    simp only [Bool.false_eq_true, if_false, Action.exec_bind, World.exec_readHeap,
      exec_report_iff]

theorem ends_examine {result : Option Value} {g : Guard} {code : κ} {e e' : Evaluation}
    {w w' : World ε} {verdict : Except ContractError Bool} :
    (f.examine host result g code e).Ends R w (verdict, e') w' ↔
      ∃ x : Finding κ ε, x.guard = g ∧ x.code = code ∧ x.result = result ∧ x.begun = w ∧
        f.Examined R host x verdict w' ∧ e' = x.note e := by
  simp only [examine, Future.bind_eq, Future.ends_bind, Future.ends_lift]
  constructor
  · rintro ⟨⟨held, e₁⟩, w₁, hsettle, v, w₂, hobserve, hdone⟩
    obtain ⟨waited, hstart, rfl⟩ := ends_settle.mp hsettle
    obtain ⟨w₃, htraced, hrest⟩ := exec_observe_iff.mp hobserve
    obtain ⟨hdone, rfl⟩ := Future.ends_done.mp hdone
    cases hdone
    refine ⟨⟨g, code, result, held, waited, w, w₁, w₃⟩, rfl, rfl, rfl, rfl, ?_, rfl⟩
    cases held with
    | true =>
      obtain ⟨rfl, rfl⟩ := hrest
      exact .held ⟨hstart, htraced⟩ rfl
    | false => exact .failed ⟨hstart, htraced⟩ rfl hrest
  · rintro ⟨⟨g, code, result, held, waited, w, w₁, w₃⟩, rfl, rfl, rfl, rfl, hx, rfl⟩
    refine ⟨(held, _), w₁, ends_settle.mpr ⟨waited, ?_, rfl⟩, ?_⟩
    · rcases hx with ⟨hx, _⟩ | ⟨hx, _, _⟩
      · exact hx.answers
      · exact hx.answers
    · rcases hx with ⟨hx, h⟩ | ⟨hx, h, hreport⟩
      · cases h
        exact ⟨.ok (), w₃, exec_observe_iff.mpr ⟨w₃, hx.traces, rfl, rfl⟩, .done _ _⟩
      · cases h
        exact ⟨_, w', exec_observe_iff.mpr ⟨w₃, hx.traces, hreport⟩, .done _ _⟩

/-! ## The checks before and after the operation -/

/-- The checks before the operation, up to the first that does not let the call go on. -/
inductive Enters (R : World ε → World ε → Prop) (host : Host κ ε) (f : Frame κ) :
    List (Guard × κ) → World ε → List (Finding κ ε) → Except ContractError Bool → World ε →
      Prop where
  | nil (w : World ε) : Enters R host f [] w [] (.ok true) w
  | onward {x : Finding κ ε} {checks : List (Guard × κ)} {w w' : World ε}
      {xs : List (Finding κ ε)} {verdict : Except ContractError Bool} (hn : x.result = none)
      (hx : f.Examined R host x (.ok true) w) (hs : Enters R host f checks w xs verdict w') :
      Enters R host f ((x.guard, x.code) :: checks) x.begun (x :: xs) verdict w'
  | stopped {x : Finding κ ε} {w : World ε} {verdict : Except ContractError Bool}
      (checks : List (Guard × κ)) (hn : x.result = none) (hx : f.Examined R host x verdict w)
      (h : verdict ≠ .ok true) :
      Enters R host f ((x.guard, x.code) :: checks) x.begun [x] verdict w

/-- The checks after the operation, up to the first that raises its violation. -/
inductive Leaves (R : World ε → World ε → Prop) (host : Host κ ε) (f : Frame κ) (result : Value) :
    List (Guard × κ) → World ε → List (Finding κ ε) → Except ContractError Unit → World ε →
      Prop where
  | nil (w : World ε) : Leaves R host f result [] w [] (.ok ()) w
  | onward {x : Finding κ ε} {checks : List (Guard × κ)} {w w' : World ε} {held : Bool}
      {xs : List (Finding κ ε)} {verdict : Except ContractError Unit}
      (hn : x.result = some result) (hx : f.Examined R host x (.ok held) w)
      (hs : Leaves R host f result checks w xs verdict w') :
      Leaves R host f result ((x.guard, x.code) :: checks) x.begun (x :: xs) verdict w'
  | stopped {x : Finding κ ε} {w : World ε} {err : ContractError} (checks : List (Guard × κ))
      (hn : x.result = some result) (hx : f.Examined R host x (.error err) w) :
      Leaves R host f result ((x.guard, x.code) :: checks) x.begun [x] (.error err) w

theorem ends_enter {checks : List (Guard × κ)} {e e' : Evaluation} {w w' : World ε}
    {verdict : Except ContractError Bool} :
    (f.enter host checks e).Ends R w (verdict, e') w' ↔
      ∃ xs, f.Enters R host checks w xs verdict w' ∧ e' = xs.foldl Finding.note e := by
  induction checks generalizing e w with
  | nil =>
    simp only [enter, Future.pure_eq_done, Future.ends_done]
    constructor
    · rintro ⟨h, rfl⟩
      cases h
      exact ⟨[], .nil w', rfl⟩
    · rintro ⟨_, ⟨⟩, rfl⟩
      exact ⟨rfl, rfl⟩
  | cons p rest ih =>
    simp only [enter, Future.bind_eq, Future.ends_bind]
    constructor
    · rintro ⟨⟨v, e₁⟩, w₁, hexamine, h⟩
      obtain ⟨x, hguard, hcode, hn, rfl, hx, rfl⟩ := ends_examine.mp hexamine
      have hp : p = (x.guard, x.code) := by rw [hguard, hcode]
      subst hp
      rcases v with err | _ | _
      · obtain ⟨hd, rfl⟩ := Future.ends_done.mp h
        cases hd
        exact ⟨[x], .stopped rest hn hx (by simp), rfl⟩
      · obtain ⟨hd, rfl⟩ := Future.ends_done.mp h
        cases hd
        exact ⟨[x], .stopped rest hn hx (by simp), rfl⟩
      · obtain ⟨xs, hxs, rfl⟩ := ih.mp h
        exact ⟨x :: xs, .onward hn hx hxs, rfl⟩
    · rintro ⟨_, h, rfl⟩
      cases h with
      | onward hn hx hs =>
        exact ⟨(.ok true, _), _, ends_examine.mpr ⟨_, rfl, rfl, hn, rfl, hx, rfl⟩,
          ih.mpr ⟨_, hs, rfl⟩⟩
      | stopped _ hn hx hv =>
        refine ⟨(verdict, _), _, ends_examine.mpr ⟨_, rfl, rfl, hn, rfl, hx, rfl⟩, ?_⟩
        rcases verdict with err | _ | _
        · exact .done _ _
        · exact .done _ _
        · exact absurd rfl hv

theorem ends_leave {result : Value} {checks : List (Guard × κ)} {e e' : Evaluation}
    {w w' : World ε} {verdict : Except ContractError Unit} :
    (f.leave host result checks e).Ends R w (verdict, e') w' ↔
      ∃ xs, f.Leaves R host result checks w xs verdict w' ∧ e' = xs.foldl Finding.note e := by
  induction checks generalizing e w with
  | nil =>
    simp only [leave, Future.pure_eq_done, Future.ends_done]
    constructor
    · rintro ⟨h, rfl⟩
      cases h
      exact ⟨[], .nil w', rfl⟩
    · rintro ⟨_, ⟨⟩, rfl⟩
      exact ⟨rfl, rfl⟩
  | cons p rest ih =>
    simp only [leave, Future.bind_eq, Future.ends_bind]
    constructor
    · rintro ⟨⟨v, e₁⟩, w₁, hexamine, h⟩
      obtain ⟨x, hguard, hcode, hn, rfl, hx, rfl⟩ := ends_examine.mp hexamine
      have hp : p = (x.guard, x.code) := by rw [hguard, hcode]
      subst hp
      rcases v with err | held
      · obtain ⟨hd, rfl⟩ := Future.ends_done.mp h
        cases hd
        exact ⟨[x], .stopped rest hn hx, rfl⟩
      · obtain ⟨xs, hxs, rfl⟩ := ih.mp h
        exact ⟨x :: xs, .onward hn hx hxs, rfl⟩
    · rintro ⟨_, h, rfl⟩
      cases h with
      | onward hn hx hs =>
        exact ⟨(.ok _, _), _, ends_examine.mpr ⟨_, rfl, rfl, hn, rfl, hx, rfl⟩,
          ih.mpr ⟨_, hs, rfl⟩⟩
      | stopped _ hn hx =>
        exact ⟨(.error _, _), _, ends_examine.mpr ⟨_, rfl, rfl, hn, rfl, hx, rfl⟩, .done _ _⟩

end Frame

/-! ## The whole call -/

/-- A run of the operation of a call. -/
structure Run (ε : Type) where
  result : Except ContractError Value
  waited : Bool
  begun : World ε
  ended : World ε

/-- The evaluation with a run of the operation. -/
def Run.note (e : Evaluation) (o : Run ε) : Evaluation :=
  let e := if o.waited then e.suspend .invocation else e
  match o.result with
  | .ok v => e.recordResult v
  | .error _ => e

/-- What was done in a call. -/
structure Account (κ ε : Type) where
  entry : List (Finding κ ε)
  /-- The run of the operation, if the call came so far. -/
  run : Option (Run ε)
  exit : List (Finding κ ε)

namespace Account

def findings (a : Account κ ε) : List (Finding κ ε) := a.entry ++ a.exit

/-- What the call has found out. -/
def evaluation (a : Account κ ε) : Evaluation :=
  a.exit.foldl Finding.note (a.run.toList.foldl Run.note (a.entry.foldl Finding.note {}))

end Account

namespace Frame

/-- How a call comes to its end, up to the entry in the journal that closes it. -/
inductive Course (R : World ε → World ε → Prop) (host : Host κ ε) (f : Frame κ)
    (operation : Action (World ε) (Completion ε)) (w : World ε) :
    Account κ ε → Except ContractError Value → World ε → Prop where
  /-- A false check before the operation. -/
  | refused {xs : List (Finding κ ε)} {w' : World ε}
      (h : f.Enters R host f.spec.entry w xs (.ok false) w') :
      Course R host f operation w ⟨xs, none, []⟩ (.ok .undefined) w'
  /-- The same, raised. -/
  | refusedRaised {xs : List (Finding κ ε)} {err : ContractError} {w' : World ε}
      (h : f.Enters R host f.spec.entry w xs (.error err) w') :
      Course R host f operation w ⟨xs, none, []⟩ (.error err) w'
  /-- An error of the operation. -/
  | failed {xs : List (Finding κ ε)} {o : Run ε} {err : ContractError}
      (h : f.Enters R host f.spec.entry w xs (.ok true) o.begun)
      (ho : operation.Settles R o.begun o.result o.waited o.ended) (hr : o.result = .error err) :
      Course R host f operation w ⟨xs, some o, []⟩ (.error err) o.ended
  /-- A value of the operation, and the checks after it. -/
  | completed {xs ys : List (Finding κ ε)} {o : Run ε} {v : Value}
      {verdict : Except ContractError Unit} {w' : World ε}
      (h : f.Enters R host f.spec.entry w xs (.ok true) o.begun)
      (ho : operation.Settles R o.begun o.result o.waited o.ended) (hr : o.result = .ok v)
      (hs : f.Leaves R host v f.spec.exit o.ended ys verdict w') :
      Course R host f operation w ⟨xs, some o, ys⟩ (verdict.map fun () => v) w'

/-- The state with the entry that closes a call. -/
def closing (f : Frame κ) (a : Account κ ε) (r : Except ContractError Value) (w : World ε) :
    World ε :=
  { w with entries := .evaluated f.className f.site.member r.isOk a.evaluation :: w.entries }

variable {R : World ε → World ε → Prop} {host : Host κ ε} {f : Frame κ}
  {operation : Action (World ε) (Completion ε)} {w w' : World ε} {e : Evaluation}
  {r : Except ContractError Value}

theorem ends_stages : (f.stages host operation).Ends R w (r, e) w' ↔
    ∃ a : Account κ ε, f.Course R host operation w a r w' ∧ e = a.evaluation := by
  simp only [stages, Future.bind_eq, Future.ends_bind]
  constructor
  · rintro ⟨⟨verdict, e₁⟩, w₁, henter, h⟩
    obtain ⟨xs, hxs, rfl⟩ := ends_enter.mp henter
    rcases verdict with err | _ | _
    · obtain ⟨hd, rfl⟩ := Future.ends_done.mp h
      cases hd
      exact ⟨⟨xs, none, []⟩, .refusedRaised hxs, rfl⟩
    · obtain ⟨hd, rfl⟩ := Future.ends_done.mp h
      cases hd
      exact ⟨⟨xs, none, []⟩, .refused hxs, rfl⟩
    · obtain ⟨⟨outcome, e₂⟩, w₂, hrun, h⟩ := Future.ends_bind.mp h
      obtain ⟨waited, ho, rfl⟩ := ends_settle.mp hrun
      cases outcome with
      | error err =>
        obtain ⟨hd, rfl⟩ := Future.ends_done.mp h
        cases hd
        exact ⟨⟨xs, some ⟨.error err, waited, w₁, _⟩, []⟩, .failed hxs ho rfl, rfl⟩
      | ok v =>
        obtain ⟨⟨last, e₃⟩, w₃, hleave, h⟩ := Future.ends_bind.mp h
        obtain ⟨ys, hys, rfl⟩ := ends_leave.mp hleave
        have hcourse := Course.completed (o := ⟨.ok v, waited, w₁, w₂⟩) hxs ho rfl hys
        refine ⟨⟨xs, some ⟨.ok v, waited, w₁, w₂⟩, ys⟩, ?_⟩
        cases last with
        | error err =>
          obtain ⟨hd, rfl⟩ := Future.ends_done.mp h
          cases hd
          exact ⟨hcourse, rfl⟩
        | ok _ =>
          obtain ⟨hd, rfl⟩ := Future.ends_done.mp h
          cases hd
          exact ⟨hcourse, rfl⟩
  · rintro ⟨a, h, rfl⟩
    cases h with
    | refused h => exact ⟨(.ok false, _), w', ends_enter.mpr ⟨_, h, rfl⟩, .done _ _⟩
    | refusedRaised h => exact ⟨(.error _, _), w', ends_enter.mpr ⟨_, h, rfl⟩, .done _ _⟩
    | @failed xs o err h ho hr =>
      obtain ⟨result, waited, w₁, w₂⟩ := o
      cases hr
      exact ⟨(.ok true, _), w₁, ends_enter.mpr ⟨_, h, rfl⟩, Future.ends_bind.mpr
        ⟨(.error err, _), w₂, ends_settle.mpr ⟨waited, ho, rfl⟩, .done _ _⟩⟩
    | @completed xs ys o v verdict _ h ho hr hs =>
      obtain ⟨result, waited, w₁, w₂⟩ := o
      cases hr
      refine ⟨(.ok true, _), w₁, ends_enter.mpr ⟨_, h, rfl⟩, Future.ends_bind.mpr
        ⟨(.ok v, _), w₂, ends_settle.mpr ⟨waited, ho, rfl⟩, Future.ends_bind.mpr
          ⟨(verdict, _), w', ends_leave.mpr ⟨ys, hs, rfl⟩, ?_⟩⟩⟩
      cases verdict with
      | error err => exact .done _ _
      | ok _ => exact .done _ _

/-- A protocol ends if and only if it has a course, and it closes with what the account says. -/
theorem ends_run : (f.run host operation).Ends R w (r, e) w' ↔
    ∃ (a : Account κ ε) (w₁ : World ε), f.Course R host operation w a r w₁ ∧ e = a.evaluation ∧
      w' = f.closing a r w₁ := by
  simp only [run, Future.bind_eq, Future.ends_bind, Future.ends_lift, World.exec_log]
  constructor
  · rintro ⟨⟨r₁, e₁⟩, w₁, hstages, _, w₂, hlog, hd⟩
    obtain ⟨a, hcourse, rfl⟩ := ends_stages.mp hstages
    obtain ⟨hd, rfl⟩ := Future.ends_done.mp hd
    cases hd
    cases hlog
    exact ⟨a, w₁, hcourse, rfl, rfl⟩
  · rintro ⟨a, w₁, hcourse, rfl, rfl⟩
    exact ⟨(r, a.evaluation), w₁, ends_stages.mpr ⟨a, hcourse, rfl⟩, (), _, rfl, .done _ _⟩

/-- A call that is driven to its end gives what its course says. -/
theorem exec_invoke_iff : (invoke host f operation).drive.exec w = (.ok r, w') ↔
    ∃ (a : Account κ ε) (w₁ : World ε), f.Course Eq host operation w a r w₁ ∧
      w' = f.closing a r w₁ := by
  have hdrive : (invoke host f operation).drive.exec w = (.ok r, w') ↔
      ∃ e, (f.run host operation).drive w = (.ok (r, e), w') := by
    rw [Action.exec_drive, Future.drive_eq_poll]
    simp only [invoke, Action.exec_ofFun]
    rcases (f.run host operation).poll w with ⟨⟨r₁, e⟩ | c | rest, w₁⟩
    · by_cases hsus : e.isSuspended
      · simp [if_pos hsus, Eventual.toFuture, Future.drive]
      · simp [if_neg hsus, Eventual.toFuture, Future.drive]
    · simp
    · simp only [Eventual.toFuture, Future.drive_bind]
      rcases rest.drive w₁ with ⟨c | ⟨r₂, e⟩, w₂⟩
      · simp
      · simp [Future.drive]
  simp only [hdrive, ← Future.ends_eq_iff, ends_run]
  constructor
  · rintro ⟨_, a, w₁, hcourse, rfl, rfl⟩
    exact ⟨a, w₁, hcourse, rfl⟩
  · rintro ⟨a, w₁, hcourse, rfl⟩
    exact ⟨_, a, w₁, hcourse, rfl, rfl⟩

/-- A call that settles while others act has a course. -/
theorem exists_course_of_settles (hR : ∀ w, R w w) {waited : Bool}
    (h : (invoke host f operation).Settles R w r waited w') :
    ∃ (a : Account κ ε) (w₁ : World ε), f.Course R host operation w a r w₁ ∧
      w' = f.closing a r w₁ := by
  have hrun : ∃ e, (f.run host operation).Ends R w (r, e) w' := by
    rcases hp : (f.run host operation).poll w with ⟨⟨r₁, e⟩ | c | rest, w₁⟩
    · -- the protocol has ended while the call was started
      refine ⟨e, Future.ends_iff_poll.mpr (.inl ?_)⟩
      rw [hp]
      by_cases hsus : e.isSuspended
      · rcases h with h | ⟨h, ht⟩ <;>
          simp only [invoke, Action.exec_ofFun, hp, if_pos hsus] at h
        · cases h
        · cases h
          obtain ⟨rfl, rfl⟩ := Future.ends_done.mp ht
          rfl
      · rcases h with h | ⟨h, ht⟩ <;>
          simp only [invoke, Action.exec_ofFun, hp, if_neg hsus] at h
        · cases h
          rfl
        · cases h
    · rcases h with h | ⟨h, _⟩ <;> simp only [invoke, Action.exec_ofFun, hp] at h <;> cases h
    · rcases h with h | ⟨h, ht⟩ <;> simp only [invoke, Action.exec_ofFun, hp] at h
      · cases h
      · cases h
        obtain ⟨⟨r₂, e⟩, w₂, hrest, hd⟩ := Future.ends_bind.mp ht
        obtain ⟨rfl, rfl⟩ := Future.ends_done.mp hd
        exact ⟨e, Future.ends_iff_poll.mpr (.inr ⟨rest, w₁, w₁, hp, hR w₁, hrest⟩)⟩
  obtain ⟨e, hrun⟩ := hrun
  obtain ⟨a, w₁, hcourse, _, rfl⟩ := ends_run.mp hrun
  exact ⟨a, w₁, hcourse, rfl⟩

end Frame

/-! ## Calls that come to an end -/

namespace Frame

variable {host : Host κ ε} {f : Frame κ} {operation : Action (World ε) (Completion ε)}

/-- A check whose predicate comes to an answer is made. -/
theorem exists_made {P : Bool → Prop} (f : Frame κ) (g : Guard) {code : κ}
    (result : Option Value) (h : (f.test host result code g).Comes P) (w : World ε) :
    ∃ x : Finding κ ε, x.guard = g ∧ x.code = code ∧ x.result = result ∧ x.begun = w ∧
      P x.held ∧ f.Made Eq host x := by
  obtain ⟨held, waited, w₁, hanswers, hP⟩ := h.exists_settles w
  obtain ⟨w₂, hemit, _⟩ := exec_emit host f.spec.trace (f.traceEvent result g held) w₁
  exact ⟨⟨g, code, result, held, waited, w, w₁, w₂⟩, rfl, rfl, rfl, rfl, hP,
    ⟨hanswers, exec_emit_iff.mp hemit⟩⟩

theorem Made.exists_examined {x : Finding κ ε} (h : f.Made Eq host x) :
    ∃ verdict w', f.Examined Eq host x verdict w' := by
  cases hx : x.held with
  | true => exact ⟨_, _, .held h hx⟩
  | false =>
    obtain ⟨verdict, w', hreport, _⟩ := exec_report f.spec.mode (f.violation x) x.traced
    exact ⟨_, _, .failed h hx (exec_report_iff.mp hreport)⟩

/-- The predicates of a call and its operation never give up. -/
structure Calm (host : Host κ ε) (f : Frame κ) (operation : Action (World ε) (Completion ε)) :
    Prop where
  tests : ∀ p ∈ f.spec.entry ++ f.spec.exit, ∀ result,
    (f.test host result p.2 p.1).Comes fun _ => True
  operates : operation.Comes fun _ => True

theorem exists_enters {checks : List (Guard × κ)}
    (h : ∀ p ∈ checks, (f.test host none p.2 p.1).Comes fun _ => True) (w : World ε) :
    ∃ xs verdict w', f.Enters Eq host checks w xs verdict w' := by
  induction checks generalizing w with
  | nil => exact ⟨[], _, w, .nil w⟩
  | cons p rest ih =>
    obtain ⟨x, hg, hcode, hn, rfl, _, hx⟩ := f.exists_made p.1 none (h p (by simp)) w
    obtain ⟨verdict, w₁, hx⟩ := hx.exists_examined
    have hp : p = (x.guard, x.code) := by rw [hg, hcode]
    subst hp
    by_cases hv : verdict = .ok true
    · subst hv
      obtain ⟨xs, verdict, w', hs⟩ := ih (fun p hp => h p (by simp [hp])) w₁
      exact ⟨x :: xs, verdict, w', .onward hn hx hs⟩
    · exact ⟨[x], verdict, w₁, .stopped rest hn hx hv⟩

theorem exists_leaves {result : Value} {checks : List (Guard × κ)}
    (h : ∀ p ∈ checks, (f.test host (some result) p.2 p.1).Comes fun _ => True) (w : World ε) :
    ∃ xs verdict w', f.Leaves Eq host result checks w xs verdict w' := by
  induction checks generalizing w with
  | nil => exact ⟨[], _, w, .nil w⟩
  | cons p rest ih =>
    obtain ⟨x, hg, hcode, hn, rfl, _, hx⟩ := f.exists_made p.1 (some result) (h p (by simp)) w
    obtain ⟨verdict, w₁, hx⟩ := hx.exists_examined
    have hp : p = (x.guard, x.code) := by rw [hg, hcode]
    subst hp
    cases verdict with
    | ok held =>
      obtain ⟨xs, verdict, w', hs⟩ := ih (fun p hp => h p (by simp [hp])) w₁
      exact ⟨x :: xs, verdict, w', .onward hn hx hs⟩
    | error err => exact ⟨[x], _, w₁, .stopped rest hn hx⟩

/-- A call whose callbacks never give up comes to its end. -/
theorem exists_course (h : f.Calm host operation) (w : World ε) :
    ∃ a r w', f.Course Eq host operation w a r w' := by
  have hentry : ∀ p ∈ f.spec.entry, (f.test host none p.2 p.1).Comes fun _ => True :=
    fun p hp => h.tests p (List.mem_append_left _ hp) none
  have hexit : ∀ v, ∀ p ∈ f.spec.exit, (f.test host (some v) p.2 p.1).Comes fun _ => True :=
    fun v p hp => h.tests p (List.mem_append_right _ hp) (some v)
  obtain ⟨xs, verdict, w₁, henter⟩ := exists_enters hentry w
  rcases verdict with err | _ | _
  · exact ⟨_, _, w₁, .refusedRaised henter⟩
  · exact ⟨_, _, w₁, .refused henter⟩
  · obtain ⟨r, waited, w₂, hrun, _⟩ := h.operates.exists_settles w₁
    cases r with
    | error err => exact ⟨_, _, w₂, .failed (o := ⟨_, waited, w₁, w₂⟩) henter hrun rfl⟩
    | ok v =>
      obtain ⟨ys, verdict, w', hleave⟩ := exists_leaves (hexit v) w₂
      exact ⟨_, _, w', .completed (o := ⟨_, waited, w₁, w₂⟩) henter hrun rfl hleave⟩

end Frame

/-- A call under a contract that is driven to its end gives what its course says. -/
theorem Operation.exec_call_iff {host : Host κ ε} {site : CallSite} {spec : Spec κ}
    {inner : Operation κ} {v : Value} {i : Input} {w w' : World ε}
    {r : Except ContractError Value} :
    ((checked site spec inner).call host v i).drive.exec w = (.ok r, w') ↔
      ∃ (a : Account κ ε) (w₁ : World ε),
        (frame site spec v i w.heap).Course Eq host (inner.call host v i) w a r w₁ ∧
          w' = (frame site spec v i w.heap).closing a r w₁ := by
  rw [Action.exec_drive, exec_call_checked, ← Action.exec_drive, Frame.exec_invoke_iff]

end Contracts
