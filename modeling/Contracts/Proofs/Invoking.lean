import Contracts.Proofs.Checkpoints
import Contracts.Proofs.Order

/-!
# Contracts.Proofs.Invoking

What the evaluation of a call tells about its operation.

* `Upholds.of_ends`  — what a future upholds holds where it has ended.
* `Frame.Ran`        — what the operation of a call gave, as the marks of the call show it.
* `Course.ran`       — the run in the account of a watched call is the one that its marks show.
* `Course.result_eq` — the result in the evaluation is the value that the operation gave.
* `invoked_iff_returned` — an evaluation that is closed counts as invoked if and only if the
  operation gave a value. An operation that ended with an error was called too, and does not count.
-/

namespace Contracts

variable {κ ε α : Type}

theorem Future.Upholds.of_ends {σ : Type} {R : σ → σ → Prop} {I : σ → Prop} {Q : α → σ → Prop}
    {t : Future σ α} {s s' : σ} {a : α} (h : t.Upholds R I Q s) (ht : t.Ends R s a s') :
    Q a s' := by
  induction ht with
  | done a s => exact h
  | get _ ih => exact ih h
  | put _ ih => exact ih h
  | wait hs _ ih => exact ih (h.2 _ hs)

/-! ## Marks of checks -/

theorem startedIn_append (marks marks' : List (Mark κ ε)) :
    startedIn (marks ++ marks') = startedIn marks ++ startedIn marks' := by
  induction marks with
  | nil => rfl
  | cons m rest ih =>
    cases m with
    | started callee moment => exact congrArg (callee :: ·) ih
    | settled reply => exact ih

theorem startedIn_turns (ts : List (Turn κ ε)) :
    startedIn (ts.flatMap Turn.marks) = ts.map Turn.callee := by
  induction ts with
  | nil => rfl
  | cons t ts ih =>
    rw [List.flatMap_cons, startedIn_append, ih]
    rfl

/-- No operation was started. -/
def Unoperated (marks : List (Mark κ ε)) : Prop := ∀ v i, .operation v i ∉ startedIn marks

/-- Who is passed is who was to be started. -/
theorem Passed.callees_eq {ps : List (Position κ)} {ts : List (Turn κ ε)} (h : Passed ps ts) :
    ts.map Turn.callee = ps.map Position.callee := by
  induction h with
  | nil => rfl
  | cons hpt _ ih => rw [List.map_cons, List.map_cons, hpt.1, ih]

namespace Frame

variable {f : Frame κ}

theorem checkCallee_ne (f : Frame κ) (result : Option Value) (p : Guard × κ) (v : Value)
    (i : Input) : f.checkCallee result p ≠ .operation v i := by
  obtain ⟨g, code⟩ := p
  intro h
  cases g <;> cases h

/-- Turns of checks start no operation. -/
theorem unoperated_turns (result : Option Value) (checks : List (Guard × κ))
    {ts : List (Turn κ ε)}
    (h : ∀ c ∈ ts.map Turn.callee, c ∈ checks.map (f.checkCallee result)) :
    Unoperated (ts.flatMap Turn.marks) := by
  intro v i hmem
  rw [startedIn_turns] at hmem
  obtain ⟨p, _, hp⟩ := List.mem_map.mp (h _ hmem)
  exact f.checkCallee_ne result p v i hp

/-- Turns that passed, and one at which the call was stopped, are turns of checks. -/
theorem unoperated_stopped {result : Option Value} (place : Guard × κ → Position κ)
    (hplace : ∀ p, (place p).callee = f.checkCallee result p) {checks : List (Guard × κ)}
    {ps qs : List (Position κ)} {p : Position κ} {ts : List (Turn κ ε)}
    (hps : checks.map place = ps ++ p :: qs) (hts : Passed ps ts) (moment : World ε) :
    Unoperated ((ts ++ [p.failed moment]).flatMap Turn.marks) := by
  have hcallees : checks.map (f.checkCallee result) =
      ps.map Position.callee ++ p.callee :: qs.map Position.callee := by
    rw [← List.map_cons, ← List.map_append, ← hps, List.map_map]
    exact List.map_congr_left fun p _ => (hplace p).symm
  refine f.unoperated_turns result checks fun c hc => ?_
  rw [List.map_append, hts.callees_eq] at hc
  rw [hcallees]
  rcases List.mem_append.mp hc with hc | hc
  · exact List.mem_append_left _ hc
  · exact List.mem_append_right _ (List.mem_cons.mpr (.inl (List.mem_singleton.mp hc)))

theorem unoperated_passed {result : Option Value} (place : Guard × κ → Position κ)
    (hplace : ∀ p, (place p).callee = f.checkCallee result p) {checks : List (Guard × κ)}
    {ts : List (Turn κ ε)} (hts : Passed (checks.map place) ts) :
    Unoperated (ts.flatMap Turn.marks) := by
  refine f.unoperated_turns result checks fun c hc => ?_
  rw [hts.callees_eq, List.map_map] at hc
  rwa [List.map_congr_left fun p _ => (hplace p).symm]

variable {host : Host κ ε} {checks : List (Guard × κ)} {w w' : World (ε × List (Mark κ ε))}

theorem Enters.marks {xs : List (Finding κ (ε × List (Mark κ ε)))}
    {verdict : Except ContractError Bool}
    (h : f.Enters Undisturbed host.watched checks w xs verdict w') :
    ∃ marks, w'.aside = w.aside ++ marks ∧ Unoperated marks := by
  have hends : (f.enter host.watched checks {}).Ends Undisturbed w (verdict, _) w' :=
    ends_enter.mpr ⟨xs, h, rfl⟩
  refine (upholds_enter (I := fun _ => True)
    (Q := fun _ w' => ∃ marks, w'.aside = w.aside ++ marks ∧ Unoperated marks)
    host f checks {} w (fun _ _ _ _ => trivial) ?_ ?_).of_ends hends
  · intro ts _ w₁ hts hw₁
    exact ⟨_, hw₁, unoperated_passed f.entryAt (fun _ => rfl) hts⟩
  · intro _ _ w₁ ps p qs ts moment hps hts hw₁ _
    exact ⟨_, hw₁, unoperated_stopped f.entryAt (fun _ => rfl) hps hts moment⟩

theorem Leaves.marks {result : Value} {ys : List (Finding κ (ε × List (Mark κ ε)))}
    {verdict : Except ContractError Unit}
    (h : f.Leaves Undisturbed host.watched result checks w ys verdict w') :
    ∃ marks, w'.aside = w.aside ++ marks ∧ Unoperated marks := by
  have hends : (f.leave host.watched result checks {}).Ends Undisturbed w (verdict, _) w' :=
    ends_leave.mpr ⟨ys, h, rfl⟩
  refine (upholds_leave (I := fun _ => True)
    (Q := fun _ w' => ∃ marks, w'.aside = w.aside ++ marks ∧ Unoperated marks)
    host f result checks {} w (fun _ _ _ _ => trivial) ?_ ?_).of_ends hends
  · intro ts _ w₁ hts hw₁
    exact ⟨_, hw₁, unoperated_passed (f.exitAt result) (fun _ => rfl) hts⟩
  · intro _ _ w₁ ps p qs ts moment hps hts hw₁ _
    exact ⟨_, hw₁,
      unoperated_stopped (f.exitAt result) (fun _ => rfl) hps hts moment⟩

theorem marks_of_settles {callee : Callee κ} {reply : α → Reply}
    {start : Action (World ε) (Eventual (World ε) α)} {a : α} {waited : Bool}
    (h : (watch callee reply start).Settles Undisturbed w a waited w') :
    w'.aside = w.aside ++ Turn.marks ⟨callee, w.main, reply a⟩ := by
  have hends : (settle .invocation {} (watch callee reply start)).Ends Undisturbed w (a, _) w' :=
    ends_settle.mpr ⟨waited, h, rfl⟩
  exact (upholds_turn (I := fun _ => True)
    (Q := fun x w' => w'.aside = w.aside ++ Turn.marks ⟨callee, w.main, reply x.1⟩)
    .invocation {} callee reply start w (fun _ _ => trivial) fun _ _ _ hw' => hw').of_ends hends

/-! ## The operation of a call -/

/-- What the marks of a call show of its operation: it was not called, or it was called once, on the
receiver and the input of the call, and has given `r`. -/
inductive Ran (f : Frame κ) (marks : List (Mark κ ε)) : Option (Except ContractError Value) → Prop
  | not_called (h : Unoperated marks) : Ran f marks none
  | called {before after : List (Mark κ ε)} (moment : World ε) (r : Except ContractError Value)
      (h : marks = before ++ .started (.operation f.receiver f.input) moment ::
        .settled (.outcome r) :: after)
      (hbefore : Unoperated before) (hafter : Unoperated after) : Ran f marks (some r)

/-- The run in the account of a watched call is the one that its marks show. -/
theorem Course.ran {operation : Action (World ε) (Completion ε)}
    {a : Account κ (ε × List (Mark κ ε))} {r : Except ContractError Value}
    (h : f.Course Undisturbed host.watched
      (watch (.operation f.receiver f.input) .outcome operation) w a r w') (hw : w.aside = []) :
    f.Ran w'.aside (a.run.map Run.result) := by
  cases h with
  | refused h | refusedRaised h =>
    obtain ⟨marks, hmarks, hnone⟩ := h.marks
    rw [hw, List.nil_append] at hmarks
    exact .not_called (hmarks ▸ hnone)
  | @failed xs o err h ho hr =>
    obtain ⟨marks, hmarks, hnone⟩ := h.marks
    rw [hw, List.nil_append] at hmarks
    have hafter : Unoperated ([] : List (Mark κ ε)) := fun _ _ => List.not_mem_nil
    refine .called o.begun.main o.result ?_ hnone hafter
    rw [marks_of_settles ho, hmarks]
    rfl
  | @completed xs ys o v verdict w' h ho hr hs =>
    obtain ⟨marks, hmarks, hnone⟩ := h.marks
    obtain ⟨marks', hmarks', hnone'⟩ := hs.marks
    rw [hw, List.nil_append] at hmarks
    refine .called o.begun.main o.result ?_ hnone hnone'
    rw [hmarks', marks_of_settles ho, hmarks, List.append_assoc]
    rfl

end Frame

/-! ## The result in the evaluation -/

theorem result_findings_noted (xs : List (Finding κ ε)) (e : Evaluation) :
    (xs.foldl Finding.note e).result = e.result := by
  induction xs generalizing e with
  | nil => rfl
  | cons x xs ih => exact (ih _).trans (result_noted (some x) e)

theorem Account.result_eq (a : Account κ ε) :
    a.evaluation.result = a.run.bind (·.result.toOption) := by
  rw [Account.evaluation, result_findings_noted, result_run_noted, result_findings_noted,
    Option.or_none]

theorem Account.invoked_iff (a : Account κ ε) :
    a.evaluation.invoked = true ↔ ∃ v, a.run.map Run.result = some (.ok v) := by
  rw [Evaluation.invoked, a.result_eq]
  rcases a.run with _ | ⟨_ | v, waited, begun, ended⟩
  · simp
  · simp [Except.toOption]
  · simp [Except.toOption]

/-- An error of the operation is the outcome of the call. -/
theorem Frame.Course.error_of_run {R : World ε → World ε → Prop} {host : Host κ ε} {f : Frame κ}
    {operation : Action (World ε) (Completion ε)} {w w' : World ε} {a : Account κ ε}
    {r : Except ContractError Value} (h : f.Course R host operation w a r w') {err : ContractError}
    (hrun : a.run.map Run.result = some (.error err)) : r = .error err := by
  cases h with
  | refused h | refusedRaised h => cases hrun
  | failed h ho hr =>
    rw [Option.map_some, Option.some_inj, hr] at hrun
    exact hrun
  | completed h ho hr hs =>
    rw [Option.map_some, Option.some_inj, hr] at hrun
    cases hrun

/-! ## Calls -/

/-- A call is started in any state, with any callbacks, and polled any number of times while others
do what they like to the state. Marking its callbacks does not change what it shows. When it has
ended, the journal has an evaluation with its outcome. This evaluation counts as invoked if and only
if the operation was called and gave a value. So it tells whether the operation was called unless
the operation ended with an error; then the error is the outcome of the call. -/
theorem invoked_iff_returned (host : Host κ ε) (f : Frame κ)
    (operation : Action (World ε) (Completion ε)) (changes : List (World ε → World ε))
    (w : World ε) :
    let call := (invoke host f operation).polls changes w
    let protocol := (f.run host operation).polls (id :: changes) w
    let seen := (f.run host.watched (watch (.operation f.receiver f.input) .outcome
      operation)).polls ((id :: changes).map World.changeMain) (w.beside [])
    (seen.1.result? = protocol.1.result? ∧ seen.2.main = protocol.2) ∧
      ∀ r, call.1.result? = some (.ok r) → ∃ e ran,
        protocol.1.result? = some (.ok (r, e)) ∧
        protocol.2.entries.head? =
          some (.evaluated f.className f.site.member r.isOk e) ∧
        f.Ran seen.2.aside ran ∧
        (e.invoked = true ↔ ∃ v, ran = some (.ok v)) ∧
        ((e.invoked = true ↔ ran.isSome = true) ↔ ∀ err, ran ≠ some (.error err)) ∧
        ∀ err, ran = some (.error err) → r = .error err := by
  intro call protocol seen
  obtain ⟨hresult, hmain⟩ := watched_polls host f (.operation f.receiver f.input) operation
    (id :: changes) (w.beside [])
  refine ⟨⟨hresult, hmain⟩, fun r hr => ?_⟩
  have hended : protocol.1.result?.map (·.map Prod.fst) = some (.ok r) :=
    (invoke_polls host f operation changes w).1 _ hr
  obtain ⟨e, hprotocol⟩ : ∃ e, protocol.1.result? = some (.ok (r, e)) := by
    rcases hp : protocol.1.result? with _ | _ | ⟨r', e⟩
    · rw [hp] at hended
      cases hended
    · rw [hp] at hended
      cases hended
    · rw [hp] at hended
      cases hended
      exact ⟨e, rfl⟩
  have hseen : seen.1.result? = some (.ok (r, e)) := hresult.trans hprotocol
  obtain ⟨w', hfinished⟩ : ∃ w', seen = (.finished (r, e), w') := by
    rcases hs : seen with ⟨x | c | rest, w'⟩
    · rw [hs] at hseen
      cases hseen
      exact ⟨w', rfl⟩
    · rw [hs] at hseen
      cases hseen
    · rw [hs] at hseen
      cases hseen
  have hends : (f.run host.watched (watch (.operation f.receiver f.input) .outcome
      operation)).Ends Undisturbed (World.changeMain id (w.beside [])) (r, e) w' :=
    Future.ends_of_polls (fun c hc s => aside_of_mem_changes hc s) hfinished
  obtain ⟨a, w₁, hcourse, rfl, rfl⟩ := Frame.ends_run.mp hends
  have hstate : protocol.2 = (f.closing a r w₁).main := by
    rw [show protocol.2 = seen.2.main from hmain.symm, hfinished]
  refine ⟨a.evaluation, a.run.map Run.result, hprotocol, ?_, ?_, a.invoked_iff, ?_, ?_⟩
  · rw [hstate]
    rfl
  · rw [hfinished]
    exact hcourse.ran rfl
  · rw [a.invoked_iff]
    rcases a.run.map Run.result with _ | err | v <;> simp
  · intro err hrun
    exact hcourse.error_of_run hrun

namespace Inkwell

/-- Writing fails. -/
def host : Host Unit Unit where
  accepts _ _ := pure (.ready true)
  holds _ _ := pure (.ready true)
  operate _ _ _ := pure (.ready (.error (.operation "no ink")))
  read _ _ := pure .undefined
  setUp _ _ _ := pure (.ok ())
  deliver _ _ := pure ()

def frame : Frame Unit where
  site := ⟨some "Inkwell", "write"⟩
  spec := { precondition := some (), trace := .disabled, mode := none }
  receiver := .undefined
  input := .args []
  className := "Inkwell"

def full : World Unit := { mode := .holding .log, own := () }

def written : Polled (World (Unit × List (Mark Unit Unit)))
    (Except ContractError Value × Evaluation) × World (Unit × List (Mark Unit Unit)) :=
  (frame.run host.watched (watch (.operation frame.receiver frame.input) .outcome
    (host.operate () frame.receiver frame.input))).polls [id] (full.beside [])

/-- The operation was called, and the evaluation does not count as invoked. -/
theorem called_not_invoked :
    ∃ r e, written.1.result? = some (.ok (r, e)) ∧ e.invoked = false ∧
      Callee.operation frame.receiver frame.input ∈ startedIn written.2.aside := by
  refine ⟨_, _, rfl, rfl, ?_⟩
  show _ ∈ [_, Callee.operation frame.receiver frame.input]
  exact List.mem_cons_of_mem _ List.mem_cons_self

end Inkwell

end Contracts
