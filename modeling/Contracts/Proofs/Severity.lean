import Contracts.Proofs.Accounts
import Contracts.Proofs.Simulation.Protocol

/-!
# Contracts.Proofs.Severity

One call in the two failure modes.

* `Frame.withMode`        — a call whose contract decides on the failure mode itself.
* `Account.failures`      — the checks of a call that failed.
* `Account.upToFailure`   — the account of a call up to its first failure.
* `course_throw_of_log`   — what happened in log mode happens in throw mode up to the first failure.
* `result_of_course_log`  — in log mode a violation is never an error.
* `log_and_throw_agree`   — the two runs of a call, driven to their end.
-/

namespace Contracts

variable {κ ε : Type}

theorem Spec.length_exit (s : Spec κ) : s.exit.length ≤ 2 := by
  rw [exit, List.length_append]
  cases s.postcondition <;> cases s.invariant <;> simp

/-! ## Failures -/

/-- The checks up to the first that failed. -/
def untilFailure : List (Finding κ ε) → List (Finding κ ε)
  | [] => []
  | x :: rest => if x.held then x :: untilFailure rest else [x]

def failuresIn (xs : List (Finding κ ε)) : List (Finding κ ε) := xs.filter fun x => !x.held

theorem failuresIn_eq_nil {xs : List (Finding κ ε)} :
    failuresIn xs = [] ↔ ∀ x ∈ xs, x.held = true := by
  simp [failuresIn]

theorem untilFailure_append {xs : List (Finding κ ε)} (h : failuresIn xs = [])
    (ys : List (Finding κ ε)) : untilFailure (xs ++ ys) = xs ++ untilFailure ys := by
  induction xs with
  | nil => rfl
  | cons x rest ih =>
    obtain ⟨hx, hrest⟩ := List.forall_mem_cons.mp (failuresIn_eq_nil.mp h)
    rw [List.cons_append, untilFailure, if_pos hx, ih (failuresIn_eq_nil.mpr hrest),
      List.cons_append]

/-- The first failure is the last check before the cut. -/
theorem untilFailure_eq {xs rest : List (Finding κ ε)} {x : Finding κ ε}
    (h : failuresIn xs = x :: rest) : ∃ before after, xs = before ++ x :: after ∧
      untilFailure xs = before ++ [x] ∧ ∀ y ∈ before, y.held = true := by
  induction xs with
  | nil => cases h
  | cons y ys ih =>
    cases hy : y.held with
    | true =>
      rw [failuresIn, List.filter_cons, if_neg (by simp [hy])] at h
      obtain ⟨before, after, rfl, hcut, hbefore⟩ := ih h
      refine ⟨y :: before, after, rfl, ?_, List.forall_mem_cons.mpr ⟨hy, hbefore⟩⟩
      rw [untilFailure, if_pos hy, hcut]
      rfl
    | false =>
      rw [failuresIn, List.filter_cons, if_pos (by simp [hy])] at h
      cases h
      exact ⟨[], ys, rfl, by rw [untilFailure, if_neg (by simp [hy])]; rfl, by simp⟩

namespace Account

def failures (a : Account κ ε) : List (Finding κ ε) := failuresIn a.findings

/-- The account up to the first failure. A failure before the operation ends an account anyway. -/
def upToFailure (a : Account κ ε) : Account κ ε := { a with exit := untilFailure a.exit }

theorem failures_eq (a : Account κ ε) : a.failures = failuresIn a.entry ++ failuresIn a.exit :=
  List.filter_append ..

end Account

namespace Frame

/-! ## Single checks -/

/-- The call under a contract with a failure mode of its own. -/
def withMode (f : Frame κ) (m : FailureMode) : Frame κ :=
  { f with spec := { f.spec with mode := some m } }

variable {R : World ε → World ε → Prop} {host : Host κ ε} {f : Frame κ}
  {operation : Action (World ε) (Completion ε)} {w w' : World ε} {x : Finding κ ε}

/-- Making a check does not depend on the mode. -/
theorem Made.withMode {m m' : FailureMode} (h : (f.withMode m).Made R host x) :
    (f.withMode m').Made R host x :=
  ⟨h.answers, h.traces⟩

theorem Examined.made {verdict : Except ContractError Bool} (h : f.Examined R host x verdict w') :
    f.Made R host x := by
  cases h with
  | held hx _ => exact hx
  | failed hx _ _ => exact hx

theorem Examined.eq_of_log {verdict : Except ContractError Bool}
    (h : (f.withMode .log).Examined R host x verdict w') :
    verdict = .ok x.held ∧ (x.held = true → w' = x.traced) := by
  rcases h with ⟨_, hx⟩ | ⟨_, hx, hr⟩
  · exact ⟨by rw [hx], fun _ => rfl⟩
  · cases hr with
    | raised hmode => cases hmode
    | written => exact ⟨by rw [hx]; rfl, fun h => by rw [hx] at h; cases h⟩

/-- A check that failed in one mode raises its violation in throw mode, in the state in which it
was traced. -/
theorem Made.raises {m : FailureMode} (h : (f.withMode m).Made R host x) (hx : x.held = false) :
    (f.withMode .throw).Examined R host x (.error (.violation (f.violation x))) x.traced :=
  .failed h.withMode hx (.raised rfl)

/-! ## The checks before and after the operation -/

/-- Before the operation a run in log mode goes on as in throw mode, or it stops at a failure that
is raised in throw mode. -/
theorem enters_throw_of_log {checks : List (Guard × κ)} {xs : List (Finding κ ε)}
    {verdict : Except ContractError Bool}
    (h : (f.withMode .log).Enters R host checks w xs verdict w') :
    (verdict = .ok true ∧ failuresIn xs = [] ∧
      (f.withMode .throw).Enters R host checks w xs (.ok true) w') ∨
    ∃ x ∈ xs, verdict = .ok false ∧ failuresIn xs = [x] ∧ untilFailure xs = xs ∧
      (f.withMode .throw).Enters R host checks w xs (.error (.violation (f.violation x)))
        x.traced := by
  induction h with
  | nil w => exact .inl ⟨rfl, rfl, .nil w⟩
  | @onward x checks w₁ w' xs verdict hn hx hs ih =>
    obtain ⟨hverdict, hstate⟩ := hx.eq_of_log
    have hheld : x.held = true := by simpa using hverdict.symm
    obtain rfl := hstate hheld
    have hx' : (f.withMode .throw).Examined R host x (.ok true) x.traced :=
      .held hx.made.withMode hheld
    have hcons : failuresIn (x :: xs) = failuresIn xs := by
      rw [failuresIn, List.filter_cons, if_neg (by simp [hheld]), failuresIn]
    rw [hcons]
    rcases ih with ⟨hv, hfail, hs'⟩ | ⟨y, hy, hv, hfail, hcut, hs'⟩
    · exact .inl ⟨hv, hfail, .onward hn hx' hs'⟩
    · refine .inr ⟨y, by simp [hy], hv, hfail, ?_, .onward hn hx' hs'⟩
      rw [untilFailure, if_pos hheld, hcut]
  | @stopped x w₁ verdict checks hn hx hv =>
    obtain ⟨hverdict, _⟩ := hx.eq_of_log
    have hheld : x.held = false := by
      rw [hverdict] at hv
      simpa using hv
    refine .inr ⟨x, by simp, by rw [hverdict, hheld], by simp [failuresIn, hheld],
      by simp [untilFailure, hheld], ?_⟩
    exact .stopped checks hn (hx.made.raises hheld) (by simp)

theorem enters_throw_of_log_ok {checks : List (Guard × κ)} {xs : List (Finding κ ε)}
    (h : (f.withMode .log).Enters R host checks w xs (.ok true) w') :
    failuresIn xs = [] ∧ (f.withMode .throw).Enters R host checks w xs (.ok true) w' := by
  obtain ⟨_, hfail, h'⟩ | ⟨_, _, hv, _⟩ := enters_throw_of_log h
  · exact ⟨hfail, h'⟩
  · cases hv

theorem enters_throw_of_log_refused {checks : List (Guard × κ)} {xs : List (Finding κ ε)}
    (h : (f.withMode .log).Enters R host checks w xs (.ok false) w') :
    ∃ x ∈ xs, failuresIn xs = [x] ∧ untilFailure xs = xs ∧
      (f.withMode .throw).Enters R host checks w xs (.error (.violation (f.violation x)))
        x.traced := by
  obtain ⟨hv, _⟩ | ⟨x, hx, _, h'⟩ := enters_throw_of_log h
  · cases hv
  · exact ⟨x, hx, h'⟩

theorem not_enters_log_error {checks : List (Guard × κ)} {xs : List (Finding κ ε)}
    {err : ContractError} : ¬ (f.withMode .log).Enters R host checks w xs (.error err) w' := by
  intro h
  obtain ⟨hv, _⟩ | ⟨_, _, hv, _⟩ := enters_throw_of_log h
  · cases hv
  · cases hv

/-- After the operation a run in log mode makes all checks. In throw mode it goes as far as the
first failure. -/
theorem leaves_throw_of_log {result : Value} {checks : List (Guard × κ)}
    {ys : List (Finding κ ε)} {verdict : Except ContractError Unit}
    (h : (f.withMode .log).Leaves R host result checks w ys verdict w') :
    verdict = .ok () ∧ ys.map (fun y => (y.guard, y.code)) = checks ∧
      match failuresIn ys with
      | [] => (f.withMode .throw).Leaves R host result checks w ys (.ok ()) w'
      | x :: _ => (f.withMode .throw).Leaves R host result checks w (untilFailure ys)
          (.error (.violation (f.violation x))) x.traced := by
  induction h with
  | nil w => exact ⟨rfl, rfl, .nil w⟩
  | @onward x checks w₁ w' held xs verdict hn hx hs ih =>
    obtain ⟨hverdict, hmap, ih⟩ := ih
    refine ⟨hverdict, by rw [List.map_cons, hmap], ?_⟩
    obtain ⟨_, hstate⟩ := hx.eq_of_log
    cases hheld : x.held with
    | true =>
      obtain rfl := hstate hheld
      have hx' : (f.withMode .throw).Examined R host x (.ok true) x.traced :=
        .held hx.made.withMode hheld
      rw [failuresIn, List.filter_cons, if_neg (by simp [hheld]), untilFailure, if_pos hheld,
        ← failuresIn]
      cases hfail : failuresIn xs with
      | nil =>
        rw [hfail] at ih
        exact .onward hn hx' ih
      | cons y rest =>
        rw [hfail] at ih
        exact .onward hn hx' ih
    | false =>
      rw [failuresIn, List.filter_cons, if_pos (by simp [hheld]), untilFailure,
        if_neg (by simp [hheld])]
      exact .stopped checks hn (hx.made.raises hheld)
  | stopped checks hn hx =>
    obtain ⟨hverdict, _⟩ := hx.eq_of_log
    cases hverdict

/-! ## The whole call -/

/-- What happened in log mode happens in throw mode too, up to the first failure. -/
theorem course_throw_of_log {a : Account κ ε} {r : Except ContractError Value}
    (h : (f.withMode .log).Course R host operation w a r w') :
    match a.failures with
    | [] => (f.withMode .throw).Course R host operation w a r w'
    | x :: _ => (f.withMode .throw).Course R host operation w a.upToFailure
        (.error (.violation (f.violation x))) x.traced := by
  rw [Account.failures_eq]
  cases h with
  | refused henter =>
    obtain ⟨x, _, hfail, _, henter'⟩ := enters_throw_of_log_refused henter
    rw [hfail]
    exact .refusedRaised henter'
  | refusedRaised henter => exact (not_enters_log_error henter).elim
  | failed henter ho hr =>
    obtain ⟨hfail, henter'⟩ := enters_throw_of_log_ok henter
    rw [hfail]
    exact .failed henter' ho hr
  | @completed xs ys o v verdict w' henter ho hr hleave =>
    obtain ⟨hfail, henter'⟩ := enters_throw_of_log_ok henter
    obtain ⟨rfl, _, hleave'⟩ := leaves_throw_of_log hleave
    rw [hfail, List.nil_append]
    cases hys : failuresIn ys with
    | nil =>
      rw [hys] at hleave'
      exact .completed henter' ho hr hleave'
    | cons x rest =>
      rw [hys] at hleave'
      exact .completed henter' ho hr hleave'

theorem findings_upToFailure {a : Account κ ε} {r : Except ContractError Value}
    (h : (f.withMode .log).Course R host operation w a r w') :
    a.upToFailure.findings = untilFailure a.findings := by
  cases h with
  | refused henter =>
    obtain ⟨_, _, _, hcut, _⟩ := enters_throw_of_log_refused henter
    rw [Account.findings, Account.findings, Account.upToFailure, List.append_nil, hcut,
      untilFailure, List.append_nil]
  | refusedRaised henter => exact (not_enters_log_error henter).elim
  | failed henter | completed henter =>
    exact (untilFailure_append (enters_throw_of_log_ok henter).1 _).symm

/-- The checks before the operation are those of the contract. -/
theorem Enters.guards {checks : List (Guard × κ)} {xs : List (Finding κ ε)}
    {verdict : Except ContractError Bool} (h : f.Enters R host checks w xs verdict w') :
    ∀ x ∈ xs, (x.guard, x.code) ∈ checks := by
  induction h with
  | nil => simp
  | onward _ _ _ ih =>
    exact List.forall_mem_cons.mpr ⟨by simp, fun x hx => List.mem_cons_of_mem _ (ih x hx)⟩
  | stopped => simp

/-- In log mode a violation is never an error. A call whose operation was not called had one, and
gives `undefined`. Every other call gives what its operation gives, with at most two violations
after a value and with none after an error. -/
theorem result_of_course_log {a : Account κ ε} {r : Except ContractError Value}
    (h : (f.withMode .log).Course R host operation w a r w') :
    match a.run with
    | none => r = .ok .undefined ∧ ∃ x, a.failures = [x] ∧
        (x.guard = .invariantBefore ∨ x.guard = .precondition)
    | some o => r = o.result ∧ a.failures.length ≤ 2 ∧
        (∀ x ∈ a.failures, x.guard = .postcondition ∨ x.guard = .invariantAfter) ∧
        ∀ err, o.result = .error err → a.failures = [] := by
  rw [Account.failures_eq]
  cases h with
  | refused henter =>
    obtain ⟨x, hx, hfail, _⟩ := enters_throw_of_log_refused henter
    refine ⟨rfl, x, by rw [hfail]; rfl, ?_⟩
    rcases Comparison.mem_entry.mp (henter.guards x hx) with ⟨hg, _⟩ | ⟨hg, _⟩
    · exact .inl hg
    · exact .inr hg
  | refusedRaised henter => exact (not_enters_log_error henter).elim
  | failed henter ho hr =>
    rw [(enters_throw_of_log_ok henter).1]
    exact ⟨hr.symm, by simp [failuresIn], by simp [failuresIn], fun _ _ => rfl⟩
  | @completed xs ys o v verdict w' henter ho hr hleave =>
    obtain ⟨rfl, hmap, _⟩ := leaves_throw_of_log hleave
    rw [(enters_throw_of_log_ok henter).1, List.nil_append]
    refine ⟨hr.symm, ?_, fun x hx => ?_, fun err herr => ?_⟩
    · calc (failuresIn ys).length ≤ ys.length := List.length_filter_le ..
        _ = f.spec.exit.length := by rw [← List.length_map, hmap]; rfl
        _ ≤ 2 := f.spec.length_exit
    · have hmem : (x.guard, x.code) ∈ f.spec.exit := by
        have hy := List.mem_map_of_mem (f := fun y => (y.guard, y.code)) (List.mem_filter.mp hx).1
        rw [hmap] at hy
        exact hy
      rcases Comparison.mem_exit.mp hmem with ⟨hg, _⟩ | ⟨hg, _⟩
      · exact .inl hg
      · exact .inr hg
    · rw [hr] at herr
      cases herr

end Frame

/-- One call in log mode and in throw mode, each driven to its end. If its callbacks never give up
it comes to its end. The account of the run in log mode says what happens in throw mode. Without a
failure the two runs are the same. Otherwise the run in throw mode is the same up to the trace of
the first failure: it makes the same checks and the same run of the operation, in the same states,
and then it ends with the violation of that failure. In log mode a violation is never an error. -/
theorem log_and_throw_agree (host : Host κ ε) (site : CallSite) (spec : Spec κ)
    (inner : Operation κ) (v : Value) (i : Input) (w : World ε) :
    let f := Operation.frame site spec v i w.heap
    let operation := inner.call host v i
    let run := fun m => ((Operation.checked site { spec with mode := some m } inner).call host
      v i).drive.exec w
    (f.Calm host operation → ∃ r w', run .log = (.ok r, w')) ∧
    ∀ r w', run .log = (.ok r, w') → ∃ a w₁,
      (f.withMode .log).Course Eq host operation w a r w₁ ∧ w' = f.closing a r w₁ ∧
      (match a.failures with
      | [] => run .throw = run .log
      | x :: _ => ∃ before after, a.findings = before ++ x :: after ∧
          (∀ y ∈ before, y.held = true) ∧ a.upToFailure.findings = before ++ [x] ∧
          (f.withMode .throw).Course Eq host operation w a.upToFailure
            (.error (.violation (f.violation x))) x.traced ∧
          run .throw = (.ok (.error (.violation (f.violation x))),
            f.closing a.upToFailure (.error (.violation (f.violation x))) x.traced)) ∧
      (match a.run with
      | none => r = .ok .undefined ∧ ∃ x, a.failures = [x] ∧
          (x.guard = .invariantBefore ∨ x.guard = .precondition)
      | some o => r = o.result ∧ a.failures.length ≤ 2 ∧
          (∀ x ∈ a.failures, x.guard = .postcondition ∨ x.guard = .invariantAfter) ∧
          ∀ err, o.result = .error err → a.failures = []) := by
  intro f operation run
  refine ⟨fun hcalm => ?_, fun r w' hlog => ?_⟩
  · have hcalm' : (f.withMode .log).Calm host operation := ⟨hcalm.tests, hcalm.operates⟩
    obtain ⟨a, r, w₁, hcourse⟩ := Frame.exists_course hcalm' w
    exact ⟨r, _, Operation.exec_call_iff.mpr ⟨a, w₁, hcourse, rfl⟩⟩
  · obtain ⟨a, w₁, hcourse, rfl⟩ := Operation.exec_call_iff.mp hlog
    change (f.withMode .log).Course Eq host operation w a r w₁ at hcourse
    refine ⟨a, w₁, hcourse, rfl, ?_, Frame.result_of_course_log hcourse⟩
    have hthrow := Frame.course_throw_of_log hcourse
    cases hfail : a.failures with
    | nil =>
      rw [hfail] at hthrow
      rw [hlog]
      exact Operation.exec_call_iff.mpr ⟨a, w₁, hthrow, rfl⟩
    | cons x rest =>
      rw [hfail] at hthrow
      obtain ⟨before, after, hfindings, hcut, hbefore⟩ := untilFailure_eq hfail
      exact ⟨before, after, hfindings, hbefore, (Frame.findings_upToFailure hcourse).trans hcut,
        hthrow, Operation.exec_call_iff.mpr ⟨_, _, hthrow, rfl⟩⟩

namespace Teapot

/-- Pouring empties the teapot, and the cup is never full enough. -/
def host : Host Unit Bool where
  accepts _ _ := pure (.ready false)
  holds _ _ := do
    let w ← get
    pure (.pending (.waits 1 (.done (!w.own))))
  operate _ _ _ := do
    modify fun w => { w with own := true }
    pure (.ready (.ok .undefined))
  read _ _ := pure .undefined
  setUp _ _ _ := pure (.ok ())
  deliver _ _ := pure ()

def site : CallSite := ⟨some "Teapot", "pour"⟩

def spec : Spec Unit := { invariant := some (), postcondition := some () }

def world : World Bool := { mode := .holding .log, own := false }

def frame : Frame Unit := Operation.frame site spec .undefined (.args []) world.heap

def pour (m : FailureMode) : Except Abort (Except ContractError Value) × World Bool :=
  ((Operation.checked site { spec with mode := some m } (.plain ())).call host .undefined
    (.args [])).drive.exec world

theorem calm : frame.Calm host ((Operation.plain ()).call host .undefined (.args [])) where
  tests := by
    rintro ⟨g, code⟩ _ result w
    cases g with
    | invariantBefore | invariantAfter => exact ⟨_, w, rfl, trivial⟩
    | precondition | postcondition => exact ⟨_, w, rfl, trivial⟩
  operates w := ⟨_, { w with own := true }, rfl, trivial⟩

/-- Both checks after the operation fail. In log mode the value is given all the same; in throw mode
one of the two violations is raised. -/
theorem raised_once : frame.Calm host ((Operation.plain ()).call host .undefined (.args [])) ∧
    (pour .log).1 = .ok (.ok .undefined) ∧
    ∃ (a : Account Unit Bool) (x : Finding Unit Bool),
      a.upToFailure.findings.getLast? = some x ∧
      (pour .throw).1 = .ok (.error (.violation (frame.violation x))) := by
  obtain ⟨hends, hagree⟩ := log_and_throw_agree host site spec (.plain ()) .undefined (.args [])
    world
  obtain ⟨r, w', hlog⟩ := hends calm
  obtain ⟨a, w₁, _, _, hthrow, _⟩ := hagree r w' hlog
  refine ⟨calm, rfl, a, ?_⟩
  cases hfail : a.failures with
  | nil =>
    rw [hfail] at hthrow
    have hlogged : (pour .log).1.map (·.isOk) = .ok true := rfl
    have hraised : (pour .throw).1.map (·.isOk) = .ok false := rfl
    rw [show pour .throw = pour .log from hthrow, hlogged] at hraised
    cases hraised
  | cons x rest =>
    rw [hfail] at hthrow
    obtain ⟨before, after, _, _, hcut, _, hraised⟩ := hthrow
    exact ⟨x, by rw [hcut]; simp, congrArg Prod.fst hraised⟩

end Teapot

end Contracts
