import Contracts.Proofs.Passages
import Contracts.Timing

/-!
# Contracts.Proofs.Readiness

When a call is ready, and how many polls it takes.

* `Leg`          — a stage that a call has reached, with the states in which it was waited for.
* `Frame.Times`  — the legs of a call, each taken up where the polls of those before it have ended.
* `passes_run`   — a protocol that is polled to its end has a course with legs, and their pauses.
* `readiness`    — a call is ready if no leg is pending, and else it takes as many polls as its legs
  have pauses, but one at least.
-/

namespace Contracts

variable {κ ε α : Type}

/-! ## Legs -/

/-- A stage that was reached. Its lag is nothing if its answer was there at once. -/
structure Leg (ε : Type) where
  stage : Stage
  lag : Option (List (World ε))

/-- The states in which these stages were waited for, in order. -/
def pausesIn (legs : List (Leg ε)) : List (World ε) := legs.flatMap fun leg => leg.lag.getD []

/-- The first stage whose answer was not there at once. -/
def firstPending (legs : List (Leg ε)) : Option Stage :=
  (legs.find? fun leg => leg.lag.isSome).map Leg.stage

theorem pausesIn_cons (stage : Stage) (lag : Option (List (World ε))) (legs : List (Leg ε)) :
    pausesIn (⟨stage, lag⟩ :: legs) = lag.getD [] ++ pausesIn legs :=
  List.flatMap_cons

theorem pausesIn_append (legs legs' : List (Leg ε)) :
    pausesIn (legs ++ legs') = pausesIn legs ++ pausesIn legs' :=
  List.flatMap_append

theorem firstPending_cons (stage : Stage) (lag : Option (List (World ε)))
    (legs : List (Leg ε)) : firstPending (⟨stage, lag⟩ :: legs) =
      if lag.isSome then some stage else firstPending legs := by
  rw [firstPending, List.find?_cons]
  cases lag <;> rfl

theorem firstPending_append (legs legs' : List (Leg ε)) :
    firstPending (legs ++ legs') = (firstPending legs <|> firstPending legs') := by
  rw [firstPending, List.find?_append, firstPending, firstPending]
  cases legs.find? fun leg => leg.lag.isSome <;> rfl

theorem firstPending_eq_none {legs : List (Leg ε)} :
    firstPending legs = none ↔ ∀ leg ∈ legs, leg.lag = none := by
  simp [firstPending, List.find?_eq_none]

/-- Without a pending stage there is nothing to wait for. -/
theorem pausesIn_eq_nil {legs : List (Leg ε)} (h : ∀ leg ∈ legs, leg.lag = none) :
    pausesIn legs = [] := by
  rw [pausesIn, List.flatMap_eq_nil_iff]
  intro leg hleg
  rw [h leg hleg]
  rfl

namespace Frame

variable {changes : Nat → World ε → World ε} {host : Host κ ε} {f : Frame κ}
  {operation : Action (World ε) (Completion ε)} {w w' : World ε} {n : Nat} {ps : List (World ε)}
  {e e' : Evaluation}

/-- The legs of checks that were made one after the other, the first one after `n` polls. -/
inductive Clocked (changes : Nat → World ε → World ε) (host : Host κ ε) (f : Frame κ) :
    Nat → List (Finding κ ε) → List (Leg ε) → Prop where
  | nil (n : Nat) : Clocked changes host f n [] []
  | cons {n : Nat} {x : Finding κ ε} {xs : List (Finding κ ε)} {lag : Option (List (World ε))}
      {legs : List (Leg ε)}
      (h : (f.test host x.result x.code x.guard).Visits changes n x.begun x.held lag x.answered)
      (hw : x.waited = lag.isSome)
      (hs : Clocked changes host f (n + (lag.getD []).length) xs legs) :
      Clocked changes host f n (x :: xs) (⟨.check x.guard, lag⟩ :: legs)

/-- The legs of a call. -/
inductive Times (changes : Nat → World ε → World ε) (host : Host κ ε) (f : Frame κ)
    (operation : Action (World ε) (Completion ε)) : Account κ ε → List (Leg ε) → Prop where
  | stopped {xs : List (Finding κ ε)} {legs : List (Leg ε)} (h : f.Clocked changes host 0 xs legs) :
      Times changes host f operation ⟨xs, none, []⟩ legs
  | through {xs ys : List (Finding κ ε)} {o : Run ε} {lag : Option (List (World ε))}
      {legs legs' : List (Leg ε)} (h : f.Clocked changes host 0 xs legs)
      (ho : operation.Visits changes (pausesIn legs).length o.begun o.result lag o.ended)
      (hw : o.waited = lag.isSome)
      (hs : f.Clocked changes host ((pausesIn legs).length + (lag.getD []).length) ys legs') :
      Times changes host f operation ⟨xs, some o, ys⟩ (legs ++ ⟨.invocation, lag⟩ :: legs')

/-! ## The order of the legs -/

section Order

variable {R : World ε → World ε → Prop}

theorem Clocked.stages {xs : List (Finding κ ε)} {legs : List (Leg ε)}
    (h : f.Clocked changes host n xs legs) :
    legs.map Leg.stage = (xs.map fun x => (x.guard, x.code)).map fun p => .check p.1 := by
  induction h with
  | nil => rfl
  | cons _ _ _ ih => simp only [List.map_cons, ih]

theorem sublist_entry (s : Spec κ) : (s.entry.map fun p => Stage.check p.1).Sublist
    [.check .invariantBefore, .check .precondition] := by
  cases hi : s.invariant <;> cases hp : s.precondition <;> simp [Spec.entry, hi, hp]

theorem sublist_exit (s : Spec κ) : (s.exit.map fun p => Stage.check p.1).Sublist
    [.check .postcondition, .check .invariantAfter] := by
  cases hq : s.postcondition <;> cases hi : s.invariant <;> simp [Spec.exit, hq, hi]

/-- A call reaches its stages in their order. -/
theorem Course.stages_sublist {a : Account κ ε} {legs : List (Leg ε)}
    {r : Except ContractError Value} (h : f.Course R host operation w a r w')
    (ht : f.Times changes host operation a legs) : (legs.map Leg.stage).Sublist Stage.all := by
  have hentry : ∀ {xs legs verdict w₁}, f.Enters R host f.spec.entry w xs verdict w₁ →
      f.Clocked changes host 0 xs legs →
      (legs.map Leg.stage).Sublist [.check .invariantBefore, .check .precondition] := by
    intro xs legs verdict w₁ henter hlegs
    rw [hlegs.stages]
    exact (henter.checks_prefix.sublist.map _).trans (sublist_entry f.spec)
  have hstopped : ∀ {xs legs verdict w₁}, f.Enters R host f.spec.entry w xs verdict w₁ →
      f.Clocked changes host 0 xs legs → (legs.map Leg.stage).Sublist Stage.all :=
    fun henter hlegs => (hentry henter hlegs).trans (by decide)
  cases h with
  | refused henter | refusedRaised henter =>
    cases ht with
    | stopped hlegs => exact hstopped henter hlegs
  | failed henter =>
    cases ht with
    | through hlegs _ _ hs =>
      cases hs with
      | nil =>
        have hmid : ([.check .invariantBefore, .check .precondition] ++ [.invocation] :
            List Stage).Sublist Stage.all := by decide
        rw [List.map_append]
        exact ((hentry henter hlegs).append (List.Sublist.refl [.invocation])).trans hmid
  | completed henter _ _ hleave =>
    cases ht with
    | through hlegs _ _ hs =>
      have hexit := (hleave.checks_prefix.sublist.map _).trans (sublist_exit f.spec)
      rw [← hs.stages] at hexit
      rw [List.map_append, List.map_cons]
      exact (hentry henter hlegs).append (hexit.cons_cons .invocation)

end Order

/-! ## Protocols that are polled to their end -/

theorem passes_settle {stage : Stage} {start : Action (World ε) (Eventual (World ε) α)} {a : α}
    (h : (settle stage e start).Passes changes n w ps (a, e') w') :
    ∃ lag, start.Visits changes n w a lag w' ∧ ps = lag.getD [] ∧
      e' = if lag.isSome then e.suspend stage else e := by
  simp only [settle, Future.bind_eq, Future.passes_bind] at h
  obtain ⟨_, b | t, w₁, rs, hstart, h, rfl⟩ := h
  · obtain ⟨rfl, hexec⟩ := Future.passes_lift.mp hstart
    obtain ⟨rfl, hb, rfl⟩ := Future.passes_done.mp h
    cases hb
    exact ⟨none, .ready hexec, rfl, rfl⟩
  · obtain ⟨rfl, hexec⟩ := Future.passes_lift.mp hstart
    obtain ⟨qs, b, w₂, _, ht, hb, rfl⟩ := Future.passes_bind.mp h
    obtain ⟨rfl, hb, rfl⟩ := Future.passes_done.mp hb
    cases hb
    exact ⟨some qs, .pending hexec ht, by simp, rfl⟩

theorem passes_examine {result : Option Value} {g : Guard} {code : κ}
    {verdict : Except ContractError Bool}
    (h : (f.examine host result g code e).Passes changes n w ps (verdict, e') w') :
    ∃ (x : Finding κ ε) (lag : Option (List (World ε))), x.guard = g ∧ x.code = code ∧
      x.result = result ∧ x.begun = w ∧ f.Examined (Interludes changes) host x verdict w' ∧
      e' = x.note e ∧
      (f.test host x.result x.code x.guard).Visits changes n x.begun x.held lag x.answered ∧
      x.waited = lag.isSome ∧ ps = lag.getD [] := by
  simp only [examine, Future.bind_eq, Future.passes_bind] at h
  obtain ⟨qs, ⟨held, e₁⟩, w₁, _, hsettle, ⟨_, v, w₂, _, hobserve, hdone, rfl⟩, rfl⟩ := h
  obtain ⟨lag, hvisits, rfl, rfl⟩ := passes_settle hsettle
  obtain ⟨rfl, hexec⟩ := Future.passes_lift.mp hobserve
  obtain ⟨rfl, hd, rfl⟩ := Future.passes_done.mp hdone
  cases hd
  obtain ⟨w₃, htraced, hrest⟩ := exec_observe_iff.mp hexec
  have hmade : f.Made (Interludes changes) host
      ⟨g, code, result, held, lag.isSome, w, w₁, w₃⟩ := ⟨hvisits.settles, htraced⟩
  refine ⟨⟨g, code, result, held, lag.isSome, w, w₁, w₃⟩, lag, rfl, rfl, rfl, rfl, ?_, rfl,
    hvisits, rfl, by simp⟩
  cases held with
  | true =>
    obtain ⟨rfl, rfl⟩ := hrest
    exact .held hmade rfl
  | false => exact .failed hmade rfl hrest

theorem passes_enter {checks : List (Guard × κ)} {verdict : Except ContractError Bool}
    (h : (f.enter host checks e).Passes changes n w ps (verdict, e') w') :
    ∃ xs legs, f.Enters (Interludes changes) host checks w xs verdict w' ∧
      e' = xs.foldl Finding.note e ∧ f.Clocked changes host n xs legs ∧ ps = pausesIn legs := by
  induction checks generalizing e w n ps with
  | nil =>
    obtain ⟨rfl, hd, rfl⟩ := Future.passes_done.mp h
    cases hd
    exact ⟨[], [], .nil _, rfl, .nil n, rfl⟩
  | cons p rest ih =>
    simp only [enter, Future.bind_eq, Future.passes_bind] at h
    obtain ⟨_, ⟨v, e₁⟩, w₁, rs, hexamine, hrest, rfl⟩ := h
    obtain ⟨x, lag, hg, hcode, hn, rfl, hx, rfl, hvisits, hwaited, rfl⟩ := passes_examine hexamine
    have hp : p = (x.guard, x.code) := by rw [hg, hcode]
    subst hp
    -- a check that does not let the call go on is the last one
    have hstop : v ≠ .ok true → (verdict, e') = (v, x.note e) → w' = w₁ → rs = [] →
        ∃ xs legs, f.Enters (Interludes changes) host ((x.guard, x.code) :: rest) x.begun xs
          verdict w' ∧ e' = xs.foldl Finding.note e ∧ f.Clocked changes host n xs legs ∧
          lag.getD [] ++ rs = pausesIn legs := by
      rintro hv hd rfl rfl
      cases hd
      exact ⟨[x], [⟨.check x.guard, lag⟩], .stopped rest hn hx hv, rfl,
        .cons hvisits hwaited (.nil _), by simp [pausesIn]⟩
    rcases v with err | _ | _
    · obtain ⟨hrs, hd, hw⟩ := Future.passes_done.mp hrest
      exact hstop (by simp) hd hw hrs
    · obtain ⟨hrs, hd, hw⟩ := Future.passes_done.mp hrest
      exact hstop (by simp) hd hw hrs
    · obtain ⟨xs, legs, hxs, rfl, hlegs, rfl⟩ := ih hrest
      exact ⟨x :: xs, ⟨.check x.guard, lag⟩ :: legs, .onward hn hx hxs, rfl,
        .cons hvisits hwaited hlegs, (pausesIn_cons _ _ _).symm⟩

theorem passes_leave {result : Value} {checks : List (Guard × κ)}
    {verdict : Except ContractError Unit}
    (h : (f.leave host result checks e).Passes changes n w ps (verdict, e') w') :
    ∃ xs legs, f.Leaves (Interludes changes) host result checks w xs verdict w' ∧
      e' = xs.foldl Finding.note e ∧ f.Clocked changes host n xs legs ∧ ps = pausesIn legs := by
  induction checks generalizing e w n ps with
  | nil =>
    obtain ⟨rfl, hd, rfl⟩ := Future.passes_done.mp h
    cases hd
    exact ⟨[], [], .nil _, rfl, .nil n, rfl⟩
  | cons p rest ih =>
    simp only [leave, Future.bind_eq, Future.passes_bind] at h
    obtain ⟨_, ⟨v, e₁⟩, w₁, rs, hexamine, hrest, rfl⟩ := h
    obtain ⟨x, lag, hg, hcode, hn, rfl, hx, rfl, hvisits, hwaited, rfl⟩ := passes_examine hexamine
    have hp : p = (x.guard, x.code) := by rw [hg, hcode]
    subst hp
    cases v with
    | error err =>
      obtain ⟨rfl, hd, rfl⟩ := Future.passes_done.mp hrest
      cases hd
      exact ⟨[x], [⟨.check x.guard, lag⟩], .stopped rest hn hx, rfl,
        .cons hvisits hwaited (.nil _), by simp [pausesIn]⟩
    | ok held =>
      obtain ⟨xs, legs, hxs, rfl, hlegs, rfl⟩ := ih hrest
      exact ⟨x :: xs, ⟨.check x.guard, lag⟩ :: legs, .onward hn hx hxs, rfl,
        .cons hvisits hwaited hlegs, (pausesIn_cons _ _ _).symm⟩

/-- The stages of a call that is polled to its end have a course with legs. -/
theorem passes_stages {r : Except ContractError Value}
    (h : (f.stages host operation).Passes changes 0 w ps (r, e) w') :
    ∃ a legs, f.Course (Interludes changes) host operation w a r w' ∧ e = a.evaluation ∧
      f.Times changes host operation a legs ∧ ps = pausesIn legs := by
  simp only [stages, Future.bind_eq, Future.passes_bind] at h
  obtain ⟨_, ⟨verdict, e₁⟩, w₁, rs, henter, h, rfl⟩ := h
  obtain ⟨xs, legs, hxs, rfl, hlegs, rfl⟩ := passes_enter henter
  rcases verdict with err | _ | _
  · obtain ⟨rfl, hd, rfl⟩ := Future.passes_done.mp h
    cases hd
    exact ⟨_, legs, .refusedRaised hxs, rfl, .stopped hlegs, List.append_nil _⟩
  · obtain ⟨rfl, hd, rfl⟩ := Future.passes_done.mp h
    cases hd
    exact ⟨_, legs, .refused hxs, rfl, .stopped hlegs, List.append_nil _⟩
  obtain ⟨_, ⟨outcome, e₂⟩, w₂, ts, hrun, h, rfl⟩ := Future.passes_bind.mp h
  obtain ⟨lag, ho, rfl, rfl⟩ := passes_settle hrun
  rw [Nat.zero_add] at ho h
  cases outcome with
  | error err =>
    obtain ⟨rfl, hd, rfl⟩ := Future.passes_done.mp h
    cases hd
    refine ⟨_, legs ++ [⟨.invocation, lag⟩], .failed (o := ⟨.error err, lag.isSome, w₁, _⟩) hxs
      ho.settles rfl, rfl, .through hlegs ho rfl (.nil _), ?_⟩
    simp [pausesIn]
  | ok v =>
    obtain ⟨_, ⟨last, e₃⟩, w₃, us, hleave, h, rfl⟩ := Future.passes_bind.mp h
    obtain ⟨ys, legs', hys, rfl, hlegs', rfl⟩ := passes_leave hleave
    have hcourse := Course.completed (o := ⟨.ok v, lag.isSome, w₁, w₂⟩) hxs ho.settles rfl hys
    have htimes := Times.through (o := ⟨.ok v, lag.isSome, w₁, w₂⟩) hlegs ho rfl hlegs'
    have hpauses : pausesIn legs ++ (lag.getD [] ++ (pausesIn legs' ++ us)) =
        pausesIn (legs ++ ⟨.invocation, lag⟩ :: legs') ++ us := by
      simp [pausesIn_append, pausesIn_cons]
    cases last with
    | error err =>
      obtain ⟨rfl, hd, rfl⟩ := Future.passes_done.mp h
      cases hd
      exact ⟨_, _, hcourse, rfl, htimes, by rw [hpauses, List.append_nil]⟩
    | ok _ =>
      obtain ⟨rfl, hd, rfl⟩ := Future.passes_done.mp h
      cases hd
      exact ⟨_, _, hcourse, rfl, htimes, by rw [hpauses, List.append_nil]⟩

/-- A protocol that is polled to its end has a course with legs, and waits where these do. -/
theorem passes_run {r : Except ContractError Value}
    (h : (f.run host operation).Passes changes 0 w ps (r, e) w') :
    ∃ a legs w₁, f.Course (Interludes changes) host operation w a r w₁ ∧ e = a.evaluation ∧
      f.Times changes host operation a legs ∧ ps = pausesIn legs ∧ w' = f.closing a r w₁ := by
  simp only [run, Future.bind_eq, Future.passes_bind] at h
  obtain ⟨_, ⟨r₁, e₁⟩, w₁, _, hstages, ⟨_, _, w₂, _, hlog, hd, rfl⟩, rfl⟩ := h
  obtain ⟨a, legs, hcourse, rfl, htimes, rfl⟩ := passes_stages hstages
  obtain ⟨rfl, hlog⟩ := Future.passes_lift.mp hlog
  obtain ⟨rfl, hd, rfl⟩ := Future.passes_done.mp hd
  cases hd
  cases hlog
  exact ⟨a, legs, w₁, hcourse, rfl, htimes, by simp, rfl⟩

/-! ## What is noted -/

theorem suspendedAt_note (e : Evaluation) (x : Finding κ ε) : (x.note e).suspendedAt =
    (e.suspendedAt <|> if x.waited then some (.check x.guard) else none) := by
  have hrecord : ∀ e : Evaluation, (e.record x.guard x.held).suspendedAt = e.suspendedAt := by
    intro e
    cases x.guard <;> rfl
  rw [Finding.note, hrecord]
  cases x.waited with
  | true => rfl
  | false => cases h : e.suspendedAt <;> simp [h]

theorem Clocked.suspendedAt {xs : List (Finding κ ε)} {legs : List (Leg ε)}
    (h : f.Clocked changes host n xs legs) (e : Evaluation) :
    (xs.foldl Finding.note e).suspendedAt = (e.suspendedAt <|> firstPending legs) := by
  induction h generalizing e with
  | nil n => cases h : e.suspendedAt <;> simp [h, firstPending]
  | @cons n x xs lag legs _ hw _ ih =>
    rw [List.foldl_cons, ih, suspendedAt_note, firstPending_cons, hw]
    cases e.suspendedAt <;> cases lag <;> rfl

theorem suspendedAt_run_note (e : Evaluation) (o : Run ε) : (o.note e).suspendedAt =
    (e.suspendedAt <|> if o.waited then some .invocation else none) := by
  obtain ⟨result, waited, _, _⟩ := o
  cases waited with
  | true => cases result <;> rfl
  | false =>
    cases result <;> cases h : e.suspendedAt <;> simp [Run.note, Evaluation.recordResult, h]

/-- The evaluation names the first stage that was pending. -/
theorem Times.suspendedAt {a : Account κ ε} {legs : List (Leg ε)}
    (h : f.Times changes host operation a legs) :
    a.evaluation.suspendedAt = firstPending legs := by
  cases h with
  | stopped h =>
    have hentry := h.suspendedAt {}
    simpa [Account.evaluation] using hentry
  | @through xs ys o lag legs legs' h _ hw hs =>
    simp only [Account.evaluation, Option.toList_some, List.foldl_cons, List.foldl_nil]
    rw [hs.suspendedAt, suspendedAt_run_note, h.suspendedAt, hw, firstPending_append,
      firstPending_cons]
    cases firstPending legs <;> cases lag <;> rfl

/-! ## Calls, poll by poll -/

variable {r : Except ContractError Value}

/-- A call whose protocol has no pause ends while it is started. If a stage was pending, it has to
be polled once. -/
theorem invoke_of_no_pause (h : (f.run host operation).Passes changes 0 w [] (r, e) w') :
    (invoke host f operation).exec w =
      (.ok (if e.isSuspended then .pending (.done r) else .ready r), w') := by
  rcases Future.poll_of_passes h with ⟨_, hpoll⟩ | ⟨_, _, _, hps, _⟩
  · simp only [invoke, Action.exec_ofFun, hpoll]
    cases e.isSuspended <;> rfl
  · cases hps

/-- A call whose protocol has pauses is pending, and shows one of them after each poll. -/
theorem invoke_of_pauses (h : (f.run host operation).Passes changes 0 w ps (r, e) w')
    (hps : ps ≠ []) : ∃ t s, (invoke host f operation).exec w = (.ok (.pending t), s) ∧
      (Future.wait t).Passes changes 0 s ps r w' := by
  rcases Future.poll_of_passes h with ⟨hnil, _⟩ | ⟨rest, s, qs, rfl, hpoll, hrest⟩
  · exact absurd hnil hps
  · refine ⟨rest.bind fun r => .done r.1, s, ?_, ?_⟩
    · simp only [invoke, Action.exec_ofFun, hpoll]
    · exact Future.passes_bind (t := .wait rest).mpr ⟨_, _, _, [], hrest,
        Future.passes_done.mpr ⟨rfl, rfl, rfl⟩, (List.append_nil _).symm⟩

/-- A call whose protocol gives up is cut short after some polls, where one of its callbacks gave
up. -/
theorem invoke_of_along_error {c : Abort}
    (h : (f.run host operation).along changes 0 w = ⟨ps, .error c, w'⟩) :
    ∃ n, (invoke host f operation).polls ((List.range n).map changes) w = (.aborted c, w') := by
  rw [Future.along_eq_poll] at h
  rcases hpoll : (f.run host operation).poll w with ⟨a | cause | rest, s⟩ <;> rw [hpoll] at h
  · cases h
  · cases h
    exact ⟨0, by simp only [Action.polls, invoke, Action.exec_ofFun, hpoll]⟩
  · have hwait : (Future.wait (rest.bind fun r => .done r.1)).along changes 0 s =
        ⟨ps, .error c, w'⟩ := Future.along_bind_error h
    obtain ⟨_, hend⟩ := Future.polls_along changes
      (rest.bind fun r => .done r.1) 0 ps.length s
    rw [hwait] at hend
    refine ⟨ps.length, ?_⟩
    simp only [Action.polls, invoke, Action.exec_ofFun, hpoll, List.range_eq_range']
    exact hend (Nat.le_refl _)

/-- A pending call waits in its pauses, one after the other, and then gives its outcome. A call
without pauses waits where it has ended. -/
theorem polls_of_pending (h : (f.run host operation).Passes changes 0 w ps (r, e) w')
    (hsus : e.isSuspended = true) :
    let call := invoke host f operation
    (∃ t, call.exec w = (.ok (.pending t), ps.headD w')) ∧
    (∀ n < max 1 ps.length, ∃ t,
      call.polls ((List.range n).map changes) w = (.waiting t, ps.getD n w')) ∧
    ∀ n ≥ max 1 ps.length, call.polls ((List.range n).map changes) w =
      (.finished r, if ps = [] then changes 0 w' else w') := by
  intro call
  cases ps with
  | nil =>
    have hexec := invoke_of_no_pause h
    rw [if_pos hsus] at hexec
    refine ⟨⟨_, hexec⟩, fun n hn => ?_, fun n hn => ?_⟩
    · obtain rfl : n = 0 := by simpa using hn
      exact ⟨.done r, by simp only [call, Action.polls, hexec]; rfl⟩
    · obtain ⟨m, rfl⟩ : ∃ m, n = m + 1 := ⟨n - 1, by simp at hn; omega⟩
      simp only [call, Action.polls, hexec, List.range_eq_range', List.range'_succ, List.map_cons]
      rfl
  | cons p qs =>
    obtain ⟨t, s, hexec, hwait⟩ := invoke_of_pauses h (by simp)
    obtain ⟨_, hps, _⟩ := Future.passes_wait.mp hwait
    cases hps
    refine ⟨⟨t, hexec⟩, fun n hn => ?_, fun n hn => ?_⟩
    · obtain ⟨hpause, _⟩ := Future.polls_along changes t 0 n p
      rw [hwait] at hpause
      have hn' : n < (p :: qs).length := by simpa using hn
      rw [List.getD_eq_getElem?_getD, List.getElem?_eq_getElem hn']
      simp only [call, Action.polls, hexec, List.range_eq_range']
      exact hpause _ (List.getElem?_eq_getElem hn')
    · obtain ⟨_, hend⟩ := Future.polls_along changes t 0 n p
      rw [hwait] at hend
      simp only [call, Action.polls, hexec, List.range_eq_range']
      exact hend (by simpa using hn)

end Frame

/-- When a call is ready and how many polls it takes. The call is polled as often as it takes, and
others make the `n`-th change while it waits for the `n`-th poll. Unless one of its callbacks gives
up, it has a course with legs, one for each stage that it reached, with the states in which the
stage was waited for. It is ready if and only if no leg is pending, and then it has ended. Otherwise
it is pending, its evaluation names the first pending leg, and it takes as many polls as its legs
have pauses, but one at least. When it was started, and after each poll, it is in the next one of
these pauses, so that a poll is one of the one stage that is waited for, and it has gone as far as
it could. -/
theorem readiness (host : Host κ ε) (site : CallSite) (spec : Spec κ) (inner : Operation κ)
    (v : Value) (i : Input) (changes : Nat → World ε → World ε) (w : World ε) :
    let call := (Operation.checked site spec inner).call host v i
    let f := Operation.frame site spec v i w.heap
    let after := fun n => call.polls ((List.range n).map changes) w
    (∃ a legs r w₁, f.Course (Interludes changes) host (inner.call host v i) w a r w₁ ∧
      f.Times changes host (inner.call host v i) a legs ∧
      (legs.map Leg.stage).Sublist Stage.all ∧
      ((∃ r' w', call.exec w = (.ok (.ready r'), w')) ↔ ∀ leg ∈ legs, leg.lag = none) ∧
      ((∀ leg ∈ legs, leg.lag = none) → call.exec w = (.ok (.ready r), f.closing a r w₁)) ∧
      a.evaluation.suspendedAt = firstPending legs ∧
      ((∃ leg ∈ legs, leg.lag ≠ none) →
        (∃ t, call.exec w = (.ok (.pending t), (pausesIn legs).headD (f.closing a r w₁))) ∧
        (∀ n < max 1 (pausesIn legs).length, ∃ t,
          after n = (.waiting t, (pausesIn legs).getD n (f.closing a r w₁))) ∧
        ∀ n ≥ max 1 (pausesIn legs).length, after n = (.finished r,
          if pausesIn legs = [] then changes 0 (f.closing a r w₁) else f.closing a r w₁))) ∨
    ∃ n c w', after n = (.aborted c, w') ∧
      ∃ a stage w₁,
        f.Halted (Interludes changes) host (inner.call host v i) w a stage w₁ (some c) w' := by
  intro call f after
  have hexec : call.exec w = (invoke host f (inner.call host v i)).exec w :=
    Operation.exec_call_checked host site spec inner v i w
  have hpolls : ∀ n, after n =
      (invoke host f (inner.call host v i)).polls ((List.range n).map changes) w := by
    intro n
    simp only [after, Action.polls, hexec]
  rcases hrun : (f.run host (inner.call host v i)).along changes 0 w with ⟨ps, c | ⟨r, e⟩, w'⟩
  · obtain ⟨n, hn⟩ := Frame.invoke_of_along_error hrun
    have hhalted := Frame.halts_run (Future.halts_of_along hrun)
    exact .inr ⟨n, c, w', (hpolls n).trans hn, hhalted⟩
  left
  obtain ⟨a, legs, w₁, hcourse, rfl, htimes, rfl, rfl⟩ := Frame.passes_run hrun
  have hnote := htimes.suspendedAt
  refine ⟨a, legs, r, w₁, hcourse, htimes, hcourse.stages_sublist htimes, ?_⟩
  by_cases hpending : ∀ leg ∈ legs, leg.lag = none
  · have hready : call.exec w = (.ok (.ready r), f.closing a r w₁) := by
      rw [pausesIn_eq_nil hpending] at hrun
      rw [hexec, Frame.invoke_of_no_pause hrun, Evaluation.isSuspended, hnote,
        firstPending_eq_none.mpr hpending]
      rfl
    refine ⟨iff_of_true ⟨r, _, hready⟩ hpending, fun _ => hready, hnote, ?_⟩
    rintro ⟨leg, hleg, hlag⟩
    exact absurd (hpending leg hleg) hlag
  have hsuspended : a.evaluation.isSuspended = true := by
    rw [Evaluation.isSuspended, hnote, Option.isSome_iff_ne_none, ne_eq, firstPending_eq_none]
    exact hpending
  obtain ⟨⟨t, hstart⟩, hwaiting, hfinished⟩ := Frame.polls_of_pending hrun hsuspended
  rw [← hexec] at hstart
  refine ⟨iff_of_false ?_ hpending, fun hready => absurd hready hpending, hnote, fun _ =>
    ⟨⟨t, hstart⟩, fun n hn => ?_, fun n hn => (hpolls n).trans (hfinished n hn)⟩⟩
  · rintro ⟨r', w', hready⟩
    rw [hstart] at hready
    cases hready
  · rw [hpolls]
    exact hwaiting n hn

namespace Errand

/-- Callbacks that are all fine, after the time that is their code. -/
def host : Host Timing Unit where
  accepts timing _ := timing.start (pure true)
  holds timing _ := timing.start (pure true)
  operate timing _ _ := timing.start (pure (.ok .null))
  read _ _ := pure .undefined
  setUp _ _ _ := pure (.ok ())
  deliver _ _ := pure ()

/-- An errand whose invariant is there at once, and whose precondition and operation have one pause
and two. -/
def call : Action (World Unit) (Completion Unit) :=
  (Operation.checked ⟨none, "run"⟩
    { invariant := some .sync, precondition := some (.eager 1), trace := .disabled }
    (.plain (.deferred 1 1))).call host .undefined (.args [])

example (w : World Unit) : (call.polls [id, id] w).1.result?.isNone := rfl

example (w : World Unit) : (call.polls [id, id, id] w).1.result?.isSome := rfl

end Errand

end Contracts
