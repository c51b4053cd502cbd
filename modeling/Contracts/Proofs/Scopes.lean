import Contracts.Proofs.Blindness

/-!
# Contracts.Proofs.Scopes

The failure mode of the process as a variable, and scopes that set and restore it.

* `ModeRequest` — a read or a write of the mode; `serveAll` serves them one after the other.
* `answersFrom` — what a plain variable answers to the same requests.
* `warnings_serveAll` — a bad environment text is told of once.
* `modeKept`    — a run with the same run beside it, where the mode stays what it was.
* `CallStep`    — starting a call, polling one that waits, or waiting for one to end.
* `Bracketed`   — programs of reads, call steps and scopes, in any nesting.
* `mode_as_variable` — the cell answers as a variable does, from its first use on, and whatever is
  bracketed ends with the mode that it started from.
-/

namespace Contracts

variable {κ ε α : Type}

/-! ## Requests -/

inductive ModeRequest where
  | get
  | set (m : FailureMode)

namespace ModeRequest

/-- Both requests answer a mode: the present one, or the one that is replaced. -/
def serve : ModeRequest → Action (World ε) FailureMode
  | .get => World.failureMode
  | .set m => World.setFailureMode m

/-- What the request puts in the place of the value `m`. -/
def after (m : FailureMode) : ModeRequest → FailureMode
  | .get => m
  | .set m' => m'

def stored? : ModeRequest → Option FailureMode
  | .get => none
  | .set m => some m

/-- Serving a request leaves a mode stored. The environment was asked if none was before. -/
theorem exec_serve (r : ModeRequest) (w : World ε) :
    ∃ cell, r.serve.exec w = (.ok w.mode.current, { w with mode := cell }) ∧
      cell.current = r.after w.mode.current ∧ cell.stored.isSome = true ∧
      cell.warnings = (w.mode.store w.mode.current).warnings := by
  cases r with
  | get =>
    refine ⟨w.mode.read.2, ?_, ModeCell.current_read w.mode, ?_, ?_⟩
    · rw [serve, World.exec_failureMode, ModeCell.read_fst]
    · exact ModeCell.isSome_stored_read w.mode
    · exact ModeCell.warnings_read w.mode
  | set m => exact ⟨(w.mode.write m).2, rfl, ModeCell.current_write m w.mode, rfl, rfl⟩

end ModeRequest

def serveAll : List ModeRequest → Action (World ε) (List FailureMode)
  | [] => pure []
  | r :: rs => do
    let answer ← r.serve
    let answers ← serveAll rs
    pure (answer :: answers)

/-- What a variable of value `m` answers: its value at each request. -/
def answersFrom (m : FailureMode) : List ModeRequest → List FailureMode
  | [] => []
  | r :: rs => m :: answersFrom (r.after m) rs

/-- The last mode that was set. -/
def lastSet? (rs : List ModeRequest) : Option FailureMode :=
  (rs.filterMap ModeRequest.stored?).getLast?

/-- A cell of any state answers as a variable that holds the mode seen in it. -/
theorem exec_serveAll (rs : List ModeRequest) (w : World ε) :
    ((serveAll rs).exec w).1 = .ok (answersFrom w.mode.current rs) := by
  induction rs generalizing w with
  | nil => rfl
  | cons r rs ih =>
    obtain ⟨cell, hserve, hcell, -⟩ := r.exec_serve w
    have hrest := ih { w with mode := cell }
    simp only [serveAll, Action.exec_bind, hserve]
    revert hrest
    rcases (serveAll rs).exec { w with mode := cell } with ⟨r', w'⟩
    rintro rfl
    simp only [Action.exec_pure, answersFrom, hcell]

/-- The log is told of an environment text that names no mode by the first request, and by no
other one. -/
theorem warnings_serveAll (r : ModeRequest) (rs : List ModeRequest) (w : World ε) :
    ((serveAll (r :: rs)).exec w).2.mode.warnings = (w.mode.store w.mode.current).warnings := by
  induction rs generalizing r w with
  | nil =>
    obtain ⟨cell, hserve, -, -, hwarnings⟩ := r.exec_serve w
    simp only [serveAll, Action.exec_bind, hserve, Action.exec_pure, hwarnings]
  | cons r' rs ih =>
    obtain ⟨cell, hserve, -, hstored, hwarnings⟩ := r.exec_serve w
    have hrest := ih r' { w with mode := cell }
    rw [ModeCell.store, if_pos hstored] at hrest
    rw [serveAll]
    simp only [Action.exec_bind, hserve]
    revert hrest
    rcases (serveAll (r' :: rs)).exec { w with mode := cell } with ⟨c | answers, w'⟩ <;>
    · intro hrest
      exact hrest.trans hwarnings

theorem lastSet?_cons (r : ModeRequest) (rs : List ModeRequest) :
    lastSet? (r :: rs) = (lastSet? rs).or r.stored? := by
  cases r with
  | get => simp [lastSet?, ModeRequest.stored?]
  | set m => simp [lastSet?, ModeRequest.stored?, List.getLast?_cons]

theorem answersFrom_append (m : FailureMode) (rs ss : List ModeRequest) :
    answersFrom m (rs ++ ss) = answersFrom m rs ++ answersFrom ((lastSet? rs).getD m) ss := by
  induction rs generalizing m with
  | nil => rfl
  | cons r rs ih =>
    have hlast : (lastSet? (r :: rs)).getD m = (lastSet? rs).getD (r.after m) := by
      rw [lastSet?_cons]
      cases lastSet? rs <;> cases r <;> rfl
    simp only [List.cons_append, answersFrom, ih, hlast]

/-- The mode that an environment text parses to, `log` when it is missing or does not parse. -/
def initialMode (environment : Option String) : FailureMode :=
  (environment.bind fun text => (FailureMode.parse text).toOption).getD .log

theorem current_unset (environment : Option String) :
    (ModeCell.unset environment).current = initialMode environment := by
  cases environment with
  | none => rfl
  | some text =>
    simp only [ModeCell.unset, ModeCell.current, ModeCell.ofEnvironment, initialMode, Option.getD_none,
      Option.bind_some]
    cases FailureMode.parse text <;> rfl

/-! ## Calls that do not set the mode -/

/-- A run beside itself. Whatever it does, the mode that is seen is what it was. -/
def modeKept (ε : Type) : Comparison Unit ε ε where
  agree _ := Eq
  move _ w _ _ w' _ := w'.mode.current = w.mode.current
  move_refl _ := rfl
  move_trans h h' := h'.trans h
  le_of_move _ := le_rfl
  value _ := Eq
  value_mono _ h := h
  undefined _ := rfl
  render := by
    rintro _ w _ v _ rfl rfl
    rfl
  toJson := by
    rintro _ w _ v _ rfl rfl
    rfl
  label := by
    rintro _ w _ v _ site rfl rfl
    rfl
  log := by
    rintro _ w _ e _ rfl he
    rw [he.eq]
    exact ⟨rfl, rfl⟩
  readMode := by
    rintro _ w _ rfl
    exact ⟨rfl, rfl, ModeCell.current_read w.mode⟩

/-- From no state does the action come to one with another mode. -/
abbrev Action.KeepsMode (a : Action (World ε) α) : Prop := (modeKept ε).Acts (fun _ => Eq) () a a

/-- No poll of the future sets the mode, whatever happens between its polls. -/
abbrev Future.KeepsMode (t : Future (World ε) α) : Prop := (modeKept ε).Runs (fun _ => Eq) () t t

/-- Neither the start of the callback nor a poll of what it answers sets the mode. -/
abbrev Action.StartsKeepingMode (a : Action (World ε) (Eventual (World ε) α)) : Prop :=
  (modeKept ε).Starts (fun _ => Eq) () a a

/-- No callback of the call sets the mode: no predicate and no sink of a contract around it, and
not the operation itself. -/
def Operation.KeepsMode (host : Host κ ε) (v : Value) (i : Input) (op : Operation κ) : Prop :=
  (modeKept ε).SameCallbacks () host host v v i i op

theorem Action.keepsMode_iff {a : Action (World ε) α} :
    a.KeepsMode ↔ ∀ w, (a.exec w).2.mode.current = w.mode.current := by
  constructor
  · intro h w
    obtain ⟨_, _, hkept, _⟩ := h () le_rfl w w rfl
    exact hkept
  · rintro h _ _ w _ rfl
    exact ⟨(), rfl, h w, .refl (fun _ => rfl) _⟩

namespace Future.KeepsMode

variable {t : Future (World ε) α}

theorem poll (h : t.KeepsMode) (w : World ε) : (t.poll w).2.mode.current = w.mode.current := by
  obtain ⟨_, _, hkept, _⟩ := h.pollsTo () le_rfl w w rfl
  exact hkept

theorem rest (h : t.KeepsMode) {w w' : World ε} {rest : Future (World ε) α}
    (hpoll : t.poll w = (.waiting rest, w')) : rest.KeepsMode := by
  obtain ⟨_, _, _, hshows⟩ := h.pollsTo () le_rfl w w rfl
  rw [hpoll] at hshows
  cases hshows with
  | waiting hrest => exact hrest

theorem drive (h : t.KeepsMode) (w : World ε) : (t.drive w).2.mode.current = w.mode.current :=
  Action.keepsMode_iff.mp (Simulation.runs_drive h) w

end Future.KeepsMode

theorem outcomeSame_modeKept : (modeKept ε).OutcomeSame = fun _ => Eq := by
  funext _ r r'
  refine propext ⟨fun h => h.eq, ?_⟩
  rintro rfl
  exact .refl (fun _ => rfl) _

/-- A call looks at the mode at most. -/
theorem Operation.KeepsMode.starts {host : Host κ ε} {v : Value} {i : Input} {op : Operation κ}
    (h : op.KeepsMode host v i) : (op.call host v i).StartsKeepingMode := by
  have hcall := Comparison.starts_call rfl (.refl (fun _ => rfl) i) op h
  rwa [outcomeSame_modeKept] at hcall

/-! ## Steps of calls -/

/-- Calls that have been started and wait. -/
abbrev Waiting (ε : Type) : Type := List (Future (World ε) (Except ContractError Value))

inductive CallStep (κ : Type) where
  | start (op : Operation κ) (this : Value) (input : Input)
  /-- Polls the call at a place of the list once. -/
  | poll (n : Nat)
  /-- Polls the call at a place of the list to its end. -/
  | finish (n : Nat)

namespace CallStep

/-- The calls that wait after the step. Neither an error nor an abort of a call is passed on. -/
def run (host : Host κ ε) (calls : Waiting ε) : CallStep κ → Action (World ε) (Waiting ε)
  | .start op this input => .ofFun fun w =>
    match (op.call host this input).exec w with
    | (.ok (.pending t), w') => (.ok (calls ++ [t]), w')
    | (_, w') => (.ok calls, w')
  | .poll n =>
    match calls[n]? with
    | none => pure calls
    | some t => .ofFun fun w =>
      match t.poll w with
      | (.waiting rest, w') => (.ok (calls.set n rest), w')
      | (_, w') => (.ok (calls.eraseIdx n), w')
  | .finish n =>
    match calls[n]? with
    | none => pure calls
    | some t => .ofFun fun w => (.ok (calls.eraseIdx n), (t.drive w).2)

/-- The callbacks of a call that is started do not set the mode. -/
def KeepsMode (host : Host κ ε) : CallStep κ → Prop
  | .start op this input => op.KeepsMode host this input
  | .poll _ | .finish _ => True

theorem exec_run {host : Host κ ε} {s : CallStep κ} (hs : s.KeepsMode host) {calls : Waiting ε}
    (hcalls : ∀ t ∈ calls, t.KeepsMode) (w : World ε) :
    ∃ calls' w', (s.run host calls).exec w = (.ok calls', w') ∧
      w'.mode.current = w.mode.current ∧ ∀ t ∈ calls', t.KeepsMode := by
  cases s with
  | start op this input =>
    obtain ⟨_, _, hkept, hanswer⟩ := hs.starts () le_rfl w w rfl
    simp only [run, Action.exec_ofFun]
    revert hkept hanswer
    rcases (op.call host this input).exec w with ⟨c | ⟨v⟩ | ⟨t⟩, w'⟩
    · intro hkept _
      exact ⟨calls, w', rfl, hkept, hcalls⟩
    · intro hkept _
      exact ⟨calls, w', rfl, hkept, hcalls⟩
    · intro hkept hanswer
      have ht : t.KeepsMode := by
        cases hanswer with
        | ok hanswer =>
          cases hanswer with
          | pending ht => exact ht
      refine ⟨calls ++ [t], w', rfl, hkept, ?_⟩
      intro u hu
      rcases List.mem_append.mp hu with hu | hu
      · exact hcalls u hu
      · rw [List.mem_singleton.mp hu]
        exact ht
  | poll n =>
    cases hn : calls[n]? with
    | none => exact ⟨calls, w, by simp only [run, hn, Action.exec_pure], rfl, hcalls⟩
    | some t =>
      have ht : t.KeepsMode := hcalls t (List.mem_of_getElem? hn)
      have hkept := ht.poll w
      have hrest : ∀ rest w', t.poll w = (.waiting rest, w') → rest.KeepsMode :=
        fun rest w' => ht.rest
      simp only [run, hn, Action.exec_ofFun]
      revert hkept hrest
      rcases t.poll w with ⟨_ | _ | ⟨rest⟩, w'⟩ <;> intro hkept hrest
      · exact ⟨_, w', rfl, hkept, fun u hu => hcalls u (List.mem_of_mem_eraseIdx hu)⟩
      · exact ⟨_, w', rfl, hkept, fun u hu => hcalls u (List.mem_of_mem_eraseIdx hu)⟩
      · refine ⟨_, w', rfl, hkept, ?_⟩
        intro u hu
        rcases List.mem_or_eq_of_mem_set hu with hu | rfl
        · exact hcalls u hu
        · exact hrest u w' rfl
  | finish n =>
    cases hn : calls[n]? with
    | none => exact ⟨calls, w, by simp only [run, hn, Action.exec_pure], rfl, hcalls⟩
    | some t =>
      have ht : t.KeepsMode := hcalls t (List.mem_of_getElem? hn)
      refine ⟨calls.eraseIdx n, (t.drive w).2, ?_, ht.drive w, ?_⟩
      · simp only [run, hn, Action.exec_ofFun]
      exact fun u hu => hcalls u (List.mem_of_mem_eraseIdx hu)

end CallStep

/-! ## Scopes -/

/-- Programs of reads, steps of calls, and scopes that set a mode for what is inside of them. -/
inductive Bracketed (κ : Type) where
  | done
  | look (rest : Bracketed κ)
  | step (s : CallStep κ) (rest : Bracketed κ)
  | scope (m : FailureMode) (body rest : Bracketed κ)

namespace Bracketed

/-- Runs the program with calls that wait, and answers those that then wait and the modes read.
A scope ends with the mode restored that its set returned. -/
def run (host : Host κ ε) :
    Bracketed κ → Waiting ε → Action (World ε) (Waiting ε × List FailureMode)
  | .done, calls => pure (calls, [])
  | .look rest, calls => do
    let m ← World.failureMode
    let (calls, seen) ← rest.run host calls
    pure (calls, m :: seen)
  | .step s rest, calls => do
    let calls ← s.run host calls
    rest.run host calls
  | .scope m body rest, calls => do
    let previous ← World.setFailureMode m
    let (calls, inside) ← body.run host calls
    let _ ← World.setFailureMode previous
    let (calls, seen) ← rest.run host calls
    pure (calls, inside ++ seen)

/-- The calls of the program do not set the mode. -/
def KeepsMode (host : Host κ ε) : Bracketed κ → Prop
  | .done => True
  | .look rest => rest.KeepsMode host
  | .step s rest => s.KeepsMode host ∧ rest.KeepsMode host
  | .scope _ body rest => body.KeepsMode host ∧ rest.KeepsMode host

/-- The modes that the program reads as its text has them: each read the mode of the innermost
scope around it, or `m` outside of all. -/
def modes (m : FailureMode) : Bracketed κ → List FailureMode
  | .done => []
  | .look rest => m :: rest.modes m
  | .step _ rest => rest.modes m
  | .scope m' body rest => body.modes m' ++ rest.modes m

theorem exec_run {host : Host κ ε} {p : Bracketed κ} (hp : p.KeepsMode host) {calls : Waiting ε}
    (hcalls : ∀ t ∈ calls, t.KeepsMode) (w : World ε) :
    ∃ calls' w', (p.run host calls).exec w = (.ok (calls', p.modes w.mode.current), w') ∧
      w'.mode.current = w.mode.current ∧ ∀ t ∈ calls', t.KeepsMode := by
  induction p generalizing calls w with
  | done => exact ⟨calls, w, rfl, rfl, hcalls⟩
  | look rest ih =>
    have hlook : w.mode.read.2.current = w.mode.current := ModeCell.current_read w.mode
    obtain ⟨calls', w', hrest, hmode, hcalls'⟩ := ih hp hcalls { w with mode := w.mode.read.2 }
    refine ⟨calls', w', ?_, hmode.trans hlook, hcalls'⟩
    simp only [run, Action.exec_bind, World.exec_failureMode, ModeCell.read_fst, hrest, hlook,
      Action.exec_pure, modes]
  | step s rest ih =>
    obtain ⟨calls₁, w₁, hstep, hmode₁, hcalls₁⟩ := CallStep.exec_run hp.1 hcalls w
    obtain ⟨calls', w', hrest, hmode, hcalls'⟩ := ih hp.2 hcalls₁ w₁
    refine ⟨calls', w', ?_, hmode.trans hmode₁, hcalls'⟩
    simp only [run, Action.exec_bind, hstep, hrest, hmode₁, modes]
  | scope m body rest ihbody ihrest =>
    -- the mode in front of the scope is the one that its set returns, and that the end puts back
    obtain ⟨cell, hset, hcell, -⟩ := (ModeRequest.set m).exec_serve w
    obtain ⟨calls₁, w₁, hbody, -, hcalls₁⟩ := ihbody hp.1 hcalls { w with mode := cell }
    obtain ⟨cell', hback, hcell', -⟩ := (ModeRequest.set w.mode.current).exec_serve w₁
    obtain ⟨calls', w', hrest, hmode, hcalls'⟩ := ihrest hp.2 hcalls₁ { w₁ with mode := cell' }
    simp only [ModeRequest.serve] at hset hback
    simp only [ModeRequest.after] at hcell hcell'
    refine ⟨calls', w', ?_, hmode.trans hcell', hcalls'⟩
    simp only [run, Action.exec_bind, hset, hbody, hback, hrest, hcell, hcell', Action.exec_pure,
      modes]

end Bracketed

/-- A cell that was never used answers every sequence of requests as a variable does that starts
with the mode of the environment text: a set answers what a read in its place would have answered,
and a read the last mode set, or the initial one. The log is told once of an environment text that
names no mode, by the first request. And a bracketed program whose calls do not set the mode, from a
cell in any state and with calls that wait, reads the modes that its text shows and ends with the
mode that it started from. -/
theorem mode_as_variable {host : Host κ ε} {p : Bracketed κ} (hp : p.KeepsMode host)
    {calls : Waiting ε} (hcalls : ∀ t ∈ calls, t.KeepsMode) (w : World ε) :
    (∀ (environment : Option String) (rs : List ModeRequest),
      let unset : World ε := { w with mode := .unset environment }
      let initial := initialMode environment
      ((serveAll rs).exec unset).1 = .ok (answersFrom initial rs) ∧
      (∀ m, ((serveAll (rs ++ [.set m])).exec unset).1 =
        ((serveAll (rs ++ [.get])).exec unset).1) ∧
      ((serveAll (rs ++ [.get])).exec unset).1 =
        .ok (answersFrom initial rs ++ [(lastSet? rs).getD initial]) ∧
      ∀ r, ((serveAll (r :: rs)).exec unset).2.mode.warnings = ModeCell.complaints environment) ∧
    ∃ calls' w', (p.run host calls).exec w = (.ok (calls', p.modes w.mode.current), w') ∧
      (World.failureMode.exec w').1 = (World.failureMode.exec w).1 := by
  refine ⟨?_, ?_⟩
  · intro environment rs unset initial
    have hanswers : ∀ rs, ((serveAll rs).exec unset).1 = .ok (answersFrom initial rs) := by
      intro rs
      rw [exec_serveAll, show unset.mode.current = initial from current_unset environment]
    refine ⟨hanswers rs, ?_, ?_, ?_⟩
    · intro m
      rw [hanswers, hanswers, answersFrom_append, answersFrom_append]
      rfl
    · rw [hanswers, answersFrom_append]
      rfl
    · intro r
      rw [warnings_serveAll]
      exact List.nil_append _
  · obtain ⟨calls', w', hrun, hmode, -⟩ := Bracketed.exec_run hp hcalls w
    refine ⟨calls', w', hrun, ?_⟩
    simp only [World.exec_failureMode, ModeCell.read_fst, hmode]

namespace Stove

/-- Nothing is accepted, and what is started ends one poll later with an error. -/
def host : Host Unit Unit where
  accepts _ _ := pure (.ready false)
  holds _ _ := pure (.ready true)
  operate _ _ _ := pure (.pending (.wait (.done (.error (.operation "no gas")))))
  read _ _ := pure .undefined
  setUp _ _ _ := pure (.ok ())
  deliver _ _ := pure ()

def light : Operation Unit := .plain ()

def checked : Operation Unit :=
  .checked ⟨some "Stove", "light"⟩
    { precondition := some (), invariant := some (), trace := .default, mode := none } light

/-- Three scopes, two of them nested, with a call that is refused, and one that is started in one
scope and fails in another one. -/
def evening : Bracketed Unit :=
  .scope .throw
    (.look (.step (.start checked .undefined (.args [])) (.scope .log
      (.step (.start light .undefined (.args [])) (.look .done)) (.look .done))))
    (.scope .log (.step (.finish 0) (.look .done)) (.look .done))

/-- A process that is told to throw, and has not looked yet. -/
def cold : World Unit := { mode := .unset (some " Throw "), own := () }

theorem keepsMode_light : light.KeepsMode host .undefined (.args []) := by
  refine Simulation.acts_pure fun _ _ => .pending (Simulation.runs_wait ?_)
  exact Simulation.runs_done fun _ _ => .error _

theorem keepsMode_checked : checked.KeepsMode host .undefined (.args []) := by
  refine ⟨⟨?_, ?_, ?_, ?_⟩, keepsMode_light⟩
  · exact fun _ _ => Simulation.acts_pure fun _ _ => .ready rfl
  · exact fun _ _ => Simulation.acts_pure fun _ _ => .ready rfl
  · rintro _ ⟨⟩
  · rintro _ ⟨⟩

theorem keepsMode_evening : evening.KeepsMode host :=
  ⟨⟨keepsMode_checked, ⟨keepsMode_light, trivial⟩, trivial⟩, ⟨trivial, trivial⟩, trivial⟩

theorem mode_put_back :
    evening.KeepsMode host ∧
    ∃ calls' w', (evening.run host []).exec cold =
        (.ok (calls', [.throw, .log, .throw, .log, .throw]), w') ∧
      (World.failureMode.exec w').1 = .ok .throw := by
  have hnone : ∀ t ∈ ([] : Waiting Unit), t.KeepsMode := by simp
  obtain ⟨-, calls', w', hrun, hmode⟩ := mode_as_variable keepsMode_evening hnone cold
  have hcold : cold.mode.current = .throw := by decide
  rw [hcold] at hrun
  refine ⟨keepsMode_evening, calls', w', hrun, hmode.trans ?_⟩
  rw [World.exec_failureMode, ModeCell.read_fst, hcold]

end Stove

end Contracts
