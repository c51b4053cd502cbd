import Contracts.Proofs.Checkpoints

/-!
# Contracts.Proofs.Records

The three records of a call: its trace, its reports, and its evaluation.

* `Line`            — what a call does and writes itself, one thing after the other.
* `Frame.Chronicle` — the lines of a call with the states that it goes through.
* `Frame.lines`     — the lines that an evaluation tells.
* `Frame.Agreement` — how an evaluation goes with the operation, the raised violation and the
  outcome.
* `records_agree`   — the lines of every call that has ended are those that its evaluation tells.

Nested calls and what others do stand between the lines: they are part of a stage that was started
and has settled, and of nothing else.
-/

namespace Contracts

variable {κ ε : Type}

/-! ## The lines of a call -/

inductive Line where
  /-- A predicate was started and has answered. -/
  | asked (g : Guard) (held : Bool)
  /-- The operation was started and has ended. -/
  | operated (r : Except ContractError Value)
  | traced (event : TraceEvent)
  /-- A violation was raised, or written down. -/
  | violated (v : Violation) (raised : Bool)
  | evaluated (succeeded : Bool) (e : Evaluation)

namespace Line

def event? : Line → Option TraceEvent
  | traced event => some event
  | _ => none

def violation? : Line → Option (Violation × Bool)
  | violated v raised => some (v, raised)
  | _ => none

def evaluation? : Line → Option (Bool × Evaluation)
  | evaluated succeeded e => some (succeeded, e)
  | _ => none

end Line

namespace Frame

/-- A call goes line by line from one state to another. -/
inductive Chronicle (R : World ε → World ε → Prop) (host : Host κ ε) (f : Frame κ)
    (operation : Action (World ε) (Completion ε)) : World ε → List Line → World ε → Prop where
  | nil (w : World ε) : Chronicle R host f operation w [] w
  | asked {g : Guard} {code : κ} {result : Option Value} {held waited : Bool} {w w₁ w' : World ε}
      {rest : List Line} (hcode : (g, code) ∈ f.spec.entry ++ f.spec.exit)
      (h : (f.test host result code g).Settles R w held waited w₁)
      (hs : Chronicle R host f operation w₁ rest w') :
      Chronicle R host f operation w (.asked g held :: rest) w'
  | operated {r : Except ContractError Value} {waited : Bool} {w w₁ w' : World ε}
      {rest : List Line} (h : operation.Settles R w r waited w₁)
      (hs : Chronicle R host f operation w₁ rest w') :
      Chronicle R host f operation w (.operated r :: rest) w'
  /-- The event is really sent. -/
  | traced {event : TraceEvent} {w w₁ w' : World ε} {rest : List Line}
      (htrace : f.spec.trace.isEnabled = true) (h : Traced host event f.spec.trace w w₁)
      (hs : Chronicle R host f operation w₁ rest w') :
      Chronicle R host f operation w (.traced event :: rest) w'
  /-- The message is about the state in which the violation is reported. -/
  | violated {g : Guard} {result : Option Value} {v : Violation}
      {verdict : Except ContractError Unit} {w w₁ w' : World ε} {rest : List Line}
      (hv : v = .about (f.input.failure g) f.className (some f.site.member)
        (f.subject w.heap result))
      (h : Reported f.spec.mode v w verdict w₁) (hs : Chronicle R host f operation w₁ rest w') :
      Chronicle R host f operation w (.violated v (!verdict.isOk) :: rest) w'
  | evaluated {succeeded : Bool} {e : Evaluation} {w w' : World ε} {rest : List Line}
      (hs : Chronicle R host f operation
        { w with entries := .evaluated f.className f.site.member succeeded e :: w.entries }
        rest w') :
      Chronicle R host f operation w (.evaluated succeeded e :: rest) w'

variable {R : World ε → World ε → Prop} {host : Host κ ε} {f : Frame κ}
  {operation : Action (World ε) (Completion ε)} {w w₁ w' : World ε}

theorem Chronicle.append {ls ls' : List Line} (h : f.Chronicle R host operation w ls w₁)
    (h' : f.Chronicle R host operation w₁ ls' w') :
    f.Chronicle R host operation w (ls ++ ls') w' := by
  induction h with
  | nil => exact h'
  | asked hcode h _ ih => exact .asked hcode h (ih h')
  | operated h _ ih => exact .operated h (ih h')
  | traced htrace h _ ih => exact .traced htrace h (ih h')
  | violated hv h _ ih => exact .violated hv h (ih h')
  | evaluated _ ih => exact .evaluated (ih h')

end Frame

/-! ## What an evaluation tells -/

/-- The checks around an operation, in order. -/
def Guard.all : List Guard := [.invariantBefore, .precondition, .postcondition, .invariantAfter]

/-- What a failed check is called. The conditions of setters have names of their own. -/
def Guard.failure (setter : Bool) : Guard → FailureKind
  | .invariantBefore => .constantBefore
  | .precondition => if setter then .setterBefore else .before
  | .postcondition => if setter then .setterAfter else .after
  | .invariantAfter => .constantAfter

def Input.isSetter : Input → Bool
  | .args _ => false
  | .value _ => true

theorem Input.failure_eq (i : Input) (g : Guard) : i.failure g = g.failure i.isSetter := by
  cases i <;> cases g <;> rfl

/-- What is known of the operation's result when a check is made. -/
def Evaluation.resultAt (e : Evaluation) : Guard → Option Value
  | .invariantBefore | .precondition => none
  | .postcondition | .invariantAfter => e.result

namespace Frame

/-- The event of a check, as its slot tells it. -/
def event (f : Frame κ) (result : Option Value) (g : Guard) (held : Bool) : TraceEvent where
  kind := .around g
  className := f.className
  member := f.site.member
  input := f.input
  result
  passed := held
  failure := if held then none else some (g.failure f.input.isSetter)

/-- The violation of a failed check. -/
def failing (f : Frame κ) (subject : String) (g : Guard) : Violation :=
  .about (g.failure f.input.isSetter) f.className (some f.site.member) subject

/-- The lines of one check: its trace follows its answer, and its violation its trace. -/
def linesOf (f : Frame κ) (result : Option Value) (subject : String) (raised : Bool) (g : Guard) :
    Option Bool → List Line
  | none => []
  | some held => .asked g held :: .traced (f.event result g held) ::
      if held then [] else [.violated (f.failing subject g) raised]

def linesAt (f : Frame κ) (e : Evaluation) (subject : Guard → String) (raised : Option Guard)
    (g : Guard) : List Line :=
  f.linesOf (e.resultAt g) (subject g) (decide (raised = some g)) g (e.slot g)

/-- The lines of a call: those of the checks before the operation, its run, those of the checks
after it, and the evaluation. -/
def lines (f : Frame κ) (e : Evaluation) (ran : Option (Except ContractError Value))
    (subject : Guard → String) (raised : Option Guard) (succeeded : Bool) : List Line :=
  (f.linesAt e subject raised .invariantBefore ++ f.linesAt e subject raised .precondition) ++
    ((ran.map Line.operated).toList ++
      ((f.linesAt e subject raised .postcondition ++ f.linesAt e subject raised .invariantAfter) ++
        [.evaluated succeeded e]))

/-- An evaluation goes with the operation's end, if it was run, the check whose violation was
raised, if there is one, and the outcome of the call. -/
structure Agreement (f : Frame κ) (e : Evaluation) (ran : Option (Except ContractError Value))
    (subject : Guard → String) (raised : Option Guard) (r : Except ContractError Value) :
    Prop where
  result : e.result = ran.bind Except.toOption
  /-- The operation is run unless a check before it fails. -/
  refused : ran = none ↔ e.invariantBefore = some false ∨ e.precondition = some false
  stopped : e.invariantBefore = some false → e.precondition = none
  unanswered : e.result = none → e.postcondition = none ∧ e.invariantAfter = none
  failed : ∀ g ∈ raised, e.slot g = some false ∧ (g = .postcondition → e.invariantAfter = none)
  outcome : r = match raised with
    | some g => .error (.violation (f.failing (subject g) g))
    | none => ran.getD (.ok .undefined)

section

variable (f : Frame κ) (e : Evaluation) (ran : Option (Except ContractError Value))
  (subject : Guard → String) (raised : Option Guard) (succeeded : Bool)

theorem events_linesAt (g : Guard) : (f.linesAt e subject raised g).filterMap Line.event? =
    ((e.slot g).map (f.event (e.resultAt g) g)).toList := by
  rw [linesAt]
  rcases e.slot g with _ | _ | _ <;> rfl

theorem violations_linesAt (g : Guard) :
    (f.linesAt e subject raised g).filterMap Line.violation? =
      if e.slot g = some false then [(f.failing (subject g) g, decide (raised = some g))]
      else [] := by
  rw [linesAt]
  rcases e.slot g with _ | _ | _ <;> rfl

theorem evaluations_linesAt (g : Guard) :
    (f.linesAt e subject raised g).filterMap Line.evaluation? = [] := by
  rw [linesAt]
  rcases e.slot g with _ | _ | _ <;> rfl

/-- One event for each filled slot, in order. -/
theorem events_lines : (f.lines e ran subject raised succeeded).filterMap Line.event? =
    Guard.all.filterMap fun g => (e.slot g).map (f.event (e.resultAt g) g) := by
  have hrun : (ran.map Line.operated).toList.filterMap Line.event? = [] := by
    cases ran <;> rfl
  have hlast : [Line.evaluated succeeded e].filterMap Line.event? = [] := rfl
  simp only [lines, List.filterMap_append, events_linesAt, hrun, hlast, List.append_nil]
  simp only [Guard.all, List.filterMap_cons, List.filterMap_nil]
  rcases e.slot .invariantBefore with _ | _ <;> rcases e.slot .precondition with _ | _ <;>
    rcases e.slot .postcondition with _ | _ <;> rcases e.slot .invariantAfter with _ | _ <;> rfl

/-- One violation for each slot that is false, in order. -/
theorem violations_lines : (f.lines e ran subject raised succeeded).filterMap Line.violation? =
    (Guard.all.filter fun g => e.slot g = some false).map fun g =>
      (f.failing (subject g) g, decide (raised = some g)) := by
  have hrun : (ran.map Line.operated).toList.filterMap Line.violation? = [] := by
    cases ran <;> rfl
  have hlast : [Line.evaluated succeeded e].filterMap Line.violation? = [] := rfl
  simp only [lines, List.filterMap_append, violations_linesAt, hrun, hlast, List.append_nil]
  simp only [Guard.all, List.filter_cons, List.filter_nil]
  by_cases hi : e.slot .invariantBefore = some false <;>
    by_cases hp : e.slot .precondition = some false <;>
    by_cases hq : e.slot .postcondition = some false <;>
    by_cases hj : e.slot .invariantAfter = some false <;>
    simp only [hi, hp, hq, hj, if_true, if_false, decide_true, decide_false, Bool.false_eq_true] <;>
    rfl

theorem evaluations_lines : (f.lines e ran subject raised succeeded).filterMap Line.evaluation? =
    [(succeeded, e)] := by
  have hrun : (ran.map Line.operated).toList.filterMap Line.evaluation? = [] := by
    cases ran <;> rfl
  simp only [lines, List.filterMap_append, evaluations_linesAt, hrun, List.nil_append]
  rfl

end

/-! ## Every call that has ended goes by its lines -/

variable {R : World ε → World ε → Prop} {host : Host κ ε} {f : Frame κ}
  {operation : Action (World ε) (Completion ε)} {w w₁ w' : World ε}

theorem traceEvent_eq (f : Frame κ) (result : Option Value) (g : Guard) (held : Bool) :
    f.traceEvent result g held = f.event result g held := by
  rw [traceEvent, event, Input.failure_eq]

/-- A checkpoint has the lines of its check. What it raises is the violation of that check. -/
theorem AtGuard.chronicle (operation : Action (World ε) (Completion ε)) {g : Guard}
    {result : Option Value} {code : Option κ} {x : Option (Finding κ ε)} {verdict : Except ContractError Bool}
    (htrace : f.spec.trace.isEnabled = true)
    (hcode : ∀ c ∈ code, (g, c) ∈ f.spec.entry ++ f.spec.exit)
    (h : f.AtGuard R host g result code w x verdict w') :
    ∃ subject, f.Chronicle R host operation w
        (f.linesOf result subject (!verdict.isOk) g (x.map Finding.held)) w' ∧
      ∀ err, verdict = .error err → err = .violation (f.failing subject g) := by
  cases h with
  | absent => exact ⟨"", .nil w, by simp⟩
  | @made x _ _ hg hn hx =>
    have hmem : (x.guard, x.code) ∈ f.spec.entry ++ f.spec.exit := hg ▸ hcode x.code rfl
    subst hg hn
    have htraces : ∀ {held : Bool}, x.held = held → f.Made R host x →
        Traced host (f.event x.result x.guard held) f.spec.trace x.answered x.traced := by
      rintro _ rfl hx
      rw [← traceEvent_eq]
      exact hx.traces
    rw [Option.map_some]
    cases hx with
    | held hx hheld =>
      rw [hheld]
      exact ⟨"", .asked hmem (hheld ▸ hx.answers) (.traced htrace (htraces hheld hx) (.nil _)),
        by simp⟩
    | @failed verdict _ hx hheld hr =>
      rw [hheld]
      have hv : f.violation x = f.failing (f.subject x.traced.heap x.result) x.guard := by
        rw [violation, failing, Input.failure_eq]
      have hok : (verdict.map fun () => false).isOk = verdict.isOk := by cases verdict <;> rfl
      refine ⟨f.subject x.traced.heap x.result, ?_, ?_⟩
      · rw [hok]
        exact .asked hmem (hheld ▸ hx.answers) (.traced htrace (htraces hheld hx)
          (.violated hv.symm (hv ▸ hr) (.nil _)))
      · rintro err herr
        cases hr with
        | raised =>
          cases herr
          rw [hv]
        | written => cases herr

/-! ### The halves of a call -/

/-- Two checkpoints, one after the other, with the lines of their checks. At most one violation is
raised, and nothing comes after it. -/
structure Half (R : World ε → World ε → Prop) (host : Host κ ε) (f : Frame κ)
    (operation : Action (World ε) (Completion ε)) (g g' : Guard) (result : Option Value)
    (w : World ε) (x x' : Option (Finding κ ε)) (subject : Guard → String)
    (raised : Option Guard) (w' : World ε) : Prop where
  guard : ∀ z ∈ x, z.guard = g
  guard' : ∀ z ∈ x', z.guard = g'
  chronicle : f.Chronicle R host operation w
    (f.linesOf result (subject g) (decide (raised = some g)) g (x.map Finding.held) ++
      f.linesOf result (subject g') (decide (raised = some g')) g' (x'.map Finding.held)) w'
  failed : ∀ c ∈ raised, c = g ∧ x.map Finding.held = some false ∧ x' = none ∨
    c = g' ∧ x'.map Finding.held = some false

/-- The check whose violation was raised. -/
def raisedAt (g : Guard) : Except ContractError Bool → Option Guard
  | .error _ => some g
  | .ok _ => none

/-- The violation that was raised, if there is one. -/
def raisedOf (f : Frame κ) (subject : Guard → String) : Option Guard → Except ContractError Unit
  | some g => .error (.violation (f.failing (subject g) g))
  | none => .ok ()

variable {g g' : Guard} {result : Option Value} {code code' : Option κ}
  {x x' : Option (Finding κ ε)} {v v' : Except ContractError Bool}

theorem AtGuard.held_of_error {err : ContractError}
    (h : f.AtGuard R host g result code w x (.error err) w') : x.map Finding.held = some false := by
  have hv := h.eq_ok_true_iff.not.mp (by simp)
  rwa [not_not] at hv

theorem half_of_first (operation : Action (World ε) (Completion ε)) (g' : Guard)
    (htrace : f.spec.trace.isEnabled = true)
    (hcode : ∀ c ∈ code, (g, c) ∈ f.spec.entry ++ f.spec.exit)
    (h : f.AtGuard R host g result code w x v w') :
    ∃ subject, f.Half R host operation g g' result w x none subject (raisedAt g v) w' ∧
      v.map (fun _ => ()) = f.raisedOf subject (raisedAt g v) := by
  obtain ⟨s, hlines, hviolation⟩ := h.chronicle operation htrace hcode
  refine ⟨fun _ => s, ⟨h.guard, by simp, ?_, ?_⟩, ?_⟩
  · rw [Option.map_none, linesOf, List.append_nil]
    cases v with
    | ok held => exact hlines
    | error err =>
      rw [raisedAt, decide_eq_true rfl]
      exact hlines
  · rintro c hc
    cases v with
    | ok held => cases hc
    | error err =>
      cases hc
      exact .inl ⟨rfl, h.held_of_error, rfl⟩
  · cases v with
    | ok held => rfl
    | error err =>
      rw [hviolation err rfl]
      rfl

theorem half_of_both (operation : Action (World ε) (Completion ε))
    (htrace : f.spec.trace.isEnabled = true)
    (hcode : ∀ c ∈ code, (g, c) ∈ f.spec.entry ++ f.spec.exit)
    (hcode' : ∀ c ∈ code', (g', c) ∈ f.spec.entry ++ f.spec.exit) (hg : g ≠ g') {held : Bool}
    (h : f.AtGuard R host g result code w x (.ok held) w₁)
    (h' : f.AtGuard R host g' result code' w₁ x' v' w') :
    ∃ subject, f.Half R host operation g g' result w x x' subject (raisedAt g' v') w' ∧
      v'.map (fun _ => ()) = f.raisedOf subject (raisedAt g' v') := by
  obtain ⟨s, hlines, _⟩ := h.chronicle operation htrace hcode
  obtain ⟨s', hlines', hviolation⟩ := h'.chronicle operation htrace hcode'
  refine ⟨fun c => if c = g then s else s', ⟨h.guard, h'.guard, ?_, ?_⟩, ?_⟩
  · rw [if_pos rfl, if_neg hg.symm]
    cases v' with
    | ok held' => exact hlines.append hlines'
    | error err =>
      rw [raisedAt, decide_eq_false (by simpa using hg.symm), decide_eq_true rfl]
      exact hlines.append hlines'
  · rintro c hc
    cases v' with
    | ok held' => cases hc
    | error err =>
      cases hc
      exact .inr ⟨rfl, h'.held_of_error⟩
  · cases v' with
    | ok held' => rfl
    | error err =>
      rw [hviolation err rfl, raisedAt, raisedOf, if_neg hg.symm]
      rfl

/-- The checks before the operation. One of them fails just if the operation is not run. -/
theorem exists_entryHalf (operation : Action (World ε) (Completion ε))
    {xs : List (Finding κ ε)} (htrace : f.spec.trace.isEnabled = true)
    (h : f.Enters R host f.spec.entry w xs v w') :
    ∃ x x' subject raised, xs = x.toList ++ x'.toList ∧
      f.Half R host operation .invariantBefore .precondition none w x x' subject raised w' ∧
      v.map (fun _ => ()) = f.raisedOf subject raised ∧
      (x.map Finding.held = some false → x' = none) ∧
      (v ≠ .ok true ↔ x.map Finding.held = some false ∨ x'.map Finding.held = some false) := by
  have hinv : ∀ c ∈ f.spec.invariant,
      (Guard.invariantBefore, c) ∈ f.spec.entry ++ f.spec.exit := fun c hc => by
    simpa [Spec.entry] using .inl hc
  have hpre : ∀ c ∈ f.spec.precondition,
      (Guard.precondition, c) ∈ f.spec.entry ++ f.spec.exit := fun c hc => by
    simpa [Spec.entry] using .inl hc
  obtain ⟨x, v₁, w₁, hx, ⟨rfl, x', rfl, hx'⟩ | ⟨hv, rfl, rfl, rfl⟩⟩ := enters_entry.mp h
  · obtain ⟨subject, hhalf, hraised⟩ :=
      half_of_both operation htrace hinv hpre (by simp) hx hx'
    have hheld := hx.eq_ok_true_iff.mp rfl
    refine ⟨x, x', subject, _, rfl, hhalf, hraised, fun hfalse => absurd hfalse hheld, ?_⟩
    rw [or_iff_right hheld, ne_eq, hx'.eq_ok_true_iff, not_not]
  · obtain ⟨subject, hhalf, hraised⟩ :=
      half_of_first operation .precondition htrace hinv hx
    refine ⟨x, none, subject, _, (List.append_nil _).symm, hhalf, hraised, fun _ => rfl, ?_⟩
    rw [or_iff_left (by simp), ne_eq, hx.eq_ok_true_iff, not_not]

/-- The checks after the operation. -/
theorem exists_exitHalf (operation : Action (World ε) (Completion ε)) {value : Value}
    {ys : List (Finding κ ε)} {verdict : Except ContractError Unit}
    (htrace : f.spec.trace.isEnabled = true)
    (h : f.Leaves R host value f.spec.exit w ys verdict w') :
    ∃ y y' subject raised, ys = y.toList ++ y'.toList ∧
      f.Half R host operation .postcondition .invariantAfter (some value) w y y' subject raised
        w' ∧
      verdict = f.raisedOf subject raised := by
  have hpost : ∀ c ∈ f.spec.postcondition,
      (Guard.postcondition, c) ∈ f.spec.entry ++ f.spec.exit := fun c hc => by
    simpa [Spec.entry, Spec.exit] using hc
  have hinv : ∀ c ∈ f.spec.invariant,
      (Guard.invariantAfter, c) ∈ f.spec.entry ++ f.spec.exit := fun c hc => by
    simpa [Spec.entry, Spec.exit] using hc
  obtain ⟨y, v, w₁, hy, ⟨held, rfl, y', v', rfl, rfl, hy'⟩ | ⟨err, rfl, rfl, rfl, rfl⟩⟩ :=
    leaves_exit.mp h
  · obtain ⟨subject, hhalf, hraised⟩ :=
      half_of_both operation htrace hpost hinv (by simp) hy hy'
    exact ⟨y, y', subject, _, rfl, hhalf, hraised⟩
  · obtain ⟨subject, hhalf, hraised⟩ :=
      half_of_first operation .invariantAfter htrace hpost hy
    exact ⟨y, none, subject, _, (List.append_nil _).symm, hhalf, hraised⟩

/-! ### The whole call -/

/-- The lines of an evaluation whose slots are known. -/
theorem lines_eq {e : Evaluation} {a b c d : Option Bool} {value : Option Value}
    (hinv : e.invariantBefore = a) (hpre : e.precondition = b) (hpost : e.postcondition = c)
    (hafter : e.invariantAfter = d) (hresult : e.result = value)
    (ran : Option (Except ContractError Value)) (subject : Guard → String)
    (raised : Option Guard) (succeeded : Bool) :
    f.lines e ran subject raised succeeded =
      (f.linesOf none (subject .invariantBefore) (decide (raised = some .invariantBefore))
          .invariantBefore a ++
        f.linesOf none (subject .precondition) (decide (raised = some .precondition))
          .precondition b) ++
        ((ran.map Line.operated).toList ++
          ((f.linesOf value (subject .postcondition) (decide (raised = some .postcondition))
              .postcondition c ++
            f.linesOf value (subject .invariantAfter) (decide (raised = some .invariantAfter))
              .invariantAfter d) ++ [.evaluated succeeded e])) := by
  subst hinv hpre hpost hafter hresult
  rfl

theorem chronicle_closing {a : Account κ ε} {r : Except ContractError Value} :
    f.Chronicle R host operation w [.evaluated r.isOk a.evaluation] (f.closing a r w) :=
  .evaluated (.nil _)

/-- A call that is refused goes by its lines. -/
theorem chronicle_of_refused {xs : List (Finding κ ε)} (htrace : f.spec.trace.isEnabled = true)
    (h : f.Enters R host f.spec.entry w xs v w') (hv : v ≠ .ok true) :
    ∃ subject raised,
      f.Chronicle R host operation w
        (f.lines (Account.mk xs none []).evaluation none subject raised v.isOk)
        (f.closing ⟨xs, none, []⟩ (v.map fun _ => .undefined) w') ∧
      f.Agreement (Account.mk xs none []).evaluation none subject raised
        (v.map fun _ => .undefined) := by
  obtain ⟨x, x', subject, raised, rfl, hhalf, hraised, hstop, hfail⟩ :=
    exists_entryHalf operation htrace h
  have hslots := slot_evaluation x x' none none none hhalf.guard hhalf.guard' (by simp) (by simp)
  simp only [Option.toList_none, List.append_nil, Option.map_none, Option.bind_none] at hslots
  obtain ⟨hinv, hpre, hpost, hafter, hresult⟩ := hslots
  refine ⟨subject, raised, ?_, ?_⟩
  · rw [lines_eq hinv hpre hpost hafter hresult]
    have hok : (v.map fun _ => Value.undefined).isOk = v.isOk := by cases v <;> rfl
    rw [← hok]
    exact hhalf.chronicle.append chronicle_closing
  · exact {
      result := hresult
      refused := by
        rw [hinv, hpre]
        exact iff_of_true rfl (hfail.mp hv)
      stopped := fun hfalse => by rw [hpre, hstop (hinv ▸ hfalse), Option.map_none]
      unanswered := fun _ => ⟨hpost, hafter⟩
      failed := by
        rintro g hg
        rcases hhalf.failed g hg with ⟨rfl, hheld, _⟩ | ⟨rfl, hheld⟩
        · exact ⟨hinv.trans hheld, nofun⟩
        · exact ⟨hpre.trans hheld, nofun⟩
      outcome := by
        rcases raised with _ | g <;> rcases v with err | held <;> cases hraised <;> rfl }

theorem raisedOf_eq_ok {subject : Guard → String} {raised : Option Guard}
    (h : .ok () = f.raisedOf subject raised) : raised = none := by
  cases raised with
  | none => rfl
  | some g => cases h

/-- A call whose operation fails goes by its lines. -/
theorem chronicle_of_failed {xs : List (Finding κ ε)} {o : Run ε} {err : ContractError}
    (htrace : f.spec.trace.isEnabled = true)
    (h : f.Enters R host f.spec.entry w xs (.ok true) o.begun)
    (ho : operation.Settles R o.begun o.result o.waited o.ended) (hr : o.result = .error err) :
    ∃ subject,
      f.Chronicle R host operation w
        (f.lines (Account.mk xs (some o) []).evaluation (some (.error err)) subject none false)
        (f.closing ⟨xs, some o, []⟩ (.error err) o.ended) ∧
      f.Agreement (Account.mk xs (some o) []).evaluation (some (.error err)) subject none
        (.error err) := by
  obtain ⟨x, x', subject, raised, rfl, hhalf, hraised, hstop, hfail⟩ :=
    exists_entryHalf operation htrace h
  obtain rfl := raisedOf_eq_ok hraised
  have hslots := slot_evaluation x x' none none (some o) hhalf.guard hhalf.guard' (by simp)
    (by simp)
  simp only [Option.toList_none, List.append_nil, Option.map_none, Option.bind_some, hr] at hslots
  obtain ⟨hinv, hpre, hpost, hafter, hresult⟩ := hslots
  refine ⟨subject, ?_, ?_⟩
  · rw [lines_eq hinv hpre hpost hafter hresult]
    exact hhalf.chronicle.append (.operated (hr ▸ ho) (chronicle_closing (r := .error err)))
  · exact {
      result := hresult
      refused := by
        rw [hinv, hpre]
        exact iff_of_false nofun (hfail.not.mp (by simp))
      stopped := fun hfalse => by rw [hpre, hstop (hinv ▸ hfalse), Option.map_none]
      unanswered := fun _ => ⟨hpost, hafter⟩
      failed := nofun
      outcome := rfl }

/-- A call whose operation returns a value goes by its lines. -/
theorem chronicle_of_completed {xs ys : List (Finding κ ε)} {o : Run ε} {value : Value}
    {verdict : Except ContractError Unit} (htrace : f.spec.trace.isEnabled = true)
    (h : f.Enters R host f.spec.entry w xs (.ok true) o.begun)
    (ho : operation.Settles R o.begun o.result o.waited o.ended) (hr : o.result = .ok value)
    (hs : f.Leaves R host value f.spec.exit o.ended ys verdict w') :
    ∃ subject raised,
      f.Chronicle R host operation w
        (f.lines (Account.mk xs (some o) ys).evaluation (some (.ok value)) subject raised
          verdict.isOk)
        (f.closing ⟨xs, some o, ys⟩ (verdict.map fun () => value) w') ∧
      f.Agreement (Account.mk xs (some o) ys).evaluation (some (.ok value)) subject raised
        (verdict.map fun () => value) := by
  obtain ⟨x, x', before, raised, rfl, hhalf, hraised, hstop, hfail⟩ :=
    exists_entryHalf operation htrace h
  obtain rfl := raisedOf_eq_ok hraised
  obtain ⟨y, y', after, raised, rfl, hhalf', hraised'⟩ := exists_exitHalf operation htrace hs
  have hslots := slot_evaluation x x' y y' (some o) hhalf.guard hhalf.guard' hhalf'.guard
    hhalf'.guard'
  simp only [Option.bind_some, hr] at hslots
  obtain ⟨hinv, hpre, hpost, hafter, hresult⟩ := hslots
  have hlater : raised ≠ some .invariantBefore ∧ raised ≠ some .precondition := by
    constructor <;>
    · rintro rfl
      rcases hhalf'.failed _ rfl with ⟨hg, _⟩ | ⟨hg, _⟩ <;> cases hg
  refine ⟨fun g => match g with
    | .invariantBefore | .precondition => before g
    | .postcondition | .invariantAfter => after g, raised, ?_, ?_⟩
  · rw [lines_eq hinv hpre hpost hafter hresult, decide_eq_false hlater.1,
      decide_eq_false hlater.2]
    have hok : (verdict.map fun () => value).isOk = verdict.isOk := by cases verdict <;> rfl
    rw [← hok]
    exact hhalf.chronicle.append (.operated (hr ▸ ho) (hhalf'.chronicle.append chronicle_closing))
  · exact {
      result := hresult
      refused := by
        rw [hinv, hpre]
        exact iff_of_false nofun (hfail.not.mp (by simp))
      stopped := fun hfalse => by rw [hpre, hstop (hinv ▸ hfalse), Option.map_none]
      unanswered := fun hnone => by
        rw [hresult] at hnone
        cases hnone
      failed := by
        rintro g hg
        rcases hhalf'.failed g hg with ⟨rfl, hheld, hlast⟩ | ⟨rfl, hheld⟩
        · exact ⟨hpost.trans hheld, fun _ => by rw [hafter, hlast, Option.map_none]⟩
        · exact ⟨hafter.trans hheld, nofun⟩
      outcome := by
        rw [hraised']
        rcases raised with _ | g
        · rfl
        · rcases hhalf'.failed g rfl with ⟨rfl, _⟩ | ⟨rfl, _⟩ <;> rfl }

/-- Every course goes by the lines that its evaluation tells. -/
theorem Course.chronicle {a : Account κ ε} {r : Except ContractError Value}
    (htrace : f.spec.trace.isEnabled = true) (h : f.Course R host operation w a r w') :
    ∃ ran subject raised,
      f.Chronicle R host operation w (f.lines a.evaluation ran subject raised r.isOk)
        (f.closing a r w') ∧
      f.Agreement a.evaluation ran subject raised r := by
  cases h with
  | refused h => exact ⟨none, chronicle_of_refused htrace h (by simp)⟩
  | refusedRaised h => exact ⟨none, chronicle_of_refused htrace h (by simp)⟩
  | failed h ho hr =>
    obtain ⟨subject, hchron, hagree⟩ := chronicle_of_failed htrace h ho hr
    exact ⟨_, subject, none, hchron, hagree⟩
  | @completed _ _ _ _ verdict _ h ho hr hs =>
    obtain ⟨subject, raised, hchron, hagree⟩ := chronicle_of_completed htrace h ho hr hs
    refine ⟨_, subject, raised, ?_, hagree⟩
    cases verdict <;> exact hchron

end Frame

/-- The three records of a call under a contract that traces, however it was polled and whatever
happened meanwhile. The call goes by lines of its own, in which nested calls and others have a
part only while a stage waits to settle: for each slot of the evaluation that is filled the answer
of the check, then its event, and then its violation if the slot is false; in between the run of
the operation; at the end the one evaluation. The events are those of the filled slots and the
violations those of the false ones, in order, and no violation but the last is raised. A check
that fails before the operation leaves the later slots empty and the operation alone; the outcome
is then `undefined` or the raised violation. -/
theorem records_agree {host : Host κ ε} {site : CallSite} {spec : Spec κ} {inner : Operation κ}
    {v : Value} {i : Input} {changes : List (World ε → World ε)} {w w' : World ε}
    {r : Except ContractError Value} (htrace : spec.trace.isEnabled = true)
    (h : ((Operation.checked site spec inner).call host v i).polls changes w = (.finished r, w')) :
    let f := Operation.frame site spec v i w.heap
    ∃ (e : Evaluation) (ran : Option (Except ContractError Value)) (subject : Guard → String)
      (raised : Option Guard) (lines : List Line) (w₁ : World ε),
      f.Chronicle (Operation.Among changes) host (inner.call host v i) w lines w₁ ∧
      Operation.Among changes w₁ w' ∧
      lines = f.lines e ran subject raised r.isOk ∧
      lines.filterMap Line.evaluation? = [(r.isOk, e)] ∧
      lines.filterMap Line.event? =
        (Guard.all.filterMap fun g => (e.slot g).map (f.event (e.resultAt g) g)) ∧
      lines.filterMap Line.violation? =
        ((Guard.all.filter fun g => e.slot g = some false).map fun g =>
          (f.failing (subject g) g, decide (raised = some g))) ∧
      f.Agreement e ran subject raised r := by
  intro f
  obtain ⟨a, w₁, hcourse, hstate⟩ := Operation.course_of_polls h
  obtain ⟨ran, subject, raised, hchron, hagree⟩ := hcourse.chronicle htrace
  exact ⟨a.evaluation, ran, subject, raised, _, _, hchron, hstate, rfl,
    f.evaluations_lines _ _ _ _ _, f.events_lines _ _ _ _ _, f.violations_lines _ _ _ _ _,
    hagree⟩

namespace Lantern

/-- Lighting puts the lantern out, its answer is never good enough, and the sink gives up. -/
def host : Host Unit Bool where
  accepts _ vs := pure (.ready (vs.length == 1))
  holds _ _ := do
    let w ← get
    pure (.pending (.waits 1 (.done w.own)))
  operate _ _ _ := do
    modify fun w => { w with own := false }
    pure (.ready (.ok .null))
  read _ _ := pure .undefined
  setUp _ _ _ := pure (.ok ())
  deliver _ _ := throw .panic

def site : CallSite := ⟨some "Lantern", "light"⟩

def spec : Spec Unit where
  precondition := some ()
  postcondition := some ()
  invariant := some ()
  trace := .sink ()
  mode := some .log

def world : World Bool := { mode := .holding .throw, own := true }

/-- While the second invariant waits, others light the lantern again. -/
def lit : Polled (World Bool) (Except ContractError Value) × World Bool :=
  ((Operation.checked site spec (.plain ())).call host .undefined (.value .null)).polls
    [id, fun w => { w with own := true }] world

/-- A setter under a contract that only writes its failures down. -/
theorem recorded : spec.trace.isEnabled = true ∧ lit.1.result? = some (.ok (.ok .null)) ∧
    ∃ (e : Evaluation) (lines : List Line), lines.filterMap Line.evaluation? = [(true, e)] ∧
      e.result = some .null ∧ (∀ x ∈ lines.filterMap Line.violation?, x.2 = false) ∧
      ∀ event ∈ lines.filterMap Line.event?, event.className = "Lantern" := by
  obtain ⟨w', hlit⟩ : ∃ w', lit = (.finished (.ok .null), w') := ⟨_, rfl⟩
  obtain ⟨e, ran, subject, raised, lines, _, _, _, _, hclose, hevents, hviolations, hagree⟩ :=
    records_agree rfl hlit
  obtain ⟨rfl, rfl⟩ : raised = none ∧ ran = some (.ok .null) := by
    rcases raised with _ | g
    · rcases ran with _ | r
      · cases hagree.outcome
      · exact ⟨rfl, congrArg some hagree.outcome.symm⟩
    · cases hagree.outcome
  refine ⟨rfl, by rw [hlit]; rfl, e, lines, hclose, hagree.result, ?_, ?_⟩
  · rw [hviolations]
    simp
  · rw [hevents]
    intro event hevent
    obtain ⟨g, _, hg⟩ := List.mem_filterMap.mp hevent
    obtain ⟨held, _, rfl⟩ := Option.map_eq_some_iff.mp hg
    rfl

end Lantern

end Contracts
