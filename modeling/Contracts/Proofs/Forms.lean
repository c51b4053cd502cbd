import Contracts.Proofs.Accounts
import Contracts.Proofs.Isolation
import Contracts.Proofs.Padding
import Contracts.Proofs.Watching

/-!
# Contracts.Proofs.Forms

The forms in which an operation is offered.

* `FailureKind.atSetter`, `TraceEvent.atSetter`, `Violation.AtSetter` — what a setter calls what
  happens to a method.
* `forms`            — a call of a method next to a call of a setter: the same states, but for these
  names in the journal and for what a trace sink makes of them.
* `Host.IgnoresForm` — callbacks for which these names make no difference.
* `sameForms`        — then both calls agree at every check, wherever it fails.
* `forms_agree`      — and so they do as a whole, down to the callbacks that they start; a function
  is a method without a receiver.
* `Louver.refused_as_setter` — a sink may tell the forms apart, and then they do not agree.
-/

namespace Contracts

open List (Forall₂)

variable {κ ε α : Type}

/-! ## The names of setters -/

namespace FailureKind

/-- What a setter calls the failure of a method. -/
def atSetter : FailureKind → FailureKind
  | .before => .setterBefore
  | .after => .setterAfter
  | .constantBefore => .constantBefore
  | .constantAfter => .constantAfter
  | .setterBefore => .setterBefore
  | .setterAfter => .setterAfter
  | .constantConstructor => .constantConstructor

theorem headline_atSetter (k : FailureKind) : k.atSetter.headline = k.headline := by
  cases k <;> rfl

end FailureKind

theorem Input.failure_value (v : Value) (vs : List Value) (g : Guard) :
    (Input.value v).failure g = ((Input.args vs).failure g).atSetter := by
  cases g <;> rfl

/-- A check of a method, as a setter traces it that is given `v`. -/
def TraceEvent.atSetter (v : Value) (e : TraceEvent) : TraceEvent :=
  { e with
    input := .value v
    failure := e.failure.map .atSetter }

/-- The second violation is the first one as a setter reports it: `C.set m(..)` for `C.m(..)`. -/
structure Violation.AtSetter (x y : Violation) : Prop where
  failure : y.failure = x.failure.atSetter
  className : y.className = x.className
  member : y.member = x.member
  message : ∃ member text, x.member = some member ∧
    x.message = x.failure.headline ++ ": " ++ (x.className ++ "." ++ member ++ "(" ++ text) ∧
    y.message = x.failure.headline ++ ": " ++ (x.className ++ ".set " ++ member ++ "(" ++ text)

/-- The same error, or a violation and what a setter makes of it. -/
inductive ContractError.InForms : ContractError → ContractError → Prop where
  | same (e : ContractError) : InForms e e
  | violation {x y : Violation} (h : x.AtSetter y) : InForms (.violation x) (.violation y)

/-- The same entry, or what a method writes about a check and what a setter writes. -/
inductive Event.InForms (v : Value) : Event → Event → Prop where
  | same (e : Event) : InForms v e e
  | traced (h : Heap) {e : TraceEvent} (hinput : e.input = .args [v]) :
      InForms v (.traced (e.text h)) (.traced ((e.atSetter v).text h))
  | defaultTrace (kind : CheckKind) (className member input : String) (result : Option String)
      (passed : Bool) (failure : Option FailureKind) :
      InForms v (.defaultTrace kind className member input result passed failure)
        (.defaultTrace kind className member input result passed (failure.map .atSetter))
  | violated {x y : Violation} (h : x.AtSetter y) :
      InForms v (.violated x.failure x.className x.message)
        (.violated y.failure y.className y.message)

/-- The states of a call of a method and of a call of a setter that is given `v`. The journals
differ in the names of setters, and `O` says what may differ in the part of the callbacks, who may
have been told these names by a trace. -/
structure World.InForms (v : Value) (O : ε → ε → Prop) (w w' : World ε) : Prop where
  heap : w.heap = w'.heap
  nextSymbol : w.nextSymbol = w'.nextSymbol
  mode : w.mode = w'.mode
  entries : Forall₂ (Event.InForms v) w.entries w'.entries
  own : O w.own w'.own

theorem World.InForms.refl {v : Value} {O : ε → ε → Prop} {w : World ε} (hO : O w.own w.own) :
    w.InForms v O w :=
  ⟨rfl, rfl, rfl, List.forall₂_same.mpr fun e _ => .same e, hO⟩

/-- A call of a method, and a call of a setter. -/
def forms (v : Value) (O : ε → ε → Prop) : Comparison Unit ε ε where
  toSimulation := .ofAgreement (World.InForms v O)
  value _ := Eq
  value_mono _ h := h
  undefined _ := rfl
  render := by
    rintro _ w w' u _ hw rfl
    rw [hw.heap]
  toJson := by
    rintro _ w w' u _ hw rfl
    rw [hw.heap]
  label := by
    rintro _ w w' u _ site hw rfl
    rw [hw.heap]
  log := by
    rintro _ w w' e _ hw he
    rw [he.eq]
    exact ⟨{ hw with entries := .cons (.same _) hw.entries }, trivial⟩
  readMode := by
    intro _ w w' hw
    rw [hw.mode]
    exact ⟨rfl, { hw with mode := rfl }, trivial⟩

section

variable {v : Value} {O : ε → ε → Prop}

theorem acts_log_forms {e e' : Event} (h : e.InForms v e') :
    (forms v O).Acts (fun _ => Eq) () (World.log e) (World.log e') :=
  fun _ _ _ _ hw => ⟨(), { hw with entries := .cons h hw.entries }, trivial, .ok rfl⟩

/-- A violation goes the same way in both forms. -/
theorem acts_report_forms (override : Option FailureMode) {x y : Violation} (h : x.AtSetter y) :
    (forms v O).Acts (fun _ => EndsIn ContractError.InForms Eq) () (report override x)
      (report override y) := by
  refine Simulation.acts_bind (Comparison.acts_effectiveMode override) ?_
  rintro _ _ mode _ rfl
  cases mode with
  | throw => exact Simulation.acts_pure fun _ _ => .error (.violation h)
  | log =>
    refine Simulation.acts_bind (acts_log_forms (.violated h)) fun _ _ _ _ _ => ?_
    exact Simulation.acts_pure fun _ _ => .ok rfl

theorem renderInput_value (h : Heap) (v : Value) :
    (Input.args [v]).render h = (Input.value v).render h := by
  simp [Input.render, Heap.renderArgs]

/-- A trace goes the same way in both forms, if what the sink does with it does. -/
theorem acts_emit_forms {host : Host κ ε} {t : TraceSetting κ} {e : TraceEvent}
    (hinput : e.input = .args [v]) (hsink : ∀ code, t = .sink code →
      (forms v O).Acts (fun _ => Eq) () (host.deliver code e) (host.deliver code (e.atSetter v))) :
    (forms v O).Acts (fun _ => Eq) () (t.emit host e) (t.emit host (e.atSetter v)) := by
  cases t with
  | disabled => exact Simulation.acts_pure fun _ _ => rfl
  | default =>
    refine Comparison.acts_readHeap fun _ _ w w' hw => ?_
    have hheap : w.heap = w'.heap := hw.heap
    have htext : e.input.render w.heap = (e.atSetter v).input.render w'.heap := by
      rw [hinput, renderInput_value, hheap]
      rfl
    rw [htext, hheap]
    exact acts_log_forms (.defaultTrace _ _ _ _ _ _ _)
  | sink code =>
    refine Comparison.acts_readHeap fun _ _ w w' hw => ?_
    have hheap : w.heap = w'.heap := hw.heap
    rw [hheap]
    refine Simulation.acts_bind (acts_log_forms (.traced _ hinput)) fun _ _ _ _ _ => ?_
    exact Simulation.acts_tryCatch (hsink code rfl) fun _ => acts_log_forms (.same _)

end

/-! ## One check in both forms -/

/-- The frame of a call with one input as a method, and as a setter. -/
structure Frame.Forms (v : Value) (m s : Frame κ) : Prop where
  input : m.input = .args [v]
  setter : s = { m with input := .value v }

namespace Frame.Forms

variable {v : Value} {m s : Frame κ}

/-- Predicates see the same in both forms. -/
theorem test_eq (h : Frame.Forms v m s) (host : Host κ ε) (result : Option Value) (code : κ)
    (g : Guard) : m.test host result code g = s.test host result code g := by
  obtain rfl := h.setter
  cases g with
  | invariantBefore | invariantAfter => rfl
  | precondition | postcondition =>
    simp only [Frame.test, h.input]
    rfl

theorem test_precondition (h : Frame.Forms v m s) (host : Host κ ε) (code : κ) :
    m.test host none code .precondition = host.accepts code [v] := by
  rw [Frame.test, h.input]
  rfl

theorem test_postcondition (h : Frame.Forms v m s) (host : Host κ ε) (code : κ) (r : Value) :
    m.test host (some r) code .postcondition = host.accepts code [r, v] := by
  rw [Frame.test, h.input]
  rfl

theorem traceEvent_eq (h : Frame.Forms v m s) (result : Option Value) (g : Guard) (held : Bool) :
    s.traceEvent result g held = (m.traceEvent result g held).atSetter v := by
  obtain rfl := h.setter
  cases held <;> simp [Frame.traceEvent, TraceEvent.atSetter, h.input, Input.failure_value v [v]]

/-- The violation that a failed check comes to. -/
theorem violation (h : Frame.Forms v m s) (g : Guard) (heap : Heap) (result : Option Value) :
    (Violation.about (m.input.failure g) m.className (some m.site.member)
        (m.subject heap result)).AtSetter
      (.about (s.input.failure g) s.className (some s.site.member) (s.subject heap result)) := by
  have hfailure : s.input.failure g = (m.input.failure g).atSetter := by
    rw [h.setter, h.input]
    exact Input.failure_value v [v] g
  refine ⟨hfailure, by rw [h.setter]; rfl, by rw [h.setter]; rfl, m.site.member,
    heap.render v ++ ")" ++ (result.map fun r => " -> " ++ heap.render r).getD "", rfl, ?_, ?_⟩
  · simp only [Violation.about, Frame.subject, Input.subject, h.input, Heap.renderArgs,
      List.map_cons, List.map_nil, String.intercalate_singleton, String.append_assoc]
    cases result <;> rfl
  · simp only [Violation.about, hfailure, FailureKind.headline_atSetter]
    simp only [Frame.subject, Input.subject, h.setter, String.append_assoc]
    cases result <;> rfl

end Frame.Forms

/-- Callbacks of a call for which it makes no difference in which form the call is made. They do the
same from states that differ as the forms do, and so does a trace sink with what it is given. -/
structure Host.IgnoresForm (host : Host κ ε) (O : ε → ε → Prop) (spec : Spec κ) (receiver v : Value)
    (operation : Action (World ε) (Completion ε)) : Prop where
  holds : ∀ code, spec.invariant = some code → (forms v O).Starts (fun _ => Eq) ()
    (host.holds code receiver) (host.holds code receiver)
  before : ∀ code, spec.precondition = some code → (forms v O).Starts (fun _ => Eq) ()
    (host.accepts code [v]) (host.accepts code [v])
  after : ∀ code, spec.postcondition = some code → ∀ r, (forms v O).Starts (fun _ => Eq) ()
    (host.accepts code [r, v]) (host.accepts code [r, v])
  operation : (forms v O).Starts (fun _ => Eq) () operation operation
  deliver : ∀ code, spec.trace = .sink code → ∀ e : TraceEvent, e.input = .args [v] →
    (forms v O).Acts (fun _ => Eq) () (host.deliver code e) (host.deliver code (e.atSetter v))

theorem refines_forms (v : Value) :
    Simulation.Refines (journalless ε).toSimulation (forms v Eq).toSimulation where
  agree {_ w w'} hw := by
    obtain ⟨heap, nextSymbol, mode, entries, own⟩ := w
    obtain ⟨rfl, rfl, rfl, _, rfl⟩ := hw
    rfl
  move {_ w w' _ w₁ w₁'} hw hstate := by
    rintro ⟨new, hnew, hnew'⟩
    have hstate : w₁.state = w₁'.state := hstate
    have hsymbol : w₁.state.nextSymbol = w₁'.state.nextSymbol := by rw [hstate]
    refine ⟨⟨World.heap_of_state hstate, hsymbol, World.mode_of_state hstate, ?_,
      World.own_of_state hstate⟩, trivial⟩
    rw [hnew, hnew']
    exact List.rel_append (List.forall₂_same.mpr fun e _ => .same e) hw.entries

/-- Callbacks that do not see the journal ignore the form of a call, if what a sink does does not
depend on what it is given. -/
theorem Host.Blind.ignoresForm {host : Host κ ε} (h : host.Blind) {spec : Spec κ} {v : Value}
    {operation : Action (World ε) (Completion ε)} (hop : operation.StartsBlind) (receiver : Value)
    (hsink : ∀ code, spec.trace = .sink code → ∀ e e',
      host.deliver code e = host.deliver code e') :
    host.IgnoresForm Eq spec receiver v operation where
  holds code _ := (h.holds code receiver).refine (refines_forms v)
  before code _ := (h.accepts code _).refine (refines_forms v)
  after code _ _ := (h.accepts code _).refine (refines_forms v)
  operation := hop.refine (refines_forms v)
  deliver code hcode e _ := by
    have hdeliver := (h.deliver code e).refine (refines_forms v)
    rwa [hsink code hcode e (e.atSetter v)] at hdeliver ⊢

section

variable {host : Host κ ε} {O : ε → ε → Prop} {v : Value} {m s : Frame κ}
  {operation : Action (World ε) (Completion ε)}

/-- Both forms of a call agree at every check. -/
theorem sameForms (hms : Frame.Forms v m s)
    (h : host.IgnoresForm O m.spec m.receiver v operation) :
    (forms v O).LikeFrame ContractError.InForms () host host m s where
  member := by rw [hms.setter]
  className := by rw [hms.setter]
  entry := by rw [hms.setter]
  exit := by rw [hms.setter]
  test_entry := by
    rintro ⟨g, code⟩ hp
    rw [← hms.test_eq]
    rcases Comparison.mem_entry.mp hp with ⟨rfl, hcode⟩ | ⟨rfl, hcode⟩
    · exact h.holds code hcode
    · rw [hms.test_precondition]
      exact h.before code hcode
  test_exit := by
    rintro ⟨g, code⟩ hp ⟨⟩ _ r _ rfl
    rw [← hms.test_eq]
    rcases Comparison.mem_exit.mp hp with ⟨rfl, hcode⟩ | ⟨rfl, hcode⟩
    · rw [hms.test_postcondition]
      exact h.after code hcode r
    · exact h.holds code hcode
  observe := by
    intro _ _ result result' hresult g held
    obtain rfl : result = result' := eq_of_optionRel hresult
    have hspec : s.spec = m.spec := by rw [hms.setter]
    have hinput : (m.traceEvent result g held).input = .args [v] := hms.input
    have hemit := acts_emit_forms hinput fun code hcode => h.deliver code hcode _ hinput
    unfold Frame.observe
    rw [hms.traceEvent_eq, hspec]
    refine Simulation.acts_bind hemit fun _ _ _ _ _ => ?_
    cases held with
    | true => exact Simulation.acts_pure fun _ _ => .ok rfl
    | false =>
      refine Comparison.acts_readHeap fun _ _ w w' hw => ?_
      have hheap : w.heap = w'.heap := hw.heap
      rw [hheap]
      exact acts_report_forms _ (hms.violation g w'.heap result)

end

/-! ## The callbacks of both forms -/

/-- The same start, in states that differ as the forms do, or the same reply. -/
inductive Mark.InForms (v : Value) (O : ε → ε → Prop) : Mark κ ε → Mark κ ε → Prop where
  | started (callee : Callee κ) {w w' : World ε} (h : w.InForms v O w') :
      InForms v O (.started callee w) (.started callee w')
  | settled (reply : Reply) : InForms v O (.settled reply) (.settled reply)

/-- What may differ between both forms when they are watched: the marks agree. -/
def besideMarks (v : Value) (O : ε → ε → Prop) (p q : ε × List (Mark κ ε)) : Prop :=
  O p.1 q.1 ∧ Forall₂ (Mark.InForms v O) p.2 q.2

section

variable {v : Value} {O : ε → ε → Prop}

theorem World.inForms_beside {w w' : World ε} {marks marks' : List (Mark κ ε)}
    (hw : w.InForms v O w') (hmarks : Forall₂ (Mark.InForms v O) marks marks') :
    (w.beside marks).InForms v (besideMarks v O) (w'.beside marks') :=
  ⟨hw.heap, hw.nextSymbol, hw.mode, hw.entries, hw.own, hmarks⟩

theorem World.InForms.main {w w' : World (ε × List (Mark κ ε))}
    (hw : w.InForms v (besideMarks v O) w') : w.main.InForms v O w'.main :=
  ⟨hw.heap, hw.nextSymbol, hw.mode, hw.entries, hw.own.1⟩

theorem World.InForms.aside {w w' : World (ε × List (Mark κ ε))}
    (hw : w.InForms v (besideMarks v O) w') : Forall₂ (Mark.InForms v O) w.aside w'.aside :=
  hw.own.2

/-- Notes that agree keep the marks in agreement. -/
theorem acts_note_forms {m m' : World ε → Mark κ ε}
    (h : ∀ w w' : World ε, w.InForms v O w' → (m w).InForms v O (m' w')) :
    (forms v (besideMarks v O)).Acts (fun _ => Eq) () (note m) (note m') := by
  intro _ _ w w' hw
  have hmarks := List.rel_append hw.aside (.cons (h _ _ hw.main) .nil)
  exact ⟨(), World.inForms_beside hw.main hmarks, trivial, .ok rfl⟩

theorem acts_settled_forms (reply : α → Reply) (a : α) :
    (forms v (besideMarks v O)).Acts (fun _ => Eq) ()
      (settled reply a : Action (World (ε × List (Mark κ ε))) α) (settled reply a) := by
  refine Simulation.acts_bind (acts_note_forms fun _ _ _ => .settled _) fun _ _ _ _ _ => ?_
  exact Simulation.acts_pure fun _ _ => rfl

theorem acts_widen_forms {R : Unit → α → α → Prop} {a b : Action (World ε) α}
    (h : (forms v O).Acts R () a b) :
    (forms v (besideMarks (κ := κ) v O)).Acts R () a.widen b.widen := by
  intro _ _ w w' hw
  obtain ⟨_, hmain, _, hends⟩ := h () le_rfl w.main w'.main hw.main
  exact ⟨(), World.inForms_beside hmain hw.aside, trivial, hends⟩

theorem runs_widen_forms {t u : Future (World ε) α} (h : (forms v O).Runs (fun _ => Eq) () t u) :
    (forms v (besideMarks (κ := κ) v O)).Runs (fun _ => Eq) () t.widen u.widen := by
  refine ⟨fun _ p q => ∃ t u, p = t.widen ∧ q = u.widen ∧ (forms v O).Runs (fun _ => Eq) () t u,
    ?_, t, u, rfl, rfl, h⟩
  rintro _ _ _ ⟨t, u, rfl, rfl, h⟩ _ _ w w' hw
  obtain ⟨_, hmain, _, hshows⟩ := h.pollsTo () le_rfl w.main w'.main hw.main
  rw [Future.poll_widen, Future.poll_widen]
  revert hmain hshows
  rcases t.poll w.main with ⟨x, w₁⟩
  rcases u.poll w'.main with ⟨y, w₁'⟩
  intro hmain hshows
  have hbeside := World.inForms_beside hmain hw.aside
  cases hshows with
  | finished hab => exact ⟨(), hbeside, trivial, .finished hab⟩
  | aborted c => exact ⟨(), hbeside, trivial, .aborted c⟩
  | waiting hw => exact ⟨(), hbeside, trivial, .waiting ⟨_, _, rfl, rfl, hw⟩⟩

/-- Callbacks that agree start and settle alike when they are watched. -/
theorem starts_watch_forms (callee : Callee κ) (reply : α → Reply)
    {a b : Action (World ε) (Eventual (World ε) α)} (h : (forms v O).Starts (fun _ => Eq) () a b) :
    (forms v (besideMarks v O)).Starts (fun _ => Eq) () (watch callee reply a)
      (watch callee reply b) := by
  refine Simulation.acts_bind (acts_note_forms fun _ _ hw => .started callee hw)
    fun _ _ _ _ _ => ?_
  refine Simulation.acts_bind (acts_widen_forms h) fun _ _ x y hxy => ?_
  cases hxy with
  | ready hab =>
    obtain rfl := hab
    refine Simulation.acts_bind (acts_settled_forms reply _) fun _ _ c _ hc => ?_
    exact Simulation.acts_pure fun _ _ => .ready hc
  | pending htu =>
    refine Simulation.acts_pure fun _ _ => .pending ?_
    refine Simulation.runs_bind (runs_widen_forms htu) ?_
    rintro _ _ c _ rfl
    exact Simulation.runs_lift (acts_settled_forms reply c)

/-- To be watched makes no difference to callbacks that ignore the form of a call. -/
theorem Host.IgnoresForm.watched {host : Host κ ε} {spec : Spec κ} {receiver : Value}
    {operation : Action (World ε) (Completion ε)} (callee : Callee κ)
    (h : host.IgnoresForm O spec receiver v operation) :
    host.watched.IgnoresForm (besideMarks v O) spec receiver v
      (watch callee .outcome operation) where
  holds code hcode := starts_watch_forms _ _ (h.holds code hcode)
  before code hcode := starts_watch_forms _ _ (h.before code hcode)
  after code hcode r := starts_watch_forms _ _ (h.after code hcode r)
  operation := starts_watch_forms _ _ h.operation
  deliver code hcode e he := acts_widen_forms (h.deliver code hcode e he)

end

/-! ## Whole calls -/

/-- A call under a contract comes to what its checks around the operation come to. -/
theorem Operation.polls_call_checked (host : Host κ ε) (site : CallSite) (spec : Spec κ)
    (inner : Operation κ) (receiver : Value) (input : Input) (changes : List (World ε → World ε))
    (w : World ε) :
    ((checked site spec inner).call host receiver input).polls changes w =
      (invoke host (frame site spec receiver input w.heap)
        (inner.call host receiver input)).polls changes w := by
  rw [Action.polls, Action.polls, exec_call_checked]

section

variable {host : Host κ ε} {O : ε → ε → Prop} {v : Value} {m s : Frame κ}
  {operation : Action (World ε) (Completion ε)} {changes : List (World ε → World ε)}

/-- Both forms of a call show the same after any number of polls. -/
theorem polls_forms (hms : Frame.Forms v m s)
    (h : host.IgnoresForm O m.spec m.receiver v operation)
    (hchanges : ∀ change ∈ changes, ∀ w w' : World ε, w.InForms v O w' →
      (change w).InForms v O (change w')) {w w' : World ε} (hw : w.InForms v O w') :
    let asMethod := (invoke host m operation).polls changes w
    let asSetter := (invoke host s operation).polls changes w'
    Shows (EndsIn ContractError.InForms Eq) (fun _ _ => True) asMethod.1 asSetter.1 ∧
      asMethod.2.InForms v O asSetter.2 := by
  have hop : (forms v O).Starts ((forms v O).OutcomeLike ContractError.InForms) () operation
      operation := by
    refine Simulation.Starts.imp (fun _ r r' hr => ?_) h.operation
    obtain rfl := hr
    cases r with
    | error err => exact .error (.same err)
    | ok value => exact .ok rfl
  have hboth : Forall₂ (fun change change' : World ε → World ε => ∀ k w w',
      (forms v O).agree k w w' → (forms v O).agree k (change w) (change' w')) changes changes :=
    List.forall₂_same.mpr fun change hmem _ w w' hw => hchanges change hmem w w' hw
  obtain ⟨_, hstate, hshows⟩ := Simulation.starts_polls hboth ((sameForms hms h).starts hop) hw
  exact ⟨hshows.mono (fun _ _ h => h) fun _ _ _ => trivial, hstate⟩

/-- What others do to the state next to the marks keeps both forms in agreement if what they do to
the state itself does. -/
theorem changeMain_inForms
    (hchanges : ∀ change ∈ changes, ∀ w w' : World ε, w.InForms v O w' →
      (change w).InForms v O (change w')) :
    ∀ change ∈ changes.map World.changeMain, ∀ w w' : World (ε × List (Mark κ ε)),
      w.InForms v (besideMarks v O) w' →
        (change w).InForms v (besideMarks v O) (change w') := by
  intro _ hmem w w' hw
  obtain ⟨change, hchange, rfl⟩ := List.mem_map.mp hmem
  exact World.inForms_beside (hchanges change hchange _ _ hw.main) hw.aside

end

/-- The forms of an operation agree where no callback and no trace sink tells them apart. Called
with one value, as a setter and as a method that hands its first argument to the setter, an
operation under a contract then shows the same after any number of polls, whatever others do in
between that tells the forms apart no more: both calls are pending, or both come to the same, in the
same state. They start the same callbacks in the same order with the same inputs, and these settle
to the same. What differs is what a setter calls things: each trace and each violation of the setter
is that of the method in the words for setters, and so are the journal and the error raised.
Callbacks that cannot read the journal do not tell the forms apart, with a sink that does the same
whatever it is given. A function is a method that is called without a receiver, so that invariants
see `undefined` and a site without a class name shows a placeholder. -/
theorem forms_agree (host : Host κ ε) (site : CallSite) (spec : Spec κ) :
    (∀ (receiver v : Value) (setter : Operation κ) (method : κ) (O : ε → ε → Prop)
      (changes : List (World ε → World ε)) (w : World ε),
      let operation := setter.call host receiver (.value v)
      host.operate method receiver (.args [v]) = operation →
      host.IgnoresForm O spec receiver v operation →
      (∀ change ∈ changes, ∀ w w' : World ε, w.InForms v O w' →
        (change w).InForms v O (change w')) →
      O w.own w.own →
      let m := Operation.frame site spec receiver (.args [v]) w.heap
      let s := Operation.frame site spec receiver (.value v) w.heap
      let asMethod := ((Wrapped.mk .method (.checked site spec (.plain method))).call host receiver
        [v]).polls changes w
      let asSetter := ((Wrapped.mk .setter (.checked site spec setter)).call host receiver
        [v]).polls changes w
      let seen := fun f : Frame κ =>
        (invoke host.watched f (watch (.operation receiver (.value v)) .outcome operation)).polls
          (changes.map World.changeMain) (w.beside [])
      (Shows (EndsIn ContractError.InForms Eq) (fun _ _ => True) asMethod.1 asSetter.1 ∧
        asMethod.2.InForms v O asSetter.2) ∧
      ((seen m).1.result? = asMethod.1.result? ∧ (seen m).2.main = asMethod.2 ∧
        (seen s).1.result? = asSetter.1.result? ∧ (seen s).2.main = asSetter.2 ∧
        Forall₂ (Mark.InForms v O) (seen m).2.aside (seen s).2.aside) ∧
      (∀ result g held, s.traceEvent result g held = (m.traceEvent result g held).atSetter v) ∧
      ∀ x : Finding κ ε, (m.violation x).AtSetter (s.violation x)) ∧
    (∀ (receiver v : Value) (operation : Action (World ε) (Completion ε)),
      host.Blind → operation.StartsBlind →
      (∀ code, spec.trace = .sink code → ∀ e e', host.deliver code e = host.deliver code e') →
      host.IgnoresForm Eq spec receiver v operation) ∧
    (∀ (function method : κ),
      (∀ args, host.operate method .undefined (.args args) =
        host.operate function .undefined (.args args)) →
      ∀ receiver args,
        (Wrapped.mk .function (.checked site spec (.plain function))).call host receiver args =
          (Wrapped.mk .method (.checked site spec (.plain method))).call host .undefined args) ∧
    ∀ input heap, let f := Operation.frame site spec .undefined input heap
      (∀ result code, f.test host result code .invariantBefore = host.holds code .undefined ∧
        f.test host result code .invariantAfter = host.holds code .undefined) ∧
      f.className = site.className.getD "<anonymous>" := by
  refine ⟨?_, fun receiver _ _ hblind hop hsink => hblind.ignoresForm hop receiver hsink, ?_,
    fun input heap => ⟨fun _ _ => ⟨rfl, rfl⟩, ?_⟩⟩
  · intro receiver v setter method O changes w operation hmethod h hchanges hO m s asMethod asSetter
      seen
    have hms : Frame.Forms v m s := ⟨rfl, rfl⟩
    have hasMethod : asMethod = (invoke host m operation).polls changes w := by
      rw [← hmethod]
      exact Operation.polls_call_checked host site spec (.plain method) receiver (.args [v]) changes w
    have hasSetter : asSetter = (invoke host s operation).polls changes w :=
      Operation.polls_call_checked host site spec setter receiver (.value v) changes w
    have hpolls := polls_forms hms h hchanges (.refl hO)
    have hseen := polls_forms hms (h.watched (.operation receiver (.value v)))
      (changeMain_inForms hchanges) (World.inForms_beside (.refl hO) .nil)
    have hm := watched_call host m (.operation receiver (.value v)) operation changes (w.beside [])
    have hs := watched_call host s (.operation receiver (.value v)) operation changes (w.beside [])
    rw [hasMethod, hasSetter]
    exact ⟨hpolls, ⟨hm.1, hm.2, hs.1, hs.2, hseen.2.aside⟩, hms.traceEvent_eq,
      fun x => hms.violation x.guard x.traced.heap x.result⟩
  · intro function method hsame receiver args
    simp only [Wrapped.call, Operation.call, hsame]
  · obtain ⟨className, member⟩ := site
    cases className <;> rfl

namespace Louver

/-- The condition never holds. The sink has violations raised from now on when it is told of one of
a setter. -/
def host : Host Unit Unit where
  accepts _ _ := pure (.ready false)
  holds _ _ := pure (.ready true)
  operate _ _ i := pure (.ready (.ok (i.values.headD .undefined)))
  read _ _ := pure .undefined
  setUp _ _ _ := pure (.ok ())
  deliver _ e := do
    if e.failure = some .setterBefore then
      let _ ← World.setFailureMode .throw
      pure ()

def site : CallSite := ⟨some "Louver", "raised"⟩

def spec : Spec Unit := { precondition := some (), trace := .sink () }

def value : Value := .scalar (.bool true)

def raise (form : Form) : Polled (World Unit) (Except ContractError Value) × World Unit :=
  ((Wrapped.mk form (.checked site spec (.plain ()))).call host .undefined [value]).polls []
    { mode := .holding .log, own := () }

/-- The same operation ends well as a method and in an error as a setter: the sink has set the mode
before the violation is reported. -/
theorem refused_as_setter :
    host.operate () .undefined (.args [value]) =
      (Operation.plain ()).call host .undefined (.value value) ∧
    (raise .method).1.result? = some (.ok (.ok .undefined)) ∧
    (raise .setter).1.result? = some (.ok (.error (.violation
      ⟨.setterBefore, "Louver", some "raised", "Before failed: Louver.set raised(true)"⟩))) :=
  ⟨rfl, rfl, rfl⟩

end Louver

namespace Shutter

/-- The condition answers late, and no. What is traced is kept. -/
def host : Host Unit (List TraceEvent) where
  accepts _ _ := pure (.pending (.waits 1 (.done false)))
  holds _ _ := pure (.ready true)
  operate _ _ i := pure (.ready (.ok (i.values.headD .undefined)))
  read _ _ := pure .undefined
  setUp _ _ _ := pure (.ok ())
  deliver _ e := modify fun w => { w with own := e :: w.own }

def site : CallSite := ⟨some "Shutter", "raised"⟩

def spec : Spec Unit := { precondition := some (), trace := .sink (), mode := some .throw }

def value : Value := .scalar (.bool true)

/-- What was traced of the method is kept of the setter, in the words for setters. -/
def Reworded (kept kept' : List TraceEvent) : Prop := kept' = kept.map (TraceEvent.atSetter value)

theorem ignoresForm : host.IgnoresForm Reworded spec .undefined value
    ((Operation.plain ()).call host .undefined (.value value)) where
  holds _ _ := Simulation.acts_pure fun _ _ => .ready rfl
  before _ _ := Simulation.acts_pure fun _ _ =>
    .pending (Simulation.runs_waits 1 (Simulation.runs_done fun _ _ => rfl))
  after _ _ _ := Simulation.acts_pure fun _ _ =>
    .pending (Simulation.runs_waits 1 (Simulation.runs_done fun _ _ => rfl))
  operation := Simulation.acts_pure fun _ _ => .ready rfl
  deliver _ _ e _ := fun _ _ _ _ hw =>
    ⟨(), { hw with own := congrArg (List.cons (e.atSetter value)) hw.own }, trivial, .ok rfl⟩

def start : World (List TraceEvent) := { mode := .holding .log, own := [] }

/-- The shutter, and the same as a function of a receiver and arguments. -/
def raise (form : Form) : Polled (World (List TraceEvent)) (Except ContractError Value) ×
    World (List TraceEvent) :=
  ((Wrapped.mk form (.checked site spec (.plain ()))).call host .undefined [value]).polls [id] start

/-- Both forms are refused after one poll, each in its own words, with one trace kept. -/
theorem refused_alike :
    ((raise .method).2.InForms value Reworded (raise .setter).2) ∧
    (raise .method).1.result? = some (.ok (.error (.violation
      ⟨.before, "Shutter", some "raised", "Before failed: Shutter.raised(true)"⟩))) ∧
    (raise .setter).1.result? = some (.ok (.error (.violation
      ⟨.setterBefore, "Shutter", some "raised", "Before failed: Shutter.set raised(true)"⟩))) ∧
    (raise .method).2.own.length = 1 := by
  obtain ⟨⟨_, hstate⟩, _⟩ := (forms_agree host site spec).1 .undefined value (.plain ()) () Reworded
    [id] start rfl ignoresForm (by simp) rfl
  exact ⟨hstate, rfl, rfl, rfl⟩

end Shutter
end Contracts
