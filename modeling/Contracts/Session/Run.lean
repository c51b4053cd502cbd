import Contracts.Inspect
import Contracts.Script.Meaning
import Contracts.Session.Step

/-!
# Contracts.Session.Run

Sessions: requests against one shared state.

* `Session`      — the state, and the suspended calls by handle.
* `Reply`        — what a step comes to on the state: an answer, or a call that was started.
* `perform`      — the steps that do not touch suspended calls.
* `Session.step` — one step, with the journal entries that it caused.
* `Session.runAll` — the steps of a session, in order; one that fails does not stop the others.
-/

namespace Contracts

open Contracts.Script

abbrev Outcome : Type := Except ContractError Value

/-- The state of a session. A suspended call holds nothing that other steps could change. -/
structure Session where
  state : State
  suspended : Table String (Future State Outcome) := {}

namespace Session

/-- A session that starts with the failure mode `log`. -/
def start : Session := { state := { mode := .holding .log, own := {} } }

/-- What a step comes to on the state. -/
inductive Reply where
  | answer (a : Answer)
  /-- A call was started; if it is pending it is kept under the handle. -/
  | started (completion : Completion Scope) (handle : Option String)

def heap : Effect Heap := World.readHeap

def logNotices : List Notice → Effect Unit
  | [] => pure ()
  | n :: rest => do
    World.log (.notice n)
    logNotices rest

/-! ## Summaries -/

def snapshot (v : Value) : Effect Tree := return (← heap).unfold v

def snapshotOutcome : Outcome → Effect (Except ContractError Tree)
  | .ok v => return .ok (← snapshot v)
  | .error e => pure (.error e)

def SpecSummary.of (s : Spec Callback) : SpecSummary where
  precondition := s.precondition.isSome
  postcondition := s.postcondition.isSome
  invariant := s.invariant.isSome
  isEmpty := s.isEmpty
  isTraced := s.trace.isEnabled
  mode := s.mode
  text := s.inspect

def accessorHalves (a : Accessor Callback) : Bool × Bool := (a.getter.isSome, a.setter.isSome)

def ClassSummary.of (c : Class Callback) : ClassSummary where
  name := c.name
  parent := c.parent?.map (·.name)
  methods := c.own.methods.keys.map (·.text)
  accessors := c.own.accessors.entries.map fun (k, a) => (k.text, accessorHalves a)

def EvaluationSummary.of (h : Heap) (e : Evaluation) : EvaluationSummary where
  slots := [e.slot .invariantBefore, e.slot .precondition, e.slot .postcondition,
    e.slot .invariantAfter]
  result := e.result.map h.unfold
  invoked := e.invoked
  suspendedAt := e.suspendedAt

/-! ## Steps on the state -/

/-- Resolves a declaration in a script, with its notices in the journal. -/
def resolve (d : Declared) : Effect (Spec Callback) := do
  let (declaration, notices) := d.declaration
  logNotices notices
  let (spec, notices) := declaration.resolve
  logNotices notices
  pure spec

def evalMembers : List (Literal × Member Callback) → Effect (List (MemberKey × Member Callback))
  | [] => pure []
  | (key, m) :: rest => do
    let key ← key.key
    return (key, m) :: (← evalMembers rest)

def bindFunction (name : String) (w : Wrapped Callback) : Effect Reply := do
  bindNames fun s => { s with functions := s.functions.insert name w }
  pure (.answer .done)

def bindClass (id : String) (c : Class Callback) : Effect Reply := do
  bindNames fun s => { s with classes := s.classes.insert id c }
  pure (.answer (.ofClass (.of c)))

/-- Applies a change to an evaluation. The operation's stage has no slot. -/
def Recording.apply (e : Evaluation) : Recording → Effect Evaluation
  | .check (.check g) held => pure (e.record g held)
  | .check .invocation _ => pure e
  | .result l => return e.recordResult (← l.eval)
  | .suspension stage => pure (e.suspend stage)

/-- The states of an evaluation after each change. -/
def recordAll (e : Evaluation) : List Recording → Effect (List EvaluationSummary)
  | [] => pure []
  | r :: rest => do
    let e ← r.apply e
    let summary := EvaluationSummary.of (← heap) e
    return summary :: (← recordAll e rest)

/-- A predicate's answer as an outcome of an operation. -/
def answerOf (held : Bool) : Outcome :=
  if held then .ok (.string "yes") else .error (.operation "no")

/-- An answer that is there, or that takes a number of polls. -/
def eventualOf (held : Bool) : Option Nat → Check Scope
  | none => .ready held
  | some polls => .pending (.waits polls (.done held))

def perform (host : Host Callback Scope) : Step → Effect Reply
  | .assign name value => do
    bindVariable name (← value.eval)
    pure (.answer .done)
  | .eval body receiver args => do
    let this ← receiver.eval
    let args ← Literal.evalItems args
    let r ← runBody host { this, args } body
    return .answer (.outcome (← snapshotOutcome r))
  | .render values => do
    let vs ← Literal.evalItems values
    let h ← heap
    pure (.answer (.rendering (vs.map h.render) (h.renderArgs vs)
      (vs.map fun v => (h.toJson v).compact) (vs.map Value.typeName) (vs.map Value.isTruthy)))
  | .contract name d => do
    let spec ← resolve d
    bindNames fun s => { s with contracts := s.contracts.insert name spec }
    pure (.answer (.contract (.of spec)))
  | .narrow contract => do
    let spec ← lookupContract contract
    let narrow := spec.invariantOnly
    pure (.answer (.narrowed (.of narrow) (spec.invariant.map fun _ => narrow.invariant.isSome)))
  | .wrap name contract form site operation => do
    let spec ← lookupContract contract
    bindFunction name ⟨form, .checked site spec (.plain operation)⟩
  | .wrapAgain name contract function site => do
    let spec ← lookupContract contract
    let w ← lookupFunction function
    bindFunction name ⟨w.form, .checked site spec w.operation⟩
  | .call function receiver args handle => do
    let w ← lookupFunction function
    let this ← receiver.eval
    let args ← Literal.evalItems args
    return .started (← w.call host this args) handle
  | .defineClass id name parent init members => do
    let parent ← match parent with
      | some p => some <$> lookupClass p
      | none => pure none
    let members ← evalMembers members
    bindClass id (.extend (.build name init members) parent)
  | .contractClass id base d => do
    let base ← lookupClass base
    let (declaration, notices) := d.declaration
    logNotices notices
    let (derived, notices) := Contracts.contractClass base declaration
    logNotices notices
    match derived with
    | .ok c => bindClass id c
    | .error e => pure (.answer (.outcome (.error e)))
  | .construct id className args => do
    let c ← lookupClass className
    let args ← Literal.evalItems args
    match ← c.construct host args with
    | .ok i =>
      bindNames fun s => { s with instances := s.instances.insert id i }
      bindVariable id i.this
      return .answer (.constructed (← snapshot i.this) i.ofClass.name)
    | .error e => pure (.answer (.outcome (.error e)))
  | .callMember on key args handle => do
    let i ← lookupInstance on
    let key ← key.key
    let args ← Literal.evalItems args
    return .started (← i.call host key args) handle
  | .setMember on key value handle => do
    let v ← value.eval
    let i ← lookupInstance on
    let key ← key.key
    return .started (← i.set host key v) handle
  | .getMember on key => do
    let i ← lookupInstance on
    let key ← key.key
    let v ← i.get host key
    return .answer (.outcome (.ok (← snapshot v)))
  | .callMethod className key receiver args handle => do
    let c ← lookupClass className
    let key ← key.key
    match c.findMethod? key with
    | some op => do
      let this ← receiver.eval
      let args ← Literal.evalItems args
      return .started (← op.call host this (.args args)) handle
    | none => pure (.answer .noMethod)
  | .callSetter className key receiver value handle => do
    let c ← lookupClass className
    let key ← key.key
    match (c.findAccessor? key).bind (·.setter) with
    | some op => do
      let this ← receiver.eval
      let v ← value.eval
      return .started (← op.call host this (.value v)) handle
    | none => pure (.answer .noSetter)
  | .lookup className key => do
    let c ← lookupClass className
    let key ← key.key
    pure (.answer (.found key.text key.isConstructor (c.findMethod? key).isSome
      ((c.findAccessor? key).map accessorHalves)))
  | .inspectClass className => return .answer (.text (← lookupClass className).inspect)
  | .inspectValue value => do
    match ← value.eval with
    | .object r => return .answer (.text ((← heap).inspectLabel r))
    | _ => throw (Script.malformed "object")
  | .mode => return .answer (.mode (← World.failureMode))
  | .setMode m => return .answer (.previousMode (← World.setFailureMode m))
  | .label site receiver => do
    let this ← receiver.eval
    return .answer (.label site.className site.member (site.label (← heap) this))
  | .report failure className member subject override => do
    let v := Violation.about failure className member subject
    let effective ← effectiveMode override
    return .answer (.report effective v.toJson.compact (← Contracts.report override v))
  | .evaluation recordings => return .answer (.evaluations (← recordAll {} recordings))
  | .eventual held polls => do
    let check := eventualOf held polls
    let mapped := check.map answerOf
    let outcome ← mapped.finish
    return .answer (.eventual (inspectCheck check) check.now? mapped.isPending
      (← snapshotOutcome outcome))
  | .poll _ | .finish _ | .discard _ => pure (.answer .noHandle)

/-! ## Suspended calls -/

/-- Runs an effect on the state of a session. -/
def runEffect {α : Type} (s : Session) (a : Effect α) (k : α → Session → Answer × Session) :
    Answer × Session :=
  match a.exec s.state with
  | (.ok v, w) => k v { s with state := w }
  | (.error cause, w) => (.aborted cause, { s with state := w })

def ended (s : Session) (r : Outcome) (wasPending : Bool) : Answer × Session :=
  s.runEffect (snapshotOutcome r) fun r s => (.callOutcome r wasPending, s)

/-- Keeps a pending call under its handle, or waits for its end. -/
def conclude (s : Session) (completion : Completion Scope) (handle : Option String) :
    Answer × Session :=
  match completion, handle with
  | .pending t, some h => (.pending, { s with suspended := s.suspended.insert h t })
  | _, _ => s.runEffect completion.finish fun r s => s.ended r completion.isPending

/-- Polls a suspended call once. A call that ends or gives up is gone. -/
def pollOnce (s : Session) (handle : String) : Answer × Session :=
  match s.suspended.get? handle with
  | none => (.noHandle, s)
  | some t =>
    let rest := s.suspended.erase handle
    match t.poll s.state with
    | (.waiting t, w) => (.pending, { state := w, suspended := s.suspended.insert handle t })
    | (.finished r, w) => ended { state := w, suspended := rest } r false
    | (.aborted cause, w) => (.aborted cause, { state := w, suspended := rest })

def finishCall (s : Session) (handle : String) : Answer × Session :=
  match s.suspended.get? handle with
  | none => (.noHandle, s)
  | some t =>
    let s := { s with suspended := s.suspended.erase handle }
    s.runEffect (Eventual.pending t).finish fun r s =>
      s.runEffect (snapshotOutcome r) fun r s => (.outcome r, s)

/-- Forgets a suspended call; nothing of it runs any more. -/
def forget (s : Session) (handle : String) : Answer × Session :=
  match s.suspended.get? handle with
  | none => (.noHandle, s)
  | some _ => (.discarded, { s with suspended := s.suspended.erase handle })

def dispatch (host : Host Callback Scope) (s : Session) : Step → Answer × Session
  | .poll handle => s.pollOnce handle
  | .finish handle => s.finishCall handle
  | .discard handle => s.forget handle
  | step =>
    s.runEffect (perform host step) fun reply s =>
      match reply with
      | .answer a => (a, s)
      | .started completion handle => s.conclude completion handle

/-- One step, and the journal entries that it caused. -/
def step (host : Host Callback Scope) (s : Session) (request : Step) :
    (Answer × List Event) × Session :=
  let (a, s) := dispatch host { s with state := { s.state with entries := [] } } request
  ((a, s.state.journal), s)

def runAll (host : Host Callback Scope) : Session → List Step → List (Answer × List Event)
  | _, [] => []
  | s, request :: rest =>
    let (answer, s) := s.step host request
    answer :: runAll host s rest

/-- How deep the calls of callbacks may be nested. -/
def callDepth : Nat := 1000000

/-- The answers of a session that starts from an empty environment. -/
def answers (steps : List Step) : List (Answer × List Event) :=
  start.runAll (hostOf callDepth) steps

end Session
end Contracts
