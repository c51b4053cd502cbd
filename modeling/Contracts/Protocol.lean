import Contracts.Channel
import Contracts.Trace

/-!
# Contracts.Protocol

The checks around one call.

* `Frame`         — one call: its site, contract, receiver, input and class label.
* `Frame.examine` — one check: start its predicate, wait for the answer, record, trace, report.
* `Frame.enter`, `Frame.leave` — the checks before and after the operation.
* `Frame.stages`  — the whole call, with its evaluation.
* `invoke`        — starts a call and polls it once.

The order is fixed: invariant, precondition, operation, postcondition, invariant. A false check
before the operation ends the call without running it; a false check after it is reported and the
result stays. An error, raised or the operation's own, ends the call.
-/

namespace Contracts

/-- Everything that one call needs. -/
structure Frame (κ : Type) where
  site : CallSite
  spec : Spec κ
  receiver : Value
  input : Input
  /-- The class label, settled when the call starts. -/
  className : String

namespace Frame

variable {κ ε α : Type}

/-- Starts a stage and waits for its answer; a stage whose answer is not there suspends the
evaluation. -/
def settle (stage : Stage) (e : Evaluation) (start : Action (World ε) (Eventual (World ε) α)) :
    Future (World ε) (α × Evaluation) := do
  match ← Future.lift start with
  | .ready a => pure (a, e)
  | .pending t => do
    let a ← t
    pure (a, e.suspend stage)

/-- Starts the predicate of a check. Conditions see the result, if there is one, in front of the
inputs; invariants see the receiver. -/
def test (host : Host κ ε) (f : Frame κ) (result : Option Value) (code : κ) :
    Guard → Action (World ε) (Check ε)
  | .invariantBefore | .invariantAfter => host.holds code f.receiver
  | .precondition | .postcondition => host.accepts code (result.toList ++ f.input.values)

/-- What the message of a failed check is about: the call, and the result after it. -/
def subject (f : Frame κ) (h : Heap) (result : Option Value) : String :=
  f.input.subject h f.className f.site.member ++
    (match result with | some v => " -> " ++ h.render v | none => "")

def traceEvent (f : Frame κ) (result : Option Value) (g : Guard) (held : Bool) : TraceEvent where
  kind := .around g
  className := f.className
  member := f.site.member
  input := f.input
  result
  passed := held
  failure := if held then none else some (f.input.failure g)

/-- Traces a check, and reports it if it failed. -/
def observe (host : Host κ ε) (f : Frame κ) (result : Option Value) (g : Guard) (held : Bool) :
    Action (World ε) (Except ContractError Unit) := do
  f.spec.trace.emit host (f.traceEvent result g held)
  if held then pure (.ok ())
  else
    let h ← World.readHeap
    report f.spec.mode
      (.about (f.input.failure g) f.className (some f.site.member) (f.subject h result))

/-- Makes one check and answers whether it held, or the violation it raised. -/
def examine (host : Host κ ε) (f : Frame κ) (result : Option Value) (g : Guard) (code : κ)
    (e : Evaluation) : Future (World ε) (Except ContractError Bool × Evaluation) := do
  let (held, e) ← settle (.check g) e (f.test host result code g)
  let verdict ← Future.lift (f.observe host result g held)
  pure (verdict.map fun () => held, e.record g held)

/-- The checks before the operation: true when all of them hold. -/
def enter (host : Host κ ε) (f : Frame κ) :
    List (Guard × κ) → Evaluation → Future (World ε) (Except ContractError Bool × Evaluation)
  | [], e => pure (.ok true, e)
  | (g, code) :: rest, e => do
    match ← f.examine host none g code e with
    | (.ok true, e) => enter host f rest e
    | stopped => pure stopped

/-- The checks after the operation. -/
def leave (host : Host κ ε) (f : Frame κ) (result : Value) :
    List (Guard × κ) → Evaluation → Future (World ε) (Except ContractError Unit × Evaluation)
  | [], e => pure (.ok (), e)
  | (g, code) :: rest, e => do
    match ← f.examine host (some result) g code e with
    | (.ok _, e) => leave host f result rest e
    | (.error err, e) => pure (.error err, e)

/-- The stages of a call, in order. -/
def stages (host : Host κ ε) (f : Frame κ) (operation : Action (World ε) (Completion ε)) :
    Future (World ε) (Except ContractError Value × Evaluation) := do
  match ← f.enter host f.spec.entry {} with
  | (.error err, e) => pure (.error err, e)
  | (.ok false, e) => pure (.ok .undefined, e)
  | (.ok true, e) =>
    match ← settle .invocation e operation with
    | (.error err, e) => pure (.error err, e)
    | (.ok result, e) =>
      match ← f.leave host result f.spec.exit (e.recordResult result) with
      | (.error err, e) => pure (.error err, e)
      | (.ok (), e) => pure (.ok result, e)

/-- The stages, and then the evaluation in the journal. -/
def run (host : Host κ ε) (f : Frame κ) (operation : Action (World ε) (Completion ε)) :
    Future (World ε) (Except ContractError Value × Evaluation) := do
  let (outcome, e) ← f.stages host operation
  Future.lift (World.log (.evaluated f.className f.site.member outcome.isOk e))
  pure (outcome, e)

end Frame

/-- Starts a call. It is ready when no stage had to wait; a call that waited is pending, even if
it has ended meanwhile. -/
def invoke {κ ε : Type} (host : Host κ ε) (f : Frame κ)
    (operation : Action (World ε) (Completion ε)) : Action (World ε) (Completion ε) :=
  .ofFun fun w =>
    match (f.run host operation).poll w with
    | (.finished (outcome, e), w') =>
      if e.isSuspended then (.ok (.pending (.done outcome)), w') else (.ok (.ready outcome), w')
    | (.aborted cause, w') => (.error cause, w')
    | (.waiting rest, w') => (.ok (.pending (rest.bind fun r => .done r.1)), w')

end Contracts
