import Contracts.Class.Contract
import Contracts.Class.Instance
import Contracts.Timing

/-!
# Contracts.Demo.Routine

Callbacks that are Lean functions.

* `Routine` — a function on the receiver and the inputs, with a timing.
* `host`    — what a routine does in each use of a callback.
* `Play`    — effects of a demonstration, which writes lines and may end in an error.
-/

namespace Contracts.Demo

structure Output where
  lines : List String := []

abbrev State : Type := World Output

abbrev Effect : Type → Type := Action State

/-- A function on the receiver and the inputs. -/
structure Routine where
  timing : Timing := .sync
  body : Value → List Value → Effect (Except ContractError Value)

namespace Routine

/-- A routine that only looks at its inputs. -/
def ofCondition (p : List Value → Bool) (timing : Timing := .sync) : Routine :=
  ⟨timing, fun _ inputs => pure (.ok (.bool (p inputs)))⟩

/-- A routine that only looks at the records in reach of the receiver. -/
def ofInvariant (p : Heap → Value → Bool) (timing : Timing := .sync) : Routine :=
  ⟨timing, fun this _ => return .ok (.bool (p (← World.readHeap) this))⟩

end Routine

def verdict : Except ContractError Value → Bool
  | .ok v => v.isTruthy
  | .error _ => false

def host : Host Routine Output where
  accepts r inputs := r.timing.start (verdict <$> r.body .undefined inputs)
  holds r this := r.timing.start (verdict <$> r.body this [])
  operate r this input := r.timing.start (r.body this input.values)
  read r this := do
    match ← r.body this [] with
    | .ok v => pure v
    | .error _ => pure .undefined
  setUp r this args := do
    match ← r.body this args with
    | .ok _ => pure (.ok ())
    | .error e => pure (.error e)
  deliver r e := do
    let h ← World.readHeap
    let _ ← r.body .undefined [.string (e.text h)]

/-! ## Demonstrations -/

abbrev Play : Type → Type := ExceptT ContractError Effect

def writeLine (line : String) : Effect Unit :=
  modify fun w => { w with own := ⟨w.own.lines ++ [line]⟩ }

/-- The sink that writes every event as a line. -/
def lineSink : TraceSetting Routine :=
  .sink ⟨.sync, fun _ inputs => do
    match inputs with
    | .string text :: _ => writeLine text
    | _ => pure ()
    pure (.ok .undefined)⟩

/-- Makes a call, waits for its end, and writes what came of it. -/
def present (label : String) (start : Effect (Completion Output)) : Play Value :=
  ExceptT.mk do
    let completion ← start
    let outcome ← completion.finish
    let h ← World.readHeap
    match outcome with
    | .ok v =>
      writeLine (label ++ " -> " ++ h.render v ++ (if completion.isPending then " (async)" else ""))
    | .error e => writeLine (label ++ " !! " ++ e.message)
    pure outcome

/-- Does something more when a demonstration has come to an end, whichever it is. -/
def thenDo (p : Play Value) (more : Effect Unit) : Play Value :=
  ExceptT.mk do
    let outcome ← p.run
    more
    pure outcome

/-- A new record with a class label and fields. -/
def newObject (className : String) (fields : List (String × Value)) : Effect Value := do
  let r ← World.newRecord { className := some className, fields := Table.ofList fields }
  pure (.object r)

end Contracts.Demo
