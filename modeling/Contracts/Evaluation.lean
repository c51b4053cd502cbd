import Contracts.Value

/-!
# Contracts.Evaluation

What one call has found out so far.

* `Guard`      — the four checks around an operation.
* `Stage`      — the steps of a call: a check, or the operation itself.
* `Evaluation` — the outcome of each check, the operation's result, and the first stage that had
  to wait.
-/

namespace Contracts

/-- The checks around an operation, in the order in which they are made. -/
inductive Guard where
  | invariantBefore
  | precondition
  | postcondition
  | invariantAfter
  deriving DecidableEq, Repr

inductive Stage where
  | check (g : Guard)
  | invocation
  deriving DecidableEq, Repr

namespace Stage

def all : List Stage :=
  [.check .invariantBefore, .check .precondition, .invocation, .check .postcondition,
    .check .invariantAfter]

def name : Stage → String
  | .check .invariantBefore => "InvariantBefore"
  | .check .precondition => "Precondition"
  | .invocation => "Invocation"
  | .check .postcondition => "Postcondition"
  | .check .invariantAfter => "InvariantAfter"

def ofName? (s : String) : Option Stage := all.find? (·.name == s)

end Stage

structure Evaluation where
  invariantBefore : Option Bool := none
  precondition : Option Bool := none
  /-- The operation's value, once it has given one. -/
  result : Option Value := none
  postcondition : Option Bool := none
  invariantAfter : Option Bool := none
  /-- The first stage whose answer was not there at once. -/
  suspendedAt : Option Stage := none

namespace Evaluation

/-- The outcome of a check that has been made. -/
def slot (e : Evaluation) : Guard → Option Bool
  | .invariantBefore => e.invariantBefore
  | .precondition => e.precondition
  | .postcondition => e.postcondition
  | .invariantAfter => e.invariantAfter

def record (e : Evaluation) (g : Guard) (held : Bool) : Evaluation :=
  match g with
  | .invariantBefore => { e with invariantBefore := some held }
  | .precondition => { e with precondition := some held }
  | .postcondition => { e with postcondition := some held }
  | .invariantAfter => { e with invariantAfter := some held }

def recordResult (e : Evaluation) (v : Value) : Evaluation := { e with result := some v }

/-- Notes that a stage had to wait; only the first one is kept. -/
def suspend (e : Evaluation) (stage : Stage) : Evaluation :=
  { e with suspendedAt := e.suspendedAt <|> some stage }

def isSuspended (e : Evaluation) : Bool := e.suspendedAt.isSome

def invoked (e : Evaluation) : Bool := e.result.isSome

@[simp] theorem slot_record_self (e : Evaluation) (g : Guard) (held : Bool) :
    (e.record g held).slot g = some held := by cases g <;> rfl

theorem slot_record_of_ne {g g' : Guard} (h : g' ≠ g) (e : Evaluation) (held : Bool) :
    (e.record g held).slot g' = e.slot g' := by
  cases g <;> cases g' <;> simp_all [record, slot]

end Evaluation
end Contracts
