import Contracts.World

/-!
# Contracts.Channel

Reporting of failed checks.

* `effectiveMode` — a contract's own failure mode, else the process-wide one at this moment.
* `report`        — raises a violation, or writes it down and lets the call go on.
-/

namespace Contracts

variable {ε : Type}

/-- The mode that decides; the process-wide one is only asked for when there is no override. -/
def effectiveMode : Option FailureMode → Action (World ε) FailureMode
  | some m => pure m
  | none => World.failureMode

def report (override : Option FailureMode) (v : Violation) :
    Action (World ε) (Except ContractError Unit) := do
  match ← effectiveMode override with
  | .throw => pure (.error (.violation v))
  | .log =>
    World.log (.violated v.failure v.className v.message)
    pure (.ok ())

end Contracts
