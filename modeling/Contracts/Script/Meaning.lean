import Contracts.Script.Eval

/-!
# Contracts.Script.Meaning

Scripts as callbacks of contracts.

* `meaning`  — what a script does in each use of a callback, given the host for the calls that it
  makes itself.
* `hostOf`   — the host for calls nested up to a depth; below it every callback gives up.

A predicate holds when its body gives a value that counts as true; an error in it counts as
false. An error in a getter reads as `undefined`, and in a sink it is ignored. The body of a sink
has the text of the event for its only argument.
-/

namespace Contracts.Script

/-- The verdict of a predicate's body. -/
def verdict : Except ContractError Value → Bool
  | .ok v => v.isTruthy
  | .error _ => false

def Callback.test (inner : Unit → Host Callback Scope) (c : Callback) (env : Env) :
    Effect (Check Scope) :=
  c.timing.start do return verdict (← runBody (inner ()) env c.body)

/-- The meaning of scripts, given that of the calls they make, which is only looked at when a
body runs. -/
def meaning (inner : Unit → Host Callback Scope) : Host Callback Scope where
  accepts c args := c.test inner { args }
  holds c this := c.test inner { this }
  operate c this input := c.timing.start do
    runBody (inner ()) { this, args := input.values } c.body
  read c this := do
    match ← runBody (inner ()) { this } c.body with
    | .ok v => pure v
    | .error _ => pure .undefined
  setUp c this args := do
    match ← runBody (inner ()) { this, args } c.body with
    | .ok _ => pure (.ok ())
    | .error e => pure (.error e)
  deliver c e := do
    let h ← World.readHeap
    let _ ← runBody (inner ()) { args := [.string (e.text h)] } c.body

/-- The host whose callbacks all give up. -/
def exhausted : Host Callback Scope where
  accepts _ _ := throw .panic
  holds _ _ := throw .panic
  operate _ _ _ := throw .panic
  read _ _ := throw .panic
  setUp _ _ _ := throw .panic
  deliver _ _ := throw .panic

/-- The host for calls nested at most `depth` deep. -/
def hostOf : Nat → Host Callback Scope
  | 0 => exhausted
  | depth + 1 => meaning fun () => hostOf depth

end Contracts.Script
