import Contracts.Evaluation
import Contracts.Render
import Contracts.Violation

/-!
# Contracts.Input

What an operation is called with.

* `Input`          — the arguments of a method, or the value given to a setter.
* `Input.values`   — the list that predicates see.
* `Input.failure`  — the kind of failure of each check around such a call.
* `Input.subject`  — the call as messages write it.
* `CallSite`       — the names under which an operation is wrapped.
-/

namespace Contracts

inductive Input where
  | args (values : List Value)
  | value (v : Value)

namespace Input

variable [JsonWriter]

def values : Input → List Value
  | .args vs => vs
  | .value v => [v]

/-- Setters have failure kinds of their own before and after the operation. -/
def failure : Input → Guard → FailureKind
  | _, .invariantBefore => .constantBefore
  | .args _, .precondition => .before
  | .value _, .precondition => .setterBefore
  | .args _, .postcondition => .after
  | .value _, .postcondition => .setterAfter
  | _, .invariantAfter => .constantAfter

def render (h : Heap) : Input → String
  | .args vs => h.renderArgs vs
  | .value v => h.render v

/-- `Class.member(args)`, or `Class.set member(value)`. -/
def subject (h : Heap) (className member : String) : Input → String
  | .args vs => className ++ "." ++ member ++ "(" ++ h.renderArgs vs ++ ")"
  | .value v => className ++ ".set " ++ member ++ "(" ++ h.render v ++ ")"

end Input

def anonymousClass : String := "<anonymous>"

/-- The names of an operation in messages. A site without a class name takes the receiver's. -/
structure CallSite where
  className : Option String
  member : String
  deriving DecidableEq, Repr

/-- The site's class name, else that of a receiver that can be read, else a placeholder. -/
def CallSite.label (site : CallSite) (h : Heap) (receiver : Value) : String :=
  match site.className with
  | some c => c
  | none =>
    match receiver with
    | .object r => (h.className? r).getD anonymousClass
    | _ => anonymousClass

end Contracts
