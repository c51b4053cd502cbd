import Contracts.Input
import Contracts.World

/-!
# Contracts.TraceEvent

What a trace says about one check.

* `TraceEvent`        — a check with its input and outcome, all of them values.
* `TraceEvent.toJson` — the event as a JSON object.
* `TraceEvent.text`   — the compact text of that object.
-/

namespace Contracts

structure TraceEvent where
  kind : CheckKind
  className : String
  /-- The name of the member, `constructor` for a check at construction. -/
  member : String
  input : Input
  /-- The operation's result, for the checks after it. -/
  result : Option Value
  passed : Bool
  /-- What the failure is called, when the check failed. -/
  failure : Option FailureKind

namespace TraceEvent

variable [JsonWriter]

/-- The input under the name that says what it is. -/
def inputMember (h : Heap) : Input → String × Json
  | .args vs => ("args", .array (vs.map h.toJson))
  | .value v => ("value", h.toJson v)

/-- The event as an object; the result and the failure only where there is one. -/
def toJson (h : Heap) (e : TraceEvent) : Json :=
  .object <|
    [("kind", .string e.kind.name), ("class", .string e.className), ("name", .string e.member),
      inputMember h e.input] ++
    (e.result.map fun v => ("result", h.toJson v)).toList ++
    [("passed", .bool e.passed)] ++
    (e.failure.map fun f => ("failure", .string f.name)).toList

/-- The event as text, while the records are as in `h`. -/
def text (h : Heap) (e : TraceEvent) : String := (e.toJson h).compact

end TraceEvent

end Contracts
