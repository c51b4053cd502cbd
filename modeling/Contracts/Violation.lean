import Contracts.Json.Record
import Contracts.Json.Writer

/-!
# Contracts.Violation

Failed checks and the errors of a call.

* `FailureKind`   — which check failed, setters told apart from methods.
* `ViolationKind` — the role of the failed check.
* `Violation`     — a failed check with its message, `headline: subject`.
* `Violation.write`, `Violation.parse?` — violations as JSON text, by their declaration.
* `ContractError` — a raised violation, a contract that cannot be used, or the operation's own
  error.
-/

namespace Contracts

/-- The role that a failed check has in a contract. -/
inductive ViolationKind where
  | precondition
  | postcondition
  | invariantBefore
  | invariantAfter
  | invariantAtConstruction
  deriving DecidableEq, Repr

namespace ViolationKind

def name : ViolationKind → String
  | .precondition => "Precondition"
  | .postcondition => "Postcondition"
  | .invariantBefore => "InvariantBefore"
  | .invariantAfter => "InvariantAfter"
  | .invariantAtConstruction => "InvariantAtConstruction"

def all : List ViolationKind :=
  [.precondition, .postcondition, .invariantBefore, .invariantAfter, .invariantAtConstruction]

def ofName? (s : String) : Option ViolationKind := all.find? (·.name == s)

end ViolationKind

inductive FailureKind where
  | before
  | after
  | constantBefore
  | constantAfter
  | setterBefore
  | setterAfter
  | constantConstructor
  deriving DecidableEq, Repr

namespace FailureKind

def name : FailureKind → String
  | .before => "before"
  | .after => "after"
  | .constantBefore => "constant-before"
  | .constantAfter => "constant-after"
  | .setterBefore => "setter-before"
  | .setterAfter => "setter-after"
  | .constantConstructor => "constant-constructor"

def all : List FailureKind :=
  [.before, .after, .constantBefore, .constantAfter, .setterBefore, .setterAfter,
    .constantConstructor]

def ofName? (s : String) : Option FailureKind := all.find? (·.name == s)

theorem ofName?_name (k : FailureKind) : ofName? k.name = some k := by cases k <;> decide

def violationKind : FailureKind → ViolationKind
  | .before | .setterBefore => .precondition
  | .after | .setterAfter => .postcondition
  | .constantBefore => .invariantBefore
  | .constantAfter => .invariantAfter
  | .constantConstructor => .invariantAtConstruction

/-- The text in front of every message about such a failure. -/
def headline : FailureKind → String
  | .before | .setterBefore => "Before failed"
  | .after | .setterAfter => "After failed"
  | .constantBefore => "Constant failed before"
  | .constantAfter => "Constant failed after"
  | .constantConstructor => "Constant failed after constructor"

end FailureKind

structure Violation where
  failure : FailureKind
  className : String
  /-- The member that was called; none for a check at construction. -/
  member : Option String
  message : String
  deriving DecidableEq, Repr

namespace Violation

def about (failure : FailureKind) (className : String) (member : Option String)
    (subject : String) : Violation :=
  ⟨failure, className, member, failure.headline ++ ": " ++ subject⟩

def kind (v : Violation) : ViolationKind := v.failure.violationKind

/-! ### As text -/

/-- The fields as they are declared. -/
def fields : List FieldDeclaration :=
  [⟨"failure", .variant (FailureKind.all.map FailureKind.name)⟩, ⟨"class", .text⟩,
    ⟨"member", .optionalText⟩, ⟨"message", .text⟩]

/-- What the fields hold. -/
def values (v : Violation) : List (Option String) :=
  [some v.failure.name, some v.className, v.member, some v.message]

def ofValues? : List (Option String) → Option Violation
  | [some failure, some className, member, some message] =>
    (FailureKind.ofName? failure).map fun k => ⟨k, className, member, message⟩
  | _ => none

def toJson [RecordCodec] (v : Violation) : Json := RecordCodec.write fields v.values

def write [JsonWriter] [RecordCodec] (v : Violation) : String := v.toJson.compact

def parse? [JsonReader] [RecordCodec] (text : String) : Option Violation := do
  let j ← JsonReader.tree? text
  let values ← RecordCodec.read? fields j
  ofValues? values

end Violation

/-- What a call gives when it gives no value. -/
inductive ContractError where
  /-- A check failed and its violation was raised. -/
  | violation (v : Violation)
  /-- The contract cannot be used as declared. -/
  | configuration (reason : String)
  /-- The operation failed on its own. -/
  | operation (message : String)
  deriving DecidableEq, Repr

def ContractError.message : ContractError → String
  | .violation v => v.message
  | .configuration reason => "configuration error: " ++ reason
  | .operation message => message

end Contracts
