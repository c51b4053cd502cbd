import Contracts.Class.Basic
import Contracts.Text.Quoted

/-!
# Contracts.Inspect

Descriptions of contracts and classes in one line, for people.

* `record`         — named parts in braces.
* `Spec.inspect`, `Class.inspect`, `Check.inspect` — the descriptions.
* `Heap.inspectLabel` — the label under which a record is shown.
-/

namespace Contracts

namespace Inspect

def flag (b : Bool) : String := if b then "true" else "false"

def option : Option String → String
  | none => "None"
  | some s => "Some(" ++ s ++ ")"

def list (items : List String) : String := "[" ++ String.intercalate ", " items ++ "]"

def braces (items : List String) : String :=
  "\x7b" ++ String.intercalate ", " items ++ "\x7d"

def record (name : String) (parts : List (String × String)) : String :=
  name ++ " \x7b " ++ String.intercalate ", " (parts.map fun (k, v) => k ++ ": " ++ v) ++ " \x7d"

def mode : FailureMode → String
  | .log => "Log"
  | .throw => "Throw"

end Inspect

variable {κ ε : Type}

def TraceSetting.inspect : TraceSetting κ → String
  | .disabled => "Disabled"
  | .default => "Default"
  | .sink _ => "Sink(..)"

/-- Which checks a contract has, where it traces to, and its mode. -/
def Spec.inspect (s : Spec κ) : String :=
  Inspect.record "ContractSpec"
    [("precondition", Inspect.flag s.precondition.isSome),
      ("postcondition", Inspect.flag s.postcondition.isSome),
      ("invariant", Inspect.flag s.invariant.isSome),
      ("trace", s.trace.inspect),
      ("failure_mode", Inspect.option (s.mode.map Inspect.mode))]

def Symbol.inspect (s : Symbol) : String :=
  Inspect.record "Symbol"
    [("id", "SymbolId(" ++ Nat.repr s.id.toNat ++ ")"),
      ("description", Inspect.option (s.description.map Text.quoted))]

def MemberKey.inspect : MemberKey → String
  | .name s => "Name(" ++ Text.quoted s ++ ")"
  | .symbol s => "Symbol(" ++ s.inspect ++ ")"

def Accessor.inspect (a : Accessor κ) : String :=
  Inspect.record "Accessor"
    [("get", Inspect.flag a.getter.isSome), ("set", Inspect.flag a.setter.isSome)]

/-- The name of a class, its parent, and the keys of the members that it declares itself. -/
def Class.inspect (c : Class κ) : String :=
  Inspect.record "Class"
    [("name", Text.quoted c.name),
      ("parent", Inspect.option (c.parent?.map fun p => Text.quoted p.name)),
      ("methods", Inspect.list (c.own.methods.keys.map MemberKey.inspect)),
      ("accessors", Inspect.braces (c.own.accessors.entries.map fun (k, a) =>
        k.inspect ++ ": " ++ a.inspect)),
      ("contracted", Inspect.flag c.isContracted)]

/-- A predicate's answer, if it is there. -/
def inspectCheck {σ : Type} : Eventual σ Bool → String
  | .ready b => "Ready(" ++ Inspect.flag b ++ ")"
  | .pending _ => "Pending(..)"

/-- The label of a record: its class name, where it has one that can be read. -/
def Heap.inspectLabel (h : Heap) (r : Ref) : String :=
  "Object(" ++ (h.className? r).getD "Object"

end Contracts
