import Contracts.Class.Contract
import Contracts.Class.Instance
import Contracts.Script.Syntax

/-!
# Contracts.Script.Scope

The names that scripts share.

* `Scope`   — variables, wrapped functions, contracts, classes and instances by name.
* `Body`    — effects of a body: it may raise an error, or give up.
* `lookup…` — the meaning of a name, or an abort when it is not bound.

A script that names what is not bound, or holds what stands for no value, ends its run.
-/

namespace Contracts.Script

/-- The kinds of names that a script can use. -/
inductive NameKind where
  | variable
  | function
  | contract
  | ofClass
  | ofInstance
  deriving DecidableEq, Repr

def NameKind.text : NameKind → String
  | .variable => "variable"
  | .function => "function"
  | .contract => "contract"
  | .ofClass => "class"
  | .ofInstance => "instance"

/-- Nothing is bound to the name. -/
def missing (kind : NameKind) (name : String) : Abort :=
  .stopped "Missing" (kind.text ++ " " ++ name)

/-- A script holds something that stands for no value. -/
def malformed (what : String) : Abort := .stopped "BadInput" what

structure Scope where
  values : Table String Value := {}
  functions : Table String (Wrapped Callback) := {}
  contracts : Table String (Spec Callback) := {}
  classes : Table String (Class Callback) := {}
  instances : Table String (Instance Callback) := {}

abbrev State : Type := World Scope

abbrev Effect : Type → Type := Action State

/-- Effects of a body, which may raise an error. -/
abbrev Body : Type → Type := ExceptT ContractError Effect

def raise {α : Type} (e : ContractError) : Body α := ExceptT.mk (pure (.error e))

/-- What a name stands for in one of the tables. -/
def lookup {α : Type} (kind : NameKind) (table : Scope → Table String α) (name : String) :
    Effect α := do
  match (table (← get).own).get? name with
  | some a => pure a
  | none => throw (missing kind name)

def lookupVariable : String → Effect Value := lookup .variable Scope.values
def lookupFunction : String → Effect (Wrapped Callback) := lookup .function Scope.functions
def lookupContract : String → Effect (Spec Callback) := lookup .contract Scope.contracts
def lookupClass : String → Effect (Class Callback) := lookup .ofClass Scope.classes
def lookupInstance : String → Effect (Instance Callback) := lookup .ofInstance Scope.instances

def bindNames (f : Scope → Scope) : Effect Unit := modify fun w => { w with own := f w.own }

def bindVariable (name : String) (v : Value) : Effect Unit :=
  bindNames fun s => { s with values := s.values.insert name v }

end Contracts.Script
