import Contracts.Operation

/-!
# Contracts.Class.Basic

Classes as chains of member tables.

* `MemberKey`   — the name of a member: a string or a symbol.
* `Accessor`    — a getter and a setter, either of which may be missing.
* `ClassContract` — the invariant that a derived class checks, where it traces to, and its mode.
* `Layer`       — the members that one class declares, and what happens at construction.
* `Class`       — a layer and those of its ancestors, the nearest first.
* `Layer.build`, `Class.findMethod?`, `Class.findAccessor?` — declaration and look-up.
-/

namespace Contracts

inductive MemberKey where
  | name (s : String)
  | symbol (s : Symbol)

namespace MemberKey

/-- Symbols are compared by identity. -/
def same : MemberKey → MemberKey → Bool
  | .name a, .name b => a == b
  | .symbol a, .symbol b => a.id == b.id
  | _, _ => false

instance : BEq MemberKey := ⟨same⟩

def text : MemberKey → String
  | .name s => s
  | .symbol s => s.text

end MemberKey

def constructorName : String := "constructor"

/-- The string key of the slot for construction; a symbol is never that slot. -/
def MemberKey.isConstructor : MemberKey → Bool
  | .name s => s == constructorName
  | .symbol _ => false

structure Accessor (κ : Type) where
  getter : Option κ := none
  setter : Option (Operation κ) := none

structure ClassContract (κ : Type) where
  invariant : κ
  trace : TraceSetting κ
  mode : Option FailureMode

/-- The contract around each member of the class. -/
def ClassContract.spec {κ : Type} (c : ClassContract κ) : Spec κ :=
  { invariant := some c.invariant, trace := c.trace, mode := c.mode }

/-- What a layer does to a new object. -/
inductive Construction (κ : Type) where
  | initializer (code : Option κ)
  | contract (c : ClassContract κ)

/-- What one class declares itself. -/
structure Layer (κ : Type) where
  name : String
  construction : Construction κ := .initializer none
  methods : Table MemberKey (Operation κ) := {}
  accessors : Table MemberKey (Accessor κ) := {}

inductive Member (κ : Type) where
  | method (code : κ)
  | getter (code : κ)
  | setter (code : κ)

namespace Layer

variable {κ : Type}

/-- Declares a member. A later declaration of the same key takes the place of the earlier one;
getter and setter of a key share an entry. -/
def declare (l : Layer κ) : MemberKey × Member κ → Layer κ
  | (key, .method code) => { l with methods := l.methods.insert key (.plain code) }
  | (key, .getter code) =>
    let entry := (l.accessors.get? key).getD {}
    { l with accessors := l.accessors.insert key { entry with getter := some code } }
  | (key, .setter code) =>
    let entry := (l.accessors.get? key).getD {}
    { l with accessors := l.accessors.insert key { entry with setter := some (.plain code) } }

def build (name : String) (init : Option κ) (members : List (MemberKey × Member κ)) : Layer κ :=
  members.foldl declare { name, construction := .initializer init }

end Layer

/-- A layer with the layers of its ancestors, the nearest first. -/
structure Class (κ : Type) where
  own : Layer κ
  ancestors : List (Layer κ) := []

namespace Class

variable {κ : Type}

def name (c : Class κ) : String := c.own.name

def layers (c : Class κ) : List (Layer κ) := c.own :: c.ancestors

def parent? (c : Class κ) : Option (Layer κ) := c.ancestors.head?

def extend (own : Layer κ) (parent : Option (Class κ)) : Class κ :=
  ⟨own, match parent with | some p => p.layers | none => []⟩

/-- The method that the nearest class declares for the key. -/
def findMethod? (c : Class κ) (key : MemberKey) : Option (Operation κ) :=
  c.layers.findSome? fun l => l.methods.get? key

/-- The accessor that the nearest class declares for the key. -/
def findAccessor? (c : Class κ) (key : MemberKey) : Option (Accessor κ) :=
  c.layers.findSome? fun l => l.accessors.get? key

def isContracted (c : Class κ) : Bool :=
  match c.own.construction with
  | .contract _ => true
  | .initializer _ => false

end Class
end Contracts
