import Contracts.Class.Basic

/-!
# Contracts.Class.Instance

Objects of a class.

* `Class.construct` — a new record, set up by every layer from the root down.
* `Instance`        — an object together with the class it dispatches through.
* `call`, `get`, `set` — the use of members.
-/

namespace Contracts

structure Instance (κ : Type) where
  ofClass : Class κ
  this : Value

variable {κ ε : Type}

namespace ClassContract

def traceEvent (className : String) (args : List Value) (held : Bool) : TraceEvent where
  kind := .construction
  className
  member := constructorName
  input := .args args
  result := none
  passed := held
  failure := if held then none else some .constantConstructor

/-- Checks the invariant of a class on a new object. The answer has to be there at once. -/
def check (host : Host κ ε) (c : ClassContract κ) (className : String) (this : Value)
    (args : List Value) : Action (World ε) (Except ContractError Unit) := do
  match ← host.holds c.invariant this with
  | .pending _ =>
    pure (.error (.configuration
      ("invariant of " ++ className ++ " must resolve synchronously at construction")))
  | .ready held =>
    c.trace.emit host (traceEvent className args held)
    if held then pure (.ok ())
    else report c.mode (.about .constantConstructor className none className)

end ClassContract

/-- What one layer does to a new object. -/
def Layer.setUp (host : Host κ ε) (l : Layer κ) (this : Value) (args : List Value) :
    Action (World ε) (Except ContractError Unit) :=
  match l.construction with
  | .initializer none => pure (.ok ())
  | .initializer (some code) => host.setUp code this args
  | .contract c => c.check host l.name this args

/-- Sets an object up layer by layer, up to the first error. -/
def setUpLayers (host : Host κ ε) (this : Value) (args : List Value) :
    List (Layer κ) → Action (World ε) (Except ContractError Unit)
  | [] => pure (.ok ())
  | l :: rest => do
    match ← l.setUp host this args with
    | .ok () => setUpLayers host this args rest
    | .error e => pure (.error e)

/-- Makes a new object, labelled with the name of the class, and sets it up from the root of the
chain down. -/
def Class.construct (host : Host κ ε) (c : Class κ) (args : List Value) :
    Action (World ε) (Except ContractError (Instance κ)) := do
  let r ← World.newRecord { className := some c.name }
  match ← setUpLayers host (.object r) args c.layers.reverse with
  | .ok () => pure (.ok ⟨c, .object r⟩)
  | .error e => pure (.error e)

namespace Instance

def refuse (message : String) : Action (World ε) (Completion ε) :=
  pure (.ready (.error (.operation message)))

/-- `Class.key`, as messages write a member. -/
def memberText (i : Instance κ) (key : MemberKey) : String := i.ofClass.name ++ "." ++ key.text

def call (host : Host κ ε) (i : Instance κ) (key : MemberKey) (args : List Value) :
    Action (World ε) (Completion ε) :=
  match i.ofClass.findMethod? key with
  | some op => op.call host i.this (.args args)
  | none => refuse (i.memberText key ++ " is not a method")

/-- Reads through the getter of the accessor, else the plain field of a string key. -/
def get (host : Host κ ε) (i : Instance κ) (key : MemberKey) : Action (World ε) Value :=
  match (i.ofClass.findAccessor? key).bind (·.getter) with
  | some code => host.read code i.this
  | none => do
    let h ← World.readHeap
    match key with
    | .name field => pure (h.getField i.this field)
    | .symbol _ => pure .undefined

/-- Writes through the setter of the accessor; without an accessor, the plain field of a string
key. -/
def set (host : Host κ ε) (i : Instance κ) (key : MemberKey) (v : Value) :
    Action (World ε) (Completion ε) :=
  match i.ofClass.findAccessor? key with
  | some { setter := some op, .. } => op.call host i.this (.value v)
  | some { setter := none, .. } => refuse (i.memberText key ++ " has a getter but no setter")
  | none =>
    match key, i.this with
    | .name field, .object r => do
      World.writeField r field v
      pure (.ready (.ok .undefined))
    | _, _ => refuse ("cannot assign " ++ i.memberText key)

end Instance
end Contracts
