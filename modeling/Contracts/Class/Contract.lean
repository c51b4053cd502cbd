import Contracts.Class.Basic
import Contracts.Declaration

/-!
# Contracts.Class.Contract

Putting a contract on a class.

* `Layer.underContract` — the members of a layer, each method and setter under the invariant.
* `contractClass`       — the derived class of a declaration.

Getters are never checked, members of further ancestors stay as they are, and the slot for
construction is left out. The derived class keeps the name of its base.
-/

namespace Contracts

variable {κ : Type}

def memberSite (className : String) (key : MemberKey) : CallSite :=
  { className := some className, member := key.text }

/-- The layer that checks an invariant around every method and setter of a layer. -/
def Layer.underContract (base : Layer κ) (c : ClassContract κ) : Layer κ where
  name := base.name
  construction := .contract c
  methods :=
    (base.methods.filter fun key => !key.isConstructor).map fun key op =>
      .checked (memberSite base.name key) c.spec op
  accessors :=
    (base.accessors.filter fun key => !key.isConstructor).map fun key a =>
      { a with setter := a.setter.map fun op => .checked (memberSite base.name key) c.spec op }

/-- The contract of a class that a resolved contract gives, if it has an invariant. -/
def Spec.classContract? (s : Spec κ) : Option (ClassContract κ) :=
  s.invariant.map fun invariant => { invariant, trace := s.trace, mode := s.mode }

/-- Derives the class that checks the declaration's invariant. A declaration without one is an
error. The notices of resolving the declaration come first. -/
def contractClass (base : Class κ) (d : Declaration κ) :
    Except ContractError (Class κ) × List Notice :=
  let (spec, notices) := d.resolve
  match spec.classContract? with
  | none =>
    (.error (.configuration ("class contract on " ++ base.name ++ " requires an invariant")),
      notices)
  | some c =>
    let derived := base.own.underContract c
    (.ok (.extend derived (some base)),
      notices ++ [.classContracted base.name derived.methods.size derived.accessors.size])

end Contracts
