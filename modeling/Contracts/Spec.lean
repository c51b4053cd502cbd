import Contracts.World

/-!
# Contracts.Spec

Contracts as they are checked.

* `TraceSetting κ` — where the checks of a contract are traced to.
* `Spec κ`         — the checks of a contract, with callbacks of a type `κ` of code.
* `Spec.invariantOnly` — the part of a contract that a whole class can carry.
-/

namespace Contracts

inductive TraceSetting (κ : Type) where
  | disabled
  | default
  | sink (code : κ)

namespace TraceSetting

variable {κ : Type}

def ofBool : Bool → TraceSetting κ
  | true => .default
  | false => .disabled

def isEnabled : TraceSetting κ → Bool
  | .disabled => false
  | _ => true

end TraceSetting

structure Spec (κ : Type) where
  precondition : Option κ := none
  postcondition : Option κ := none
  invariant : Option κ := none
  trace : TraceSetting κ := .default
  /-- The failure mode of this contract alone. -/
  mode : Option FailureMode := none

namespace Spec

variable {κ : Type}

/-- No check would be made. -/
def isEmpty (s : Spec κ) : Bool :=
  s.precondition.isNone && s.postcondition.isNone && s.invariant.isNone

/-- The same contract without its conditions on single calls. -/
def invariantOnly (s : Spec κ) : Spec κ :=
  { s with precondition := none, postcondition := none }

def entry (s : Spec κ) : List (Guard × κ) :=
  (s.invariant.map fun c => (Guard.invariantBefore, c)).toList ++
    (s.precondition.map fun c => (Guard.precondition, c)).toList

def exit (s : Spec κ) : List (Guard × κ) :=
  (s.postcondition.map fun c => (Guard.postcondition, c)).toList ++
    (s.invariant.map fun c => (Guard.invariantAfter, c)).toList

end Spec
end Contracts
