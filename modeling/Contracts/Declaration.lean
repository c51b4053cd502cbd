import Contracts.Spec

/-!
# Contracts.Declaration

Contracts as they are written down.

* `ContractRecord` — the fields of a declaration, each check under two names.
* `ContractRecord.Setting`, `ContractRecord.apply` — writing one field.
* `ContractRecord.ofOptions` — the trace setting and failure mode from a JSON value.
* `Declaration`, `Declaration.resolve` — a declaration, and the contract that it means.

Resolving never fails: an alias counts only where the primary name is absent, and a text that
names no failure mode is dropped with a notice.
-/

namespace Contracts

structure ContractRecord (κ : Type) where
  before : Option κ := none
  requires : Option κ := none
  after : Option κ := none
  ensures : Option κ := none
  constant : Option κ := none
  invariant : Option κ := none
  trace : Option (TraceSetting κ) := none
  mode : Option String := none

namespace ContractRecord

variable {κ : Type}

inductive Setting (κ : Type) where
  | before (code : κ)
  | requires (code : κ)
  | after (code : κ)
  | ensures (code : κ)
  | constant (code : κ)
  | invariant (code : κ)
  | trace (setting : TraceSetting κ)
  | mode (name : String)

/-- The last write of a field counts. -/
def apply (r : ContractRecord κ) : Setting κ → ContractRecord κ
  | .before c => { r with before := some c }
  | .requires c => { r with requires := some c }
  | .after c => { r with after := some c }
  | .ensures c => { r with ensures := some c }
  | .constant c => { r with constant := some c }
  | .invariant c => { r with invariant := some c }
  | .trace t => { r with trace := some t }
  | .mode m => { r with mode := some m }

def applyAll (r : ContractRecord κ) (settings : List (Setting κ)) : ContractRecord κ :=
  settings.foldl apply r

/-- Takes one option: `trace` with a Boolean, or `failureMode` with a string. Every other option
is dropped with a notice. -/
def takeOption (r : ContractRecord κ) : String × Json → ContractRecord κ × List Notice
  | ("trace", .bool b) => ({ r with trace := some (.ofBool b) }, [])
  | ("failureMode", .string m) => ({ r with mode := some m }, [])
  | (key, _) => (r, [.optionDropped key])

def takeOptions (r : ContractRecord κ) :
    List (String × Json) → ContractRecord κ × List Notice
  | [] => (r, [])
  | option :: rest =>
    let (r, first) := r.takeOption option
    let (r, more) := r.takeOptions rest
    (r, first ++ more)

/-- Reads the options of a contract. A value that is no object is ignored with a notice. -/
def ofOptions : Json → ContractRecord κ × List Notice
  | .object members => takeOptions {} members
  | _ => ({}, [.optionsIgnored])

end ContractRecord

inductive Declaration (κ : Type) where
  /-- A bare callable is an invariant. -/
  | bare (invariant : κ)
  | record (fields : ContractRecord κ)

/-- The failure mode that a declared text names. -/
def resolveMode : Option String → Option FailureMode × List Notice
  | none => (none, [])
  | some text =>
    match FailureMode.parse text with
    | .ok m => (some m, [])
    | .error e => (none, [.overrideDropped e])

/-- The contract that a declaration means, and the notices on the way. -/
def Declaration.resolve {κ : Type} : Declaration κ → Spec κ × List Notice
  | .bare code => ({ invariant := some code }, [])
  | .record r =>
    let (mode, notices) := resolveMode r.mode
    ({ precondition := r.before <|> r.requires
       postcondition := r.after <|> r.ensures
       invariant := r.constant <|> r.invariant
       trace := r.trace.getD .default
       mode }, notices)

end Contracts
