import Contracts.Protocol

/-!
# Contracts.Operation

Operations under any number of contracts.

* `Operation κ`   — plain code, or an operation with the checks of a contract around it.
* `call`          — runs an operation on a receiver and an input.
* `Form`, `Wrapped` — the three ways in which an operation can be offered: as a method, as a
  setter, and as a function without a receiver.
-/

namespace Contracts

/-- Code under the contracts around it, the outermost first. -/
inductive Operation (κ : Type) where
  | plain (code : κ)
  | checked (site : CallSite) (spec : Spec κ) (inner : Operation κ)

namespace Operation

variable {κ ε : Type}

/-- The frame of a call, with the class label of this moment. -/
def frame (site : CallSite) (spec : Spec κ) (receiver : Value) (input : Input) (h : Heap) :
    Frame κ :=
  { site, spec, receiver, input, className := site.label h receiver }

def call (host : Host κ ε) : Operation κ → Value → Input → Action (World ε) (Completion ε)
  | .plain code, receiver, input => host.operate code receiver input
  | .checked site spec inner, receiver, input => do
    let h ← World.readHeap
    invoke host (frame site spec receiver input h) (inner.call host receiver input)

theorem exec_call_checked (host : Host κ ε) (site : CallSite) (spec : Spec κ)
    (inner : Operation κ) (receiver : Value) (input : Input) (w : World ε) :
    ((checked site spec inner).call host receiver input).exec w =
      (invoke host (frame site spec receiver input w.heap)
        (inner.call host receiver input)).exec w := by
  simp only [call, Action.exec_bind, World.exec_readHeap]

end Operation

/-- How an operation is offered. -/
inductive Form where
  | method
  | setter
  | function
  deriving DecidableEq, Repr

/-- An operation in one of its forms. -/
structure Wrapped (κ : Type) where
  form : Form
  operation : Operation κ

/-- Calls a wrapped operation with a receiver and arguments. A setter takes the first argument,
and a function has no receiver. -/
def Wrapped.call {κ ε : Type} (host : Host κ ε) (w : Wrapped κ) (receiver : Value)
    (args : List Value) : Action (World ε) (Completion ε) :=
  match w.form with
  | .method => w.operation.call host receiver (.args args)
  | .setter => w.operation.call host receiver (.value (args.headD .undefined))
  | .function => w.operation.call host .undefined (.args args)

end Contracts
