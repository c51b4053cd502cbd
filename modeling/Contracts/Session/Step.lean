import Contracts.Script.Scope

/-!
# Contracts.Session.Step

What a session can be asked to do, and what it answers.

* `Declared` — a declaration in a script: a bare callback, or options and fields.
* `Step`     — a request.
* `Answer`   — what a step comes to; values are given as trees of their state at that moment.
-/

namespace Contracts.Session

open Contracts.Script

inductive Declared where
  | bare (code : Callback)
  /-- Fields on top of the options, if there are any. -/
  | record (options : Option Json) (settings : List (ContractRecord.Setting Callback))

/-- The declaration, and the notices about its options. -/
def Declared.declaration : Declared → Declaration Callback × List Notice
  | .bare code => (.bare code, [])
  | .record options settings =>
    let (fields, notices) :=
      match options with
      | some j => ContractRecord.ofOptions j
      | none => ({}, [])
    (.record (fields.applyAll settings), notices)

inductive Recording where
  | check (stage : Stage) (held : Bool)
  | result (value : Literal)
  | suspension (stage : Stage)

inductive Step where
  | assign (name : String) (value : Literal)
  | eval (body : List Stmt) (receiver : Literal) (args : List Literal)
  | render (values : List Literal)
  | contract (name : String) (declared : Declared)
  | narrow (contract : String)
  | wrap (name contract : String) (form : Form) (site : CallSite) (operation : Callback)
  /-- Puts one more contract around an operation that has one. -/
  | wrapAgain (name contract function : String) (site : CallSite)
  /-- Calls a wrapped operation. A pending call is kept under the handle, if there is one, and
  else polled to its end. -/
  | call (function : String) (receiver : Literal) (args : List Literal) (handle : Option String)
  | poll (handle : String)
  | finish (handle : String)
  | discard (handle : String)
  | defineClass (id name : String) (parent : Option String) (init : Option Callback)
      (members : List (Literal × Member Callback))
  | contractClass (id base : String) (declared : Declared)
  | construct (id className : String) (args : List Literal)
  | callMember (on : String) (key : Literal) (args : List Literal) (handle : Option String)
  | setMember (on : String) (key value : Literal) (handle : Option String)
  | getMember (on : String) (key : Literal)
  /-- Applies a method of a class to any receiver. -/
  | callMethod (className : String) (key receiver : Literal) (args : List Literal)
      (handle : Option String)
  /-- Applies a setter of a class to any receiver. -/
  | callSetter (className : String) (key receiver value : Literal) (handle : Option String)
  | lookup (className : String) (key : Literal)
  | inspectClass (className : String)
  | inspectValue (value : Literal)
  | mode
  | setMode (m : FailureMode)
  | label (site : CallSite) (receiver : Literal)
  | report (failure : FailureKind) (className : String) (member : Option String)
      (subject : String) (override : Option FailureMode)
  | evaluation (recordings : List Recording)
  /-- An answer that is there, or that takes a number of polls. -/
  | eventual (held : Bool) (polls : Option Nat)

structure SpecSummary where
  precondition : Bool
  postcondition : Bool
  invariant : Bool
  isEmpty : Bool
  isTraced : Bool
  mode : Option FailureMode
  text : String

structure ClassSummary where
  name : String
  parent : Option String
  methods : List String
  /-- Keys with the presence of getter and setter. -/
  accessors : List (String × Bool × Bool)

structure EvaluationSummary where
  slots : List (Option Bool)
  result : Option Tree
  invoked : Bool
  suspendedAt : Option Stage

inductive Answer where
  | done
  | outcome (r : Except ContractError Tree)
  /-- The outcome of a call, and whether it was pending when it was started or polled. -/
  | callOutcome (r : Except ContractError Tree) (wasPending : Bool)
  | pending
  | rendering (texts : List String) (joined : String) (json : List String) (types : List String)
      (truthy : List Bool)
  | contract (s : SpecSummary)
  /-- A narrowed contract, and whether its invariant is still there, if there was one. -/
  | narrowed (s : SpecSummary) (shared : Option Bool)
  | ofClass (s : ClassSummary)
  | constructed (value : Tree) (className : String)
  | noHandle
  | discarded
  | noMethod
  | noSetter
  | found (key : String) (isConstructor isMethod : Bool) (accessor : Option (Bool × Bool))
  | text (s : String)
  | mode (m : FailureMode)
  | previousMode (m : FailureMode)
  | label (className : Option String) (member label : String)
  | report (effective : FailureMode) (json : String) (r : Except ContractError Unit)
  | evaluations (states : List EvaluationSummary)
  | eventual (text : String) (now : Option Bool) (isPending : Bool)
      (mapped : Except ContractError Tree)
  | aborted (cause : Abort)

end Contracts.Session
