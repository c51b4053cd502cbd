import Contracts.FailureMode
import Contracts.Timing
import Contracts.Value

/-!
# Contracts.Script.Syntax

A small language for callbacks.

* `Literal`  — how a value is written; records and symbols are fresh at every evaluation.
* `Expr`     — expressions over the receiver, the arguments and the names of a scope.
* `Stmt`     — statements: notes, writes, raised errors, borrows, changes of the failure mode.
* `Callback` — a body with a timing.
-/

namespace Contracts.Script

inductive Literal where
  | constant (s : Scalar)
  | repeated (text : String) (count : Nat)
  | symbol (description : Option String)
  | array (items : List Literal)
  | object (className : Option String) (fields : List (String × Literal))
  | var (name : String)
  /-- A list that holds one value `count` times. -/
  | copies (item : Literal) (count : Nat)
  /-- A value inside `depth` lists of one item. -/
  | inArrays (depth : Nat) (item : Literal)
  /-- A value inside `depth` fresh records with the one field `k`. -/
  | inObjects (depth : Nat) (item : Literal)
  /-- What stands for no value; to evaluate it ends the run. -/
  | malformed (what : String)

/-- Operators on numbers; everything else counts as zero. -/
inductive Arith where
  | add
  | sub
  | mul
  | div
  deriving DecidableEq, Repr

/-- Comparisons of numbers; false for everything else. -/
inductive Comparison where
  | lt
  | le
  | gt
  | ge
  deriving DecidableEq, Repr

inductive Query where
  | negation
  | isFinite
  | isWhole
  | isString
  | typeName
  | className
  | rendering
  deriving DecidableEq, Repr

inductive Expr where
  | literal (l : Literal)
  | this
  | arg (index : Nat)
  | args
  | argCount
  | list (items : List Expr)
  | field (target : Expr) (name : String)
  | arith (op : Arith) (a b : Expr)
  | compare (op : Comparison) (a b : Expr)
  | same (a b : Expr)
  /-- The first operand if it counts as false, else the second. -/
  | and (a b : Expr)
  /-- The first operand if it counts as true, else the second. -/
  | or (a b : Expr)
  | query (q : Query) (a : Expr)
  | mode
  /-- Calls a wrapped operation and waits for its end. -/
  | call (function : String) (this : Expr) (args : List Expr)
  | callMember (on : String) (key : Literal) (args : List Expr)
  | setMember (on : String) (key : Literal) (value : Expr)
  | getMember (on : String) (key : Literal)
  /-- The message of the error, if there is one. -/
  | attempt (e : Expr)

/-- The errors that a body can raise. -/
inductive Raised where
  | operation
  | configuration
  deriving DecidableEq, Repr

inductive BorrowChange where
  | hold
  | share
  | release
  deriving DecidableEq, Repr

inductive Stmt where
  | give (e : Expr)
  | drop (e : Expr)
  | assign (name : String) (e : Expr)
  | setField (target : Expr) (name : String) (value : Expr)
  | branch (test : Expr) (yes no : List Stmt)
  | note (label : String) (e : Expr)
  | raise (kind : Raised) (message : String)
  | panic
  | setMode (m : FailureMode)
  | borrow (change : BorrowChange) (target : Expr)

/-- A body and when it runs. Getters, initializers and sinks run their body at once. -/
structure Callback where
  timing : Timing := .sync
  body : List Stmt

end Contracts.Script
