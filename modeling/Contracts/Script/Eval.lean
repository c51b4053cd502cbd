import Contracts.Script.Scope

/-!
# Contracts.Script.Eval

Running scripts.

* `Literal.eval` — the value of a literal.
* `Expr.eval`    — the value of an expression.
* `runBody`      — runs statements up to one that gives a value.

Calls of wrapped operations go through a host that is a parameter, so that everything here is
recursion on the text of the script.
-/

namespace Contracts.Script

/-! ## Literals -/

/-- Puts a value into `depth` fresh records. -/
def wrapInObjects : Nat → Value → Effect Value
  | 0, v => pure v
  | depth + 1, v => do
    let r ← World.newRecord { fields := Table.ofList [("k", v)] }
    wrapInObjects depth (.object r)

/-- Puts a value into `depth` lists. -/
def wrapInArrays : Nat → Value → Value
  | 0, v => v
  | depth + 1, v => wrapInArrays depth (.array [v])

namespace Literal

mutual

def eval : Literal → Effect Value
  | .constant s => pure (.scalar s)
  | .repeated text count => pure (.string (String.join (List.replicate count text)))
  | .symbol description => return .symbol (← World.newSymbol description)
  | .array items => return .array (← evalItems items)
  | .object className fields => do
    let fields ← evalFields fields
    return .object (← World.newRecord { className, fields := Table.ofList fields })
  | .var name => lookupVariable name
  | .copies item count => return .array (List.replicate count (← eval item))
  | .inArrays depth item => return wrapInArrays depth (← eval item)
  | .inObjects depth item => do wrapInObjects depth (← eval item)
  | .malformed what => throw (Script.malformed what)

def evalItems : List Literal → Effect (List Value)
  | [] => pure []
  | l :: rest => do
    let v ← eval l
    return v :: (← evalItems rest)

def evalFields : List (String × Literal) → Effect (List (String × Value))
  | [] => pure []
  | (k, l) :: rest => do
    let v ← eval l
    return (k, v) :: (← evalFields rest)

end

/-- The member key that a literal stands for: a string or a symbol. -/
def key (l : Literal) : Effect MemberKey := do
  match ← l.eval with
  | .string s => pure (.name s)
  | .symbol s => pure (.symbol s)
  | _ => throw (Script.malformed "member key")

end Literal

/-! ## Operators -/

def Arith.apply : Arith → Float → Float → Float
  | .add, a, b => a + b
  | .sub, a, b => a - b
  | .mul, a, b => a * b
  | .div, a, b => a / b

def Comparison.apply : Comparison → Float → Float → Bool
  | .lt, a, b => a < b
  | .le, a, b => a ≤ b
  | .gt, a, b => b < a
  | .ge, a, b => b ≤ a

def Comparison.holds (op : Comparison) (a b : Value) : Bool :=
  match a.toNumber?, b.toNumber? with
  | some x, some y => op.apply x y
  | _, _ => false

def Query.answer (h : Heap) : Query → Value → Value
  | .negation, v => .bool (!v.isTruthy)
  | .isFinite, v => .bool (v.toNumber?.any Float.isFinite)
  | .isWhole, v => .bool (v.toNumber?.any fun n => (integer? n).isSome)
  | .isString, .string _ => .bool true
  | .isString, _ => .bool false
  | .typeName, v => .string v.typeName
  | .className, .object r =>
    match h.className? r with
    | some c => .string c
    | none => .undefined
  | .className, _ => .undefined
  | .rendering, v => .string (h.render v)

/-! ## Expressions -/

structure Env where
  this : Value := .undefined
  args : List Value := []

/-- Waits for the end of a call; its error is the body's. -/
def await (start : Effect (Completion Scope)) : Body Value :=
  ExceptT.mk do
    let completion ← start
    completion.finish

namespace Expr

mutual

def eval (host : Host Callback Scope) (env : Env) : Expr → Body Value
  | .literal l => l.eval
  | .this => pure env.this
  | .arg index => pure (env.args.getD index .undefined)
  | .args => pure (.array env.args)
  | .argCount => pure (.number (Float.ofNat env.args.length))
  | .list items => return .array (← evalItems host env items)
  | .field target name => do
    let v ← eval host env target
    let h ← (World.readHeap : Effect Heap)
    pure (h.getField v name)
  | .arith op a b => do
    let x ← eval host env a
    let y ← eval host env b
    pure (.number (op.apply x.toNumber y.toNumber))
  | .compare op a b => do
    let x ← eval host env a
    let y ← eval host env b
    pure (.bool (op.holds x y))
  | .same a b => do
    let x ← eval host env a
    let y ← eval host env b
    pure (.bool (x.same y))
  | .and a b => do
    let x ← eval host env a
    if x.isTruthy then eval host env b else pure x
  | .or a b => do
    let x ← eval host env a
    if x.isTruthy then pure x else eval host env b
  | .query q a => do
    let v ← eval host env a
    let h ← (World.readHeap : Effect Heap)
    pure (q.answer h v)
  | .mode => return .string (← (World.failureMode : Effect FailureMode)).name
  | .call function receiver inputs => do
    let receiver ← eval host env receiver
    let inputs ← evalItems host env inputs
    let w ← lookupFunction function
    await (w.call host receiver inputs)
  | .callMember on key inputs => do
    let inputs ← evalItems host env inputs
    let i ← lookupInstance on
    let key ← key.key
    await (i.call host key inputs)
  | .setMember on key value => do
    let v ← eval host env value
    let i ← lookupInstance on
    let key ← key.key
    await (i.set host key v)
  | .getMember on key => do
    let i ← lookupInstance on
    let key ← key.key
    i.get host key
  | .attempt e =>
    tryCatch (eval host env e) fun err => pure (.string err.message)

def evalItems (host : Host Callback Scope) (env : Env) : List Expr → Body (List Value)
  | [] => pure []
  | e :: rest => do
    let v ← eval host env e
    return v :: (← evalItems host env rest)

end

end Expr

/-! ## Statements -/

def target : Value → Body Ref
  | .object r => pure r
  | _ => raise (.operation "not an object")

def BorrowChange.apply (r : Ref) : BorrowChange → Effect Unit
  | .hold => World.changeHeap (·.hold? r)
  | .share => World.changeHeap (·.share? r)
  | .release => World.changeHeap fun h => some (h.release r)

def Raised.error (message : String) : Raised → ContractError
  | .operation => .operation message
  | .configuration => .configuration message

mutual

/-- Runs one statement; it answers the value given, if it gives one. -/
def Stmt.run (host : Host Callback Scope) (env : Env) : Stmt → Body (Option Value)
  | .give e => return some (← e.eval host env)
  | .drop e => do
    let _ ← e.eval host env
    pure none
  | .assign name e => do
    let v ← e.eval host env
    bindVariable name v
    pure none
  | .setField object name value => do
    let o ← object.eval host env
    let v ← value.eval host env
    let r ← target o
    (World.writeField r name v : Effect Unit)
    pure none
  | .branch test yes no => do
    if (← test.eval host env).isTruthy then runAll host env yes else runAll host env no
  | .note label e => do
    let v ← e.eval host env
    let h ← (World.readHeap : Effect Heap)
    (World.log (.note label (h.unfold v)) : Effect Unit)
    pure none
  | .raise kind message => raise (kind.error message)
  | .panic => throwThe Abort .panic
  | .setMode m => do
    let _ ← (World.setFailureMode m : Effect FailureMode)
    pure none
  | .borrow change object => do
    let o ← object.eval host env
    let r ← target o
    change.apply r
    pure none

/-- Runs statements up to the first that gives a value. -/
def runAll (host : Host Callback Scope) (env : Env) : List Stmt → Body (Option Value)
  | [] => pure none
  | s :: rest => do
    match ← s.run host env with
    | some v => pure (some v)
    | none => runAll host env rest

end

/-- Runs a body. Its value is the one given, else `undefined`. -/
def runBody (host : Host Callback Scope) (env : Env) (body : List Stmt) :
    Effect (Except ContractError Value) :=
  ExceptT.run do return (← runAll host env body).getD .undefined

end Contracts.Script
