import Contracts.Demo.Routine

/-!
# Contracts.Demo.Scenario

Small programs that break a contract.

* `Scenario`  — a name, a line about it, and the program, given where its contracts trace to.
* `scenarios` — the built-in ones, in the order in which they are listed.

The contracts carry no failure mode of their own, so the one of the process decides.
-/

namespace Contracts.Demo

structure Scenario where
  name : String
  about : String
  run : TraceSetting Routine → Play Value

/-- Writes a field of the receiver and gives `result`. -/
def assign (field : String) (v result : Value) (complaint : String) (this : Value) :
    Effect (Except ContractError Value) :=
  match this with
  | .object r => do
    World.writeField r field v
    pure (.ok result)
  | _ => pure (.error (.operation complaint))

/-- Adds to a field of the receiver, which counts as zero when it is no number. -/
def adjust (field : String) (delta : Float) (complaint : String) (this : Value) :
    Effect (Except ContractError Value) := do
  let h ← World.readHeap
  let next := .number ((h.getField this field).toNumber + delta)
  assign field next next complaint this

def amount (inputs : List Value) : Float := (inputs.headD .undefined).toNumber

/-- The field of the receiver is not negative; what is no number counts as zero. -/
def notNegative (field : String) (h : Heap) (this : Value) : Bool :=
  0 ≤ (h.getField this field).toNumber

def decrement : Routine where
  body this inputs := adjust "value" (-amount inputs) "dec called without a receiver" this

def specOf (r : ContractRecord Routine) : Spec Routine := (Declaration.record r).resolve.1

def site (className member : String) : CallSite := ⟨some className, member⟩

/-! ## Counters -/

/-- Takes two from a counter at one, under a contract. -/
def countDown (r : ContractRecord Routine) : Play Value := do
  let dec : Operation Routine := .checked (site "Counter" "dec") (specOf r) (.plain decrement)
  let this ← newObject "Counter" [("value", .number 1)]
  present "Counter.dec(2)" (dec.call host this (.args [.number 2]))

def counter (trace : TraceSetting Routine) : Play Value :=
  countDown { invariant := some (.ofInvariant (notNegative "value")), trace := some trace }

def startsWithNumber (inputs : List Value) : Bool := (inputs.headD .undefined).toNumber?.isSome

def deferred (trace : TraceSetting Routine) : Play Value :=
  countDown {
    before := some (.ofCondition startsWithNumber (.eager 0))
    invariant := some (.ofInvariant (notNegative "value") (.eager 0))
    trace := some trace }

/-! ## Persons -/

/-- The first input is a whole number that is not negative. -/
def isAge (inputs : List Value) : Bool :=
  match (inputs.headD .undefined).toNumber? with
  | some n => 0 ≤ n && (integer? n).isSome
  | none => false

def assignAge : Routine where
  body this inputs :=
    assign "age" (inputs.headD .undefined) .undefined "age set without a receiver" this

def person (trace : TraceSetting Routine) : Play Value := do
  let spec := specOf { before := some (.ofCondition isAge), trace := some trace }
  let setAge : Operation Routine := .checked (site "Person" "age") spec (.plain assignAge)
  let this ← newObject "Person" []
  let _ ← present "Person.set age(30)" (setAge.call host this (.value (.number 30)))
  thenDo (present "Person.set age(-1)" (setAge.call host this (.value (.number (-1))))) do
    let h ← World.readHeap
    writeLine ("age is " ++ h.render (h.getField this "age"))

/-! ## Functions -/

def addAll : Routine where
  body _ inputs := pure (.ok (.number (inputs.foldl (fun sum v => sum + v.toNumber) 0)))

def calculator (trace : TraceSetting Routine) : Play Value := do
  let spec := specOf {
    requires := some (.ofCondition fun inputs =>
      inputs.all fun v => v.toNumber?.any Float.isFinite)
    ensures := some (.ofCondition startsWithNumber)
    trace := some trace }
  let add : Wrapped Routine :=
    ⟨.function, .checked (site "Calculator" "add") spec (.plain addAll)⟩
  let _ ← present "add(1, 2)" (add.call host .undefined [.number 1, .number 2])
  present "add(NaN)" (add.call host .undefined [.number (0 / 0)])

/-! ## Accounts -/

def noReceiver : String := "account method without a receiver"

def accountClass : Class Routine :=
  .extend
    (.build "Account"
      (some { body := fun this _ => assign "balance" (.number 0) .undefined noReceiver this })
      [(.name "deposit",
          .method { body := fun this inputs => adjust "balance" (amount inputs) noReceiver this }),
        (.name "withdraw",
          .method { body := fun this inputs => adjust "balance" (-amount inputs) noReceiver this }),
        (.name "balance",
          .getter { body := fun this _ =>
            return .ok ((← World.readHeap).getField this "balance") })])
    none

def account (trace : TraceSetting Routine) : Play Value := do
  let declaration : Declaration Routine :=
    .record { invariant := some (.ofInvariant (notNegative "balance")), trace := some trace }
  let derived ← ExceptT.mk (pure (contractClass accountClass declaration).1)
  let account ← ExceptT.mk (derived.construct host [])
  let _ ← present "Account.deposit(50)" (account.call host (.name "deposit") [.number 50])
  thenDo (present "Account.withdraw(100)" (account.call host (.name "withdraw") [.number 100])) do
    let balance ← account.get host (.name "balance")
    let h ← World.readHeap
    writeLine ("balance is " ++ h.render balance)

/-! ## The list -/

def scenarios : List Scenario :=
  [⟨"counter", "decrement a counter below its non-negative invariant", counter⟩,
    ⟨"person", "assign a negative age through a checked setter", person⟩,
    ⟨"calculator", "add NaN to a function that requires finite numbers", calculator⟩,
    ⟨"account", "overdraw an account whose class keeps a non-negative balance", account⟩,
    ⟨"deferred", "the counter scenario with asynchronous checks", deferred⟩]

def findScenario? (name : String) : Option Scenario := scenarios.find? (·.name == name)

end Contracts.Demo
