import Contracts.Evaluation
import Contracts.FailureMode
import Contracts.Future
import Contracts.Render
import Contracts.Violation

/-!
# Contracts.World

The state that contracts and their callbacks share.

* `CheckKind` — the checks that are traced: the four around a call, and the one at construction.
* `Notice`    — the remarks about declarations.
* `Event`     — an entry of the journal.
* `World ε`   — records, the next symbol, the process-wide mode, the journal, and a part `ε` that
  belongs to the callbacks.
-/

namespace Contracts

inductive CheckKind where
  | around (g : Guard)
  | construction
  deriving DecidableEq, Repr

namespace CheckKind

def name : CheckKind → String
  | .around .invariantBefore => "invariant-before"
  | .around .precondition => "precondition"
  | .around .postcondition => "postcondition"
  | .around .invariantAfter => "invariant-after"
  | .construction => "invariant-constructor"

def all : List CheckKind :=
  [.around .invariantBefore, .around .precondition, .around .postcondition,
    .around .invariantAfter, .construction]

def ofName? (s : String) : Option CheckKind := all.find? (·.name == s)

end CheckKind

inductive Notice where
  /-- The options of a contract are no object. -/
  | optionsIgnored
  /-- An option is unknown or has a value of the wrong type. -/
  | optionDropped (option : String)
  /-- The text of a failure mode names none. -/
  | overrideDropped (reason : UnknownFailureMode)
  | classContracted (className : String) (methods accessors : Nat)

namespace Notice

def message : Notice → String
  | .optionsIgnored => "contract options are not an object; ignoring"
  | .optionDropped _ => "dropping unrecognized contract option"
  | .overrideDropped _ => "dropping failure mode override"
  | .classContracted _ _ _ => "class contract applied"

/-- What a notice is about, as named parts. -/
def fields : Notice → List (String × Json)
  | .optionsIgnored => []
  | .optionDropped option => [("option", .string option)]
  | .overrideDropped reason => [("err", .string reason.message)]
  | .classContracted className methods accessors =>
    [("class", .string className), ("methods", .number (Nat.repr methods)),
      ("accessors", .number (Nat.repr accessors))]

end Notice

inductive Event where
  /-- A callback's note about a value. -/
  | note (label : String) (value : Tree)
  /-- A check handed to the contract's own sink, as text. -/
  | traced (text : String)
  /-- A check traced by default, with its input and its result as texts. -/
  | defaultTrace (kind : CheckKind) (className member input : String) (result : Option String)
      (passed : Bool) (failure : Option FailureKind)
  /-- The contract's sink gave up and was ignored. -/
  | sinkPanicked (kind : CheckKind)
  /-- A violation that was written down and not raised. -/
  | violated (failure : FailureKind) (className message : String)
  /-- A call that ran to its end. -/
  | evaluated (className member : String) (succeeded : Bool) (evaluation : Evaluation)
  | notice (n : Notice)

structure World (ε : Type) where
  heap : Heap := {}
  nextSymbol : UInt32 := 0
  mode : ModeCell
  /-- The journal, with the latest entry in front. -/
  entries : List Event := []
  /-- What only the callbacks look at. -/
  own : ε

namespace World

variable {ε : Type}

/-- What has happened so far, in order. -/
def journal (w : World ε) : List Event := w.entries.reverse

def log (e : Event) : Action (World ε) Unit :=
  modify fun w => { w with entries := e :: w.entries }

@[simp] theorem exec_log (e : Event) (w : World ε) :
    (log e).exec w = (.ok (), { w with entries := e :: w.entries }) := rfl

theorem journal_log (e : Event) (w : World ε) :
    ((log e).exec w).2.journal = w.journal ++ [e] := List.reverse_cons

def failureMode : Action (World ε) FailureMode :=
  modifyGet fun w => let (m, cell) := w.mode.read; (m, { w with mode := cell })

@[simp] theorem exec_failureMode (w : World ε) :
    (failureMode : Action (World ε) FailureMode).exec w =
      (.ok w.mode.read.1, { w with mode := w.mode.read.2 }) := rfl

/-- Sets the failure mode of the process and answers the one before. -/
def setFailureMode (m : FailureMode) : Action (World ε) FailureMode :=
  modifyGet fun w => let (old, cell) := w.mode.write m; (old, { w with mode := cell })

/-- A fresh symbol. The numbers of symbols start over after `2 ^ 32` of them. -/
def newSymbol (description : Option String) : Action (World ε) Symbol :=
  modifyGet fun w => (⟨w.nextSymbol, description⟩, { w with nextSymbol := w.nextSymbol + 1 })

def newRecord (rec : Record) : Action (World ε) Ref :=
  modifyGet fun w => let (r, h) := w.heap.alloc rec; (r, { w with heap := h })

@[simp] theorem exec_newRecord (rec : Record) (w : World ε) :
    (newRecord rec).exec w =
      (.ok (w.heap.alloc rec).1, { w with heap := (w.heap.alloc rec).2 }) := rfl

/-- Changes the heap, or gives up when the record's borrow forbids it. -/
def changeHeap (f : Heap → Option Heap) : Action (World ε) Unit := do
  let w ← get
  match f w.heap with
  | some h => set { w with heap := h }
  | none => throw .panic

theorem exec_changeHeap (f : Heap → Option Heap) (w : World ε) :
    (changeHeap f).exec w = match f w.heap with
      | some h => (.ok (), { w with heap := h })
      | none => (.error .panic, w) := by
  show (match f w.heap with
    | some h => set { w with heap := h }
    | none => throw .panic : Action (World ε) Unit).exec w = _
  cases f w.heap <;> rfl

def writeField (r : Ref) (field : String) (v : Value) : Action (World ε) Unit :=
  changeHeap fun h => h.set? r field v

def readHeap : Action (World ε) Heap := return (← get).heap

@[simp] theorem exec_readHeap (w : World ε) :
    (readHeap : Action (World ε) Heap).exec w = (.ok w.heap, w) := rfl

end World
end Contracts
