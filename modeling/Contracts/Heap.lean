import Contracts.Table
import Contracts.Value

/-!
# Contracts.Heap

Records shared by reference.

* `Record` — a class label, fields in the order of their first write, and a borrow.
* `Borrow` — whether a record is free, shared by readers, or held by one writer.
* `Heap`   — the records of a run; a reference is the number of a record.
* `className?`, `get`, `set?` — reads that a held record refuses, and a write that only a free
  record accepts.
-/

namespace Contracts

inductive Borrow where
  | free
  /-- Readers only: writes are refused. -/
  | shared
  /-- One writer: reads and writes of others are refused. -/
  | held
  deriving DecidableEq, Repr

structure Record where
  className : Option String := none
  fields : Table String Value := {}
  borrow : Borrow := .free

structure Heap where
  records : Array Record := #[]

namespace Heap

def size (h : Heap) : Nat := h.records.size

def record? (h : Heap) (r : Ref) : Option Record := h.records[r.index]?

def alloc (h : Heap) (rec : Record) : Ref × Heap :=
  (⟨h.records.size⟩, ⟨h.records.push rec⟩)

/-- The record, unless a writer holds it. -/
def readable? (h : Heap) (r : Ref) : Option Record :=
  (h.record? r).filter fun rec => rec.borrow != .held

def isHeld (h : Heap) (r : Ref) : Bool := (h.readable? r).isNone

def className? (h : Heap) (r : Ref) : Option String := (h.readable? r).bind (·.className)

/-- A field of a record; `undefined` when there is none or the record is held. -/
def get (h : Heap) (r : Ref) (field : String) : Value :=
  ((h.readable? r).bind fun rec => rec.fields.get? field).getD .undefined

def modify (h : Heap) (r : Ref) (f : Record → Record) : Heap :=
  ⟨h.records.modify r.index f⟩

/-- Writes a field of a free record, in its place if it exists. -/
def set? (h : Heap) (r : Ref) (field : String) (v : Value) : Option Heap :=
  match h.record? r with
  | some rec =>
    if rec.borrow = .free then
      some (h.modify r fun rec => { rec with fields := rec.fields.insert field v })
    else none
  | none => none

def hold? (h : Heap) (r : Ref) : Option Heap :=
  match h.record? r with
  | some rec =>
    if rec.borrow = .free then some (h.modify r fun rec => { rec with borrow := .held }) else none
  | none => none

def share? (h : Heap) (r : Ref) : Option Heap :=
  match h.record? r with
  | some rec =>
    if rec.borrow = .held then none
    else some (h.modify r fun rec => { rec with borrow := .shared })
  | none => none

def release (h : Heap) (r : Ref) : Heap := h.modify r fun rec => { rec with borrow := .free }

end Heap

/-- A field of an object; `undefined` for every other value. -/
def Heap.getField (h : Heap) : Value → String → Value
  | .object r, field => h.get r field
  | _, _ => .undefined

end Contracts
