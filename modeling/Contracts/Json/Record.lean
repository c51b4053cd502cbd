import Contracts.Json.Parser

/-!
# Contracts.Json.Record

Records as JSON trees, by the declarations of their fields.

* `FieldType`, `FieldDeclaration` — what a record is declared to hold.
* `RecordCodec`        — writes the values of the fields as a tree, and reads them back.
* `Json.standardCodec` — the codec of the program.

A value is a text, or nothing in a field that may be empty.
-/

namespace Contracts

open Json (Literal)

inductive FieldType where
  /-- One of some names. -/
  | variant (names : List String)
  | text
  /-- A text, or nothing. -/
  | optionalText

structure FieldDeclaration where
  name : String
  type : FieldType

class RecordCodec where
  write : List FieldDeclaration → List (Option String) → Json
  read? : List FieldDeclaration → JsonTree Literal → Option (List (Option String))

/-- The values of the members of one name, in order. -/
def valuesOf (key : String) (ms : List (Literal × JsonTree Literal)) : List (JsonTree Literal) :=
  ms.filterMap fun m => if m.1 = some key then some m.2 else none

namespace FieldType

/-- The value that a tree shows. A name is written as a string, or as the only member of an object
whose value is `null`. -/
def read? : FieldType → JsonTree Literal → Option (Option String)
  | .variant names, .string (some s) => if s ∈ names then some (some s) else none
  | .variant names, .object [(some s, .null)] => if s ∈ names then some (some s) else none
  | .text, .string (some s) => some (some s)
  | .optionalText, .string (some s) => some (some s)
  | .optionalText, .null => some none
  | _, _ => none

/-- The value of a field, from the members that have its name. -/
def readMembers? : FieldType → List (JsonTree Literal) → Option (Option String)
  | type, [j] => type.read? j
  | .optionalText, [] => some none
  | _, _ => none

end FieldType

namespace Json

/-- A record as an object of its fields. -/
def writeRecord (fields : List FieldDeclaration) (values : List (Option String)) : Json :=
  .object (List.zipWith (fun f v => (f.name, v.elim .null .string)) fields values)

/-- A record from an object of its fields, or from the list of them in order. Members of other names
do not count. -/
def readRecord? (fields : List FieldDeclaration) : JsonTree Literal → Option (List (Option String))
  | .object ms =>
    if ms.all fun m => m.1.isSome then fields.mapM fun f => f.type.readMembers? (valuesOf f.name ms)
    else none
  | .array items =>
    if items.length = fields.length then (fields.zip items).mapM fun p => p.1.type.read? p.2
    else none
  | _ => none

/-- The codec of the program. -/
instance standardCodec : RecordCodec where
  write := writeRecord
  read? := readRecord?

end Json
end Contracts
