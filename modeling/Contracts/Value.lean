/-!
# Contracts.Value

The values that wrapped operations take and give.

* `Symbol`  — a token with an identity and a description that does not count.
* `Scalar`  — the values without parts.
* `Value`   — scalars, lists of values, and references to records.
* `Value.same`, `Value.isTruthy`, `Value.typeName` — equality, truth and the name of the type.
-/

namespace Contracts

/-- A unique token. Two symbols are the same when their numbers are. -/
structure Symbol where
  id : UInt32
  description : Option String

/-- The text of a symbol, with an empty description when it has none. -/
def Symbol.text (s : Symbol) : String := "Symbol(" ++ s.description.getD "" ++ ")"

structure Ref where
  index : Nat
  deriving DecidableEq, Repr

inductive Scalar where
  | undefined
  | null
  | bool (b : Bool)
  | number (n : Float)
  | string (s : String)
  | symbol (s : Symbol)
  /-- A callable that is only named. -/
  | function (name : Option String)

inductive Value where
  | scalar (s : Scalar)
  | array (items : List Value)
  /-- The shared record behind a reference. -/
  | object (ref : Ref)

namespace Value

@[match_pattern] abbrev undefined : Value := .scalar .undefined
@[match_pattern] abbrev null : Value := .scalar .null
@[match_pattern] abbrev bool (b : Bool) : Value := .scalar (.bool b)
@[match_pattern] abbrev number (n : Float) : Value := .scalar (.number n)
@[match_pattern] abbrev string (s : String) : Value := .scalar (.string s)
@[match_pattern] abbrev symbol (s : Symbol) : Value := .scalar (.symbol s)
@[match_pattern] abbrev function (name : Option String) : Value := .scalar (.function name)

instance : Inhabited Value := ⟨undefined⟩

end Value

/-! ## Equality -/

/-- Numbers compare as numbers: what is no number differs from itself, and the zeros are equal. -/
def Scalar.same : Scalar → Scalar → Bool
  | .undefined, .undefined => true
  | .null, .null => true
  | .bool a, .bool b => a == b
  | .number a, .number b => a == b
  | .string a, .string b => a == b
  | .symbol a, .symbol b => a.id == b.id
  | .function a, .function b => a == b
  | _, _ => false

namespace Value

mutual

/-- Lists compare item by item, records by identity. -/
def same : Value → Value → Bool
  | .scalar a, .scalar b => a.same b
  | .array as, .array bs => sameItems as bs
  | .object r, .object r' => r == r'
  | _, _ => false

def sameItems : List Value → List Value → Bool
  | [], [] => true
  | a :: as, b :: bs => same a b && sameItems as bs
  | _, _ => false

end

/-! ## Views -/

/-- `undefined`, `null`, `false`, zero, what is no number and the empty string count as false. -/
def isTruthy : Value → Bool
  | .undefined | .null => false
  | .bool b => b
  | .number n => !(n == 0) && !n.isNaN
  | .string s => !s.isEmpty
  | _ => true

def typeName : Value → String
  | .undefined => "undefined"
  | .null => "null"
  | .bool _ => "boolean"
  | .number _ => "number"
  | .string _ => "string"
  | .symbol _ => "symbol"
  | .function _ => "function"
  | .array _ => "array"
  | .object _ => "object"

def toNumber? : Value → Option Float
  | .number n => some n
  | _ => none

/-- The number of a value, zero for everything else. -/
def toNumber (v : Value) : Float := v.toNumber?.getD 0

def isUndefined : Value → Bool
  | .undefined => true
  | _ => false

end Value
end Contracts
