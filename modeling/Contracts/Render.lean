import Contracts.Json.Writer
import Contracts.Unfolding

/-!
# Contracts.Render

Values as text.

* `jsonNumber`      — the JSON form of a number, an integer where that loses nothing.
* `Tree.json?`      — the JSON form of an unfolded value; a held record has none.
* `Heap.toJson`     — the JSON form of a value, or its text where there is none.
* `Heap.coerce?`    — the fallback for values with held records: lists joined by commas, objects
  as `[object Name]`.
* `Heap.render`, `Heap.renderArgs` — the text of a value and of an argument list in messages.
-/

namespace Contracts

variable [JsonWriter]

def functionText (name : Option String) : String :=
  "[Function " ++ (match name with | none | some "" => "anonymous" | some n => n) ++ "]"

/-- The JSON form of a number. What is not finite has no literal and is `null`. -/
def jsonNumber (x : Float) : Json :=
  match safeInteger? x with
  | some n => .number (JsonWriter.integer n)
  | none => ((JsonWriter.double? x).map .number).getD .null

namespace Scalar

/-- The text of a number: as in lists and objects if it is finite, and without the sign of a
zero. -/
def numberText (n : Float) : String :=
  if n.isNaN then "NaN"
  else if n.isInf then if 0 < n then "Infinity" else "-Infinity"
  else if n == 0 then "0"
  else (jsonNumber n).compact

/-- The text of a scalar outside of lists and objects. -/
def text : Scalar → String
  | .undefined => "undefined"
  | .null => "null"
  | .bool true => "true"
  | .bool false => "false"
  | .number n => numberText n
  | .string s => JsonWriter.quote s
  | .symbol s => s.text
  | .function name => functionText name

/-- The JSON form of a scalar. For `undefined` it is `null`. -/
def json : Scalar → Json
  | .undefined | .null => .null
  | .bool b => .bool b
  | .number n => jsonNumber n
  | .string s => .string s
  | .symbol s => .string s.text
  | .function name => .string (functionText name)

end Scalar

/-! ## The JSON form -/

/-- The mark of a record inside itself. -/
def circularMark : String := "[Circular]"

def unrenderable : String := "[Unrenderable]"

namespace Tree

def isUndefined : Tree → Bool
  | .scalar .undefined => true
  | _ => false

mutual

/-- The JSON form of a tree. Fields that are `undefined` are left out. -/
def json? : Tree → Option Json
  | .scalar s => some s.json
  | .array items => (jsonItems? items).map .array
  | .object _ fields => (jsonFields? fields).map .object
  | .cycle => some (.string circularMark)
  | .held => none

def jsonItems? : List Tree → Option (List Json)
  | [] => some []
  | t :: rest => do
    let j ← json? t
    let rest ← jsonItems? rest
    pure (j :: rest)

def jsonFields? : List (String × Tree) → Option (List (String × Json))
  | [] => some []
  | (key, t) :: rest =>
    if t.isUndefined then jsonFields? rest
    else do
      let j ← json? t
      let rest ← jsonFields? rest
      pure ((key, j) :: rest)

end

end Tree

namespace Heap

/-- The JSON form of a value with its records read from the heap. -/
def json? (h : Heap) (v : Value) : Option Json := (h.unfold v).json?

/-! ## Text -/

mutual

/-- A value in one line without looking into objects. In a list, `undefined` and `null` are empty
and strings are not quoted. -/
def coerce? (h : Heap) : Value → Option String
  | .scalar (.string s) => some s
  | .scalar s => some s.text
  | .array items => (coerceItems? h items).map (String.intercalate ",")
  | .object r => (h.readable? r).map fun rec =>
      "[object " ++ rec.className.getD "Object" ++ "]"

def coerceItems? (h : Heap) : List Value → Option (List String)
  | [] => some []
  | v :: rest => do
    let text ← match v with
      | .scalar .undefined | .scalar .null => some ""
      | v => coerce? h v
    let rest ← coerceItems? h rest
    pure (text :: rest)

end

/-- The text of a list or an object: its JSON form, else its coercion, else a placeholder. -/
def renderParts (h : Heap) (v : Value) : String :=
  match h.json? v with
  | some j => j.compact
  | none => (h.coerce? v).getD unrenderable

def render (h : Heap) : Value → String
  | .scalar s => s.text
  | v => h.renderParts v

def renderArgs (h : Heap) (args : List Value) : String :=
  String.intercalate ", " (args.map h.render)

/-- The JSON form of a value; a value without one is carried as its text. -/
def toJson (h : Heap) (v : Value) : Json := (h.json? v).getD (.string (h.render v))

end Heap
end Contracts
