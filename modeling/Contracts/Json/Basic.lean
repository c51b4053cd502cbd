/-!
# Contracts.Json.Basic

JSON trees.

* `JsonTree S` — trees over a type `S` of texts; members stay in the order written, and a number
  is kept as its literal, so that nothing is rounded.
* `Json`       — trees whose texts are strings.
* `JsonTree.denote?` — the tree of strings behind a tree whose texts may fail to name a string.
-/

namespace Contracts

inductive JsonTree (S : Type) where
  | null
  | bool (b : Bool)
  | number (literal : String)
  | string (text : S)
  | array (items : List (JsonTree S))
  | object (members : List (S × JsonTree S))

abbrev Json := JsonTree String

namespace JsonTree

mutual

/-- The tree of strings, when every text of the tree names one. -/
def denote? : JsonTree (Option String) → Option Json
  | .null => some .null
  | .bool b => some (.bool b)
  | .number l => some (.number l)
  | .string s => s.map .string
  | .array items => (denoteItems? items).map .array
  | .object members => (denoteMembers? members).map .object

def denoteItems? : List (JsonTree (Option String)) → Option (List Json)
  | [] => some []
  | j :: rest => do
    let j ← denote? j
    let rest ← denoteItems? rest
    pure (j :: rest)

def denoteMembers? : List (Option String × JsonTree (Option String)) →
    Option (List (String × Json))
  | [] => some []
  | (k, j) :: rest => do
    let k ← k
    let j ← denote? j
    let rest ← denoteMembers? rest
    pure ((k, j) :: rest)

end

/-- The value of the first member called `key`, in an object. -/
def member? (key : String) : Json → Option Json
  | .object members => members.lookup key
  | _ => none

end JsonTree
end Contracts
