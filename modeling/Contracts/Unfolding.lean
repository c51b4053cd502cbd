import Contracts.Heap

/-!
# Contracts.Unfolding

The tree that a value unfolds to when its references are followed.

* `Tree`        — a value with the contents of its records in place of references.
* `Heap.expand` — the tree of a record on a path of enclosing records.
* `Heap.unfold` — the tree of a value.

A record that is one of its own ancestors on the path becomes `cycle`, and one that a writer holds
becomes `held`. A path holds no record twice, so it is never longer than the heap, and the number
of records bounds the depth.
-/

namespace Contracts

inductive Tree where
  | scalar (s : Scalar)
  | array (items : List Tree)
  | object (className : Option String) (fields : List (String × Tree))
  /-- A record inside itself. -/
  | cycle
  /-- A record that cannot be read. -/
  | held

mutual

/-- The tree of a value, once the tree of each record is known. -/
def Value.unfoldWith (expand : Ref → Tree) : Value → Tree
  | .scalar s => .scalar s
  | .array items => .array (unfoldItems expand items)
  | .object r => expand r

def unfoldItems (expand : Ref → Tree) : List Value → List Tree
  | [] => []
  | v :: rest => Value.unfoldWith expand v :: unfoldItems expand rest

end

namespace Heap

/-- The tree of a record that is met below the records of `path`. -/
def expand (h : Heap) : Nat → List Ref → Ref → Tree
  | 0, _, _ => .cycle
  | depth + 1, path, r =>
    if r ∈ path then .cycle
    else
      match h.readable? r with
      | none => .held
      | some rec =>
        .object rec.className
          (rec.fields.entries.map fun (k, v) =>
            (k, v.unfoldWith (h.expand depth (r :: path))))

def unfold (h : Heap) (v : Value) : Tree := v.unfoldWith (h.expand (h.size + 1) [])

end Heap
end Contracts
