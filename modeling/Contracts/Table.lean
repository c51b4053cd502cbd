/-!
# Contracts.Table

Tables that keep the order in which their keys were first written.

* `Table κ α`      — entries in order, at most one for a key.
* `get?`, `insert` — look-up, and a write that keeps the place of a key already present.
* `erase`, `map`, `filter` — removal, and changes that keep the order of what stays.
-/

namespace Contracts

structure Table (κ α : Type) where
  entries : List (κ × α) := []

namespace Table

variable {κ α β : Type}

def empty : Table κ α := {}

def keys (t : Table κ α) : List κ := t.entries.map (·.1)

def size (t : Table κ α) : Nat := t.entries.length

/-- Changes the values, each with its key at hand. -/
def map (f : κ → α → β) (t : Table κ α) : Table κ β :=
  ⟨t.entries.map fun (k, a) => (k, f k a)⟩

def filter (p : κ → Bool) (t : Table κ α) : Table κ α :=
  ⟨t.entries.filter fun (k, _) => p k⟩

variable [BEq κ]

def find (k : κ) : List (κ × α) → Option α
  | [] => none
  | (k', a) :: rest => if k' == k then some a else find k rest

def get? (t : Table κ α) (k : κ) : Option α := find k t.entries

/-- Replaces the value of a key in its place, and appends a new key. -/
def put (k : κ) (a : α) : List (κ × α) → List (κ × α)
  | [] => [(k, a)]
  | (k', a') :: rest => if k' == k then (k', a) :: rest else (k', a') :: put k a rest

def insert (t : Table κ α) (k : κ) (a : α) : Table κ α := ⟨put k a t.entries⟩

def erase (t : Table κ α) (k : κ) : Table κ α := ⟨t.entries.filter fun (k', _) => !(k' == k)⟩

/-- The table of a list of writes, made from left to right. -/
def ofList (entries : List (κ × α)) : Table κ α :=
  entries.foldl (fun t (k, a) => t.insert k a) empty

/-! ## What a write does to the look-up -/

section
variable [LawfulBEq κ]

theorem find_put_self (k : κ) (a : α) (l : List (κ × α)) : find k (put k a l) = some a := by
  induction l with
  | nil => simp [put, find]
  | cons e rest ih =>
    simp only [put]
    split
    · simp_all [find]
    · simp_all [find]

theorem find_put_of_ne {k k' : κ} (h : k' ≠ k) (a : α) (l : List (κ × α)) :
    find k' (put k a l) = find k' l := by
  induction l with
  | nil => simp [put, find, Ne.symm h]
  | cons e rest ih =>
    simp only [put]
    split
    · rename_i he
      have hk : e.1 = k := eq_of_beq he
      simp [find, hk, Ne.symm h]
    · simp only [find, ih]

@[simp] theorem get?_insert_self (t : Table κ α) (k : κ) (a : α) :
    (t.insert k a).get? k = some a := find_put_self k a t.entries

theorem get?_insert_of_ne {k k' : κ} (h : k' ≠ k) (t : Table κ α) (a : α) :
    (t.insert k a).get? k' = t.get? k' := find_put_of_ne h a t.entries

end

end Table
end Contracts
