import Contracts.Class.Basic
import Mathlib.Data.Nat.ModEq
import Mathlib.Data.List.Pairwise

/-!
# Contracts.Proofs.Symbols

The identities of symbols.

* `SymbolMove`    — a process makes a symbol, or does something that makes none.
* `made`          — the symbols that a process makes, in order.
* `id_getElem_made` — each has the number of the one before it, plus one, in 32 bits.
* `Class.methodKeys`, `Class.accessorKeys` — the keys that a class and its ancestors declare.
* `symbols_recur` — two symbols are the same if and only if their places differ by a multiple of
  `2 ^ 32`, and a member with a symbol for a key is reached with just those that are the same.
-/

namespace Contracts

variable {κ ε : Type}

/-! ## Making symbols -/

/-- What a process does next: it makes a symbol, or anything else that leaves the number of the next
symbol alone. What makes several symbols is cut into such pieces. -/
inductive SymbolMove (ε : Type) where
  | create (description : Option String)
  | other (step : World ε → World ε) (keeps : ∀ w, (step w).nextSymbol = w.nextSymbol)

/-- The description that a symbol is made with; none where none is made. -/
def SymbolMove.described? : SymbolMove ε → Option (Option String)
  | .create description => some description
  | .other _ _ => none

/-- Runs a process and gives the symbols that it makes. -/
def SymbolMove.runAll : List (SymbolMove ε) → Action (World ε) (List Symbol)
  | [] => pure []
  | .create description :: rest => do
    let s ← World.newSymbol description
    let ss ← runAll rest
    pure (s :: ss)
  | .other step _ :: rest => do
    modify step
    runAll rest

/-- The symbols that a process makes from a state on, in order. -/
def made : List (SymbolMove ε) → World ε → List Symbol
  | [], _ => []
  | .create description :: rest, w =>
    ⟨w.nextSymbol, description⟩ :: made rest { w with nextSymbol := w.nextSymbol + 1 }
  | .other step _ :: rest, w => made rest (step w)

theorem exec_runAll (moves : List (SymbolMove ε)) (w : World ε) :
    ((SymbolMove.runAll moves).exec w).1 = .ok (made moves w) := by
  induction moves generalizing w with
  | nil => rfl
  | cons move rest ih =>
    cases move with
    | create description =>
      have hrest := ih { w with nextSymbol := w.nextSymbol + 1 }
      have hnew : (World.newSymbol description).exec w =
        (.ok ⟨w.nextSymbol, description⟩, { w with nextSymbol := w.nextSymbol + 1 }) := rfl
      simp only [SymbolMove.runAll, Action.exec_bind, hnew, made]
      revert hrest
      rcases (SymbolMove.runAll rest).exec { w with nextSymbol := w.nextSymbol + 1 } with ⟨r, w'⟩
      rintro rfl
      rfl
    | other step keeps => exact ih (step w)

theorem map_description_made (moves : List (SymbolMove ε)) (w : World ε) :
    (made moves w).map (·.description) = moves.filterMap SymbolMove.described? := by
  induction moves generalizing w with
  | nil => rfl
  | cons move rest ih =>
    cases move with
    | create description => exact congrArg (description :: ·) (ih _)
    | other step keeps => exact ih (step w)

theorem length_made (moves : List (SymbolMove ε)) (w : World ε) :
    (made moves w).length = (moves.filterMap SymbolMove.described?).length := by
  rw [← map_description_made moves w, List.length_map]

/-- The numbers of symbols go up by one, in 32 bits, whatever is done in between. -/
theorem id_getElem_made {moves : List (SymbolMove ε)} {w : World ε} {i : Nat}
    (hi : i < (made moves w).length) :
    (made moves w)[i].id = w.nextSymbol + UInt32.ofNat i := by
  induction moves generalizing w i with
  | nil => exact absurd hi (Nat.not_lt_zero i)
  | cons move rest ih =>
    cases move with
    | create description =>
      cases i with
      | zero => exact (UInt32.add_zero _).symm
      | succ i =>
        have hrest := ih (w := { w with nextSymbol := w.nextSymbol + 1 })
          (Nat.lt_of_succ_lt_succ hi)
        simp only [made, List.getElem_cons_succ, hrest]
        rw [UInt32.add_assoc, UInt32.add_comm 1, UInt32.ofNat_add]
        rfl
    | other step keeps =>
      have hrest := ih (w := step w) hi
      rwa [keeps w] at hrest

/-- Two symbols have the same number if their places differ by a multiple of `2 ^ 32`. -/
theorem id_eq_iff {moves : List (SymbolMove ε)} {w : World ε}
    (i j : Fin (made moves w).length) :
    (made moves w)[i].id = (made moves w)[j].id ↔ i ≡ j [MOD 2 ^ 32] := by
  rw [Fin.getElem_fin, Fin.getElem_fin, id_getElem_made i.isLt, id_getElem_made j.isLt,
    UInt32.add_right_inj, ← UInt32.toNat_inj, UInt32.toNat_ofNat', UInt32.toNat_ofNat']
  rfl

theorem same_symbol_iff {s t : Symbol} : (Value.symbol s).same (.symbol t) = true ↔ s.id = t.id :=
  beq_iff_eq

theorem beq_symbol_iff {s t : Symbol} :
    (MemberKey.symbol s == MemberKey.symbol t) = true ↔ s.id = t.id :=
  beq_iff_eq (α := UInt32)

theorem beq_name_symbol (name : String) (s : Symbol) :
    (MemberKey.name name == MemberKey.symbol s) = false := rfl

/-- The numbers start over. -/
theorem id_again {moves : List (SymbolMove ε)} {w : World ε}
    (hfirst : 0 < (made moves w).length) (hlast : 2 ^ 32 < (made moves w).length) :
    (made moves w)[0].id = (made moves w)[2 ^ 32].id := by
  rw [id_getElem_made, id_getElem_made]
  rfl

theorem pairwise_made_iff {moves : List (SymbolMove ε)} {w : World ε} :
    (made moves w).Pairwise (fun s t => (Value.symbol s).same (.symbol t) = false) ↔
      (made moves w).length ≤ 2 ^ 32 := by
  rw [List.pairwise_iff_getElem]
  constructor
  · intro hdifferent
    by_contra hlong
    have hlast : 2 ^ 32 < (made moves w).length := Nat.lt_of_not_le hlong
    have hfirst : 0 < (made moves w).length := Nat.zero_lt_of_lt hlast
    have hne := hdifferent 0 (2 ^ 32) hfirst hlast (by decide)
    rw [same_symbol_iff.mpr (id_again hfirst hlast)] at hne
    cases hne
  · intro hshort i j hi hj hij
    rw [Bool.eq_false_iff, Ne, same_symbol_iff]
    intro hsame
    have hmod : i ≡ j [MOD 2 ^ 32] := (id_eq_iff ⟨i, hi⟩ ⟨j, hj⟩).mp hsame
    exact hij.ne (hmod.eq_of_lt_of_lt (hi.trans_le hshort) (hj.trans_le hshort))

/-! ## Members with symbols for keys -/

theorem Table.isSome_get?_iff {key α : Type} [BEq key] {t : Table key α} {k : key} :
    (t.get? k).isSome = true ↔ ∃ k' ∈ t.keys, (k' == k) = true := by
  obtain ⟨l⟩ := t
  simp only [get?, keys]
  induction l with
  | nil => simp [find]
  | cons e rest ih =>
    rw [find, List.map_cons]
    split <;> simp_all

namespace Class

def methodKeys (c : Class κ) : List MemberKey := c.layers.flatMap (·.methods.keys)

def accessorKeys (c : Class κ) : List MemberKey := c.layers.flatMap (·.accessors.keys)

/-- A look-up from class to class finds something if some key of theirs is the one asked for. -/
theorem isSome_lookUp_iff {α : Type} {c : Class κ} (t : Layer κ → Table MemberKey α)
    {key : MemberKey} :
    (c.layers.findSome? fun l => (t l).get? key).isSome = true ↔
      ∃ k ∈ c.layers.flatMap fun l => (t l).keys, (k == key) = true := by
  simp only [List.isSome_findSome?, List.any_eq_true, Table.isSome_get?_iff, List.mem_flatMap]
  constructor
  · rintro ⟨l, hl, k, hk, heq⟩
    exact ⟨k, ⟨l, hl, hk⟩, heq⟩
  · rintro ⟨k, ⟨l, hl, hk⟩, heq⟩
    exact ⟨l, hl, k, hk, heq⟩

end Class

/-- A symbol is the same as one of the keys if and only if it was made as many symbols before or
after it as a multiple of `2 ^ 32`. -/
theorem exists_beq_symbol_iff {moves : List (SymbolMove ε)} {w : World ε} {keys : List MemberKey}
    (hkeys : ∀ s, MemberKey.symbol s ∈ keys → s ∈ made moves w) (j : Fin (made moves w).length) :
    (∃ k ∈ keys, (k == MemberKey.symbol (made moves w)[j]) = true) ↔
      ∃ i : Fin (made moves w).length, MemberKey.symbol (made moves w)[i] ∈ keys ∧
        i ≡ j [MOD 2 ^ 32] := by
  constructor
  · rintro ⟨k, hk, heq⟩
    cases k with
    | name name =>
      rw [beq_name_symbol] at heq
      cases heq
    | symbol s =>
      obtain ⟨i, hi, rfl⟩ := List.mem_iff_getElem.mp (hkeys s hk)
      exact ⟨⟨i, hi⟩, hk, (id_eq_iff ⟨i, hi⟩ j).mp (beq_symbol_iff.mp heq)⟩
  · rintro ⟨i, hi, hij⟩
    exact ⟨_, hi, beq_symbol_iff.mpr ((id_eq_iff i j).mpr hij)⟩

/-- The symbols that a process makes are numbered in 32 bits. Two of them are the same, as values
and as keys, if and only if the number of symbols made from the one to the other is a multiple of
`2 ^ 32`; so the first `2 ^ 32` symbols are all different, and no longer run is. A member that is
declared with one of the symbols is reached with just those that are the same. -/
theorem symbols_recur (moves : List (SymbolMove ε)) (w : World ε) :
    ∃ ss, ((SymbolMove.runAll moves).exec w).1 = .ok ss ∧
      ss.map (·.description) = moves.filterMap SymbolMove.described? ∧
      (∀ i j : Fin ss.length,
        ((Value.symbol ss[i]).same (.symbol ss[j]) = true ↔ i ≡ j [MOD 2 ^ 32]) ∧
        ((MemberKey.symbol ss[i] == MemberKey.symbol ss[j]) = true ↔ i ≡ j [MOD 2 ^ 32])) ∧
      (ss.Pairwise (fun s t => (Value.symbol s).same (.symbol t) = false) ↔ ss.length ≤ 2 ^ 32) ∧
      ∀ c : Class κ, (∀ s, MemberKey.symbol s ∈ c.methodKeys ++ c.accessorKeys → s ∈ ss) →
        ∀ j : Fin ss.length,
          ((c.findMethod? (.symbol ss[j])).isSome = true ↔
            ∃ i : Fin ss.length, MemberKey.symbol ss[i] ∈ c.methodKeys ∧ i ≡ j [MOD 2 ^ 32]) ∧
          ((c.findAccessor? (.symbol ss[j])).isSome = true ↔
            ∃ i : Fin ss.length, MemberKey.symbol ss[i] ∈ c.accessorKeys ∧ i ≡ j [MOD 2 ^ 32]) := by
  refine ⟨made moves w, exec_runAll moves w, map_description_made moves w, ?_, ?_, ?_⟩
  · intro i j
    rw [same_symbol_iff, beq_symbol_iff, id_eq_iff]
    exact ⟨.rfl, .rfl⟩
  · exact pairwise_made_iff
  · intro c hc j
    have hmethods := exists_beq_symbol_iff (fun s hs => hc s (List.mem_append_left _ hs)) j
    have haccessors := exists_beq_symbol_iff (fun s hs => hc s (List.mem_append_right _ hs)) j
    exact ⟨(Class.isSome_lookUp_iff _).trans hmethods, (Class.isSome_lookUp_iff _).trans haccessors⟩

namespace Mint

def idle : World Unit := { mode := .holding .log, own := () }

/-- A class with one method, which is declared with the symbol. -/
def vault (key : Symbol) : Class Unit :=
  .extend (.build "Vault" none [(.symbol key, .method ())]) none

def key : Symbol := ⟨0, some "key"⟩

def spare : Symbol := ⟨1, some "spare"⟩

def issuing : List (SymbolMove Unit) := [.create (some "key"), .create (some "spare")]

/-- Of two symbols that are made in a row, the one opens and the other one does not. -/
theorem opened_by_key :
    ((SymbolMove.runAll issuing).exec idle).1 = .ok [key, spare] ∧
    (∀ s, MemberKey.symbol s ∈ (vault key).methodKeys ++ (vault key).accessorKeys →
      s ∈ [key, spare]) ∧
    ((vault key).findMethod? (.symbol key)).isSome = true ∧
    ((vault key).findMethod? (.symbol spare)).isSome = false := by
  obtain ⟨ss, hrun, -, -, -, hreached⟩ := symbols_recur (κ := Unit) issuing idle
  have hissued : ((SymbolMove.runAll issuing).exec idle).1 = .ok [key, spare] := rfl
  obtain rfl : [key, spare] = ss := Except.ok.inj (hissued.symm.trans hrun)
  have hkeys : ∀ s, MemberKey.symbol s ∈ (vault key).methodKeys ++ (vault key).accessorKeys →
      s ∈ [key, spare] := by
    intro s hs
    cases List.mem_singleton.mp hs
    exact .head _
  have hmethods := fun j => (hreached (vault key) hkeys j).1
  refine ⟨hissued, hkeys, (hmethods 0).mpr ⟨0, .head _, rfl⟩, ?_⟩
  rw [Bool.eq_false_iff]
  intro hopened
  obtain ⟨i, hi, hmod⟩ := (hmethods 1).mp hopened
  match i with
  | 0 => cases hmod
  | 1 => cases hi with | tail _ hi => cases hi

/-- One symbol more than there are numbers. -/
def minting : List (SymbolMove Unit) := List.replicate (2 ^ 32 + 1) (.create none)

theorem length_made_minting : (made minting idle).length = 2 ^ 32 + 1 := by
  have hmoves : minting.filterMap SymbolMove.described? = List.replicate (2 ^ 32 + 1) none :=
    List.filterMap_replicate_of_some rfl
  rw [length_made, hmoves, List.length_replicate]

/-- The last symbol is the first one again, and opens what was declared with that. -/
theorem first_again :
    ∃ ss, ((SymbolMove.runAll minting).exec idle).1 = .ok ss ∧
      ¬ ss.Pairwise (fun s t => (Value.symbol s).same (.symbol t) = false) ∧
      ∃ first last, ss[0]? = some first ∧ ss[2 ^ 32]? = some last ∧
        (Value.symbol first).same (.symbol last) = true ∧
        ((vault first).findMethod? (.symbol last)).isSome = true := by
  have hlast : 2 ^ 32 < (made minting idle).length := by
    rw [length_made_minting]
    exact Nat.lt_succ_self _
  have hfirst : 0 < (made minting idle).length := Nat.zero_lt_of_lt hlast
  have hsame := id_again hfirst hlast
  refine ⟨_, exec_runAll minting idle, ?_, _, _, List.getElem?_eq_getElem hfirst,
    List.getElem?_eq_getElem hlast, same_symbol_iff.mpr hsame, ?_⟩
  · rw [pairwise_made_iff, length_made_minting]
    exact Nat.not_succ_le_self _
  · exact (Class.isSome_lookUp_iff _).mpr
      ⟨_, List.mem_singleton.mpr rfl, beq_symbol_iff.mpr hsame⟩

end Mint

end Contracts
