import Contracts.Table
import Mathlib.Data.List.Forall2

/-!
# Contracts.Proofs.Relations

Answers, options and lists that are alike.

* `Ends`             — both give an answer, or both fail for the same cause.
* `EndsIn`           — the same, for causes that stand for each other.
* `map_eq_of_optionRel`, `map_eq_of_forall₂` — what is alike is shown alike.
* `Table.Alike`      — the same keys in the same order, with entries that are alike.
-/

namespace Contracts

open List (Forall₂)

variable {α β γ ξ : Type}

/-- Both give an answer, or both fail for the same cause. -/
inductive Ends (R : α → β → Prop) : Except ξ α → Except ξ β → Prop where
  | ok {a : α} {b : β} (h : R a b) : Ends R (.ok a) (.ok b)
  | error (c : ξ) : Ends R (.error c) (.error c)

theorem Ends.refl {R : α → α → Prop} (hR : ∀ a, R a a) (x : Except ξ α) : Ends R x x := by
  cases x with
  | error c => exact .error c
  | ok a => exact .ok (hR a)

theorem Ends.imp {R R' : α → β → Prop} (hR : ∀ a b, R a b → R' a b) {x : Except ξ α}
    {y : Except ξ β} (h : Ends R x y) : Ends R' x y := by
  cases h with
  | ok hab => exact .ok (hR _ _ hab)
  | error c => exact .error c

theorem Ends.eq {x y : Except ξ α} (h : Ends Eq x y) : x = y := by
  cases h with
  | ok hab => rw [hab]
  | error c => rfl

/-- Both give an answer, or both fail, for causes that stand for each other. -/
inductive EndsIn {ζ : Type} (E : ξ → ζ → Prop) (R : α → β → Prop) :
    Except ξ α → Except ζ β → Prop where
  | ok {a : α} {b : β} (h : R a b) : EndsIn E R (.ok a) (.ok b)
  | error {c : ξ} {d : ζ} (h : E c d) : EndsIn E R (.error c) (.error d)

theorem endsIn_eq {R : α → β → Prop} : (EndsIn Eq R : Except ξ α → Except ξ β → Prop) = Ends R := by
  funext x y
  refine propext ⟨fun h => ?_, fun h => ?_⟩
  · cases h with
    | ok hab => exact .ok hab
    | error h => exact h ▸ .error _
  · cases h with
    | ok hab => exact .ok hab
    | error c => exact .error rfl

theorem ends_eq : (Ends Eq : Except ξ α → Except ξ α → Prop) = Eq := by
  funext x y
  exact propext ⟨Ends.eq, fun h => h ▸ .refl (fun _ => rfl) x⟩

theorem optionRel_mono {R R' : α → β → Prop} (h : ∀ a b, R a b → R' a b)
    {x : Option α} {y : Option β} (hxy : Option.Rel R x y) : Option.Rel R' x y := by
  cases hxy with
  | none => exact .none
  | some hab => exact .some (h _ _ hab)

theorem eq_of_optionRel {x y : Option α} (h : Option.Rel Eq x y) : x = y := by
  cases h with
  | none => rfl
  | some hab => rw [hab]

theorem optionRel_isSome {R : α → β → Prop} {x : Option α} {y : Option β}
    (hxy : Option.Rel R x y) : x.isSome = y.isSome := by
  cases hxy <;> rfl

theorem map_rel {γ' : Type} {R : α → β → Prop} {Q : γ → γ' → Prop} {f : α → γ} {g : β → γ'}
    (hfg : ∀ a b, R a b → Q (f a) (g b)) {x : Option α} {y : Option β} (hxy : Option.Rel R x y) :
    Option.Rel Q (x.map f) (y.map g) := by
  cases hxy with
  | none => exact .none
  | some hab => exact .some (hfg _ _ hab)

theorem getD_rel {R : α → β → Prop} {x : Option α} {y : Option β} (hxy : Option.Rel R x y) {a : α}
    {b : β} (hab : R a b) : R (x.getD a) (y.getD b) := by
  cases hxy with
  | none => exact hab
  | some h => exact h

theorem map_eq_of_optionRel {R : α → β → Prop} {f : α → γ} {g : β → γ}
    (hfg : ∀ a b, R a b → f a = g b) {x : Option α} {y : Option β} (hxy : Option.Rel R x y) :
    x.map f = y.map g := by
  cases hxy with
  | none => rfl
  | some hab => simp only [Option.map_some, hfg _ _ hab]

theorem map_eq_of_forall₂ {R : α → β → Prop} {f : α → γ} {g : β → γ}
    (hfg : ∀ a b, R a b → f a = g b) {as : List α} {bs : List β} (h : Forall₂ R as bs) :
    as.map f = bs.map g := by
  induction h with
  | nil => rfl
  | cons hab _ ih => rw [List.map_cons, List.map_cons, hfg _ _ hab, ih]

/-! ## Lists that are alike, item by item -/

section

variable {R : α → β → Prop} {as : List α} {bs : List β}

/-- What is found first in lists that are alike is alike, if it is item by item. -/
theorem findSome?_rel {γ' : Type} {Q : γ → γ' → Prop} {f : α → Option γ} {g : β → Option γ'}
    (hfg : ∀ a b, R a b → Option.Rel Q (f a) (g b)) (h : Forall₂ R as bs) :
    Option.Rel Q (as.findSome? f) (bs.findSome? g) := by
  induction h with
  | nil => exact .none
  | @cons a b as bs hab _ ih =>
    have hfirst := hfg a b hab
    simp only [List.findSome?_cons]
    revert hfirst
    generalize f a = x
    generalize g b = y
    rintro (hxy | _)
    · exact .some hxy
    · exact ih

theorem forall₂_getElem? (h : Forall₂ R as bs) (n : Nat) : Option.Rel R as[n]? bs[n]? := by
  induction h generalizing n with
  | nil => exact .none
  | cons hab _ ih =>
    cases n with
    | zero => exact .some hab
    | succ n => exact ih n

theorem forall₂_set (h : Forall₂ R as bs) {a : α} {b : β} (hab : R a b) (n : Nat) :
    Forall₂ R (as.set n a) (bs.set n b) := by
  induction h generalizing n with
  | nil => exact .nil
  | cons hxy hs ih =>
    cases n with
    | zero => exact .cons hab hs
    | succ n => exact .cons hxy (ih n)

theorem forall₂_replicate {a : α} {b : β} (hab : R a b) (n : Nat) :
    Forall₂ R (List.replicate n a) (List.replicate n b) := by
  induction n with
  | zero => exact .nil
  | succ n ih => exact .cons hab ih

theorem forall₂_eraseIdx (h : Forall₂ R as bs) (n : Nat) :
    Forall₂ R (as.eraseIdx n) (bs.eraseIdx n) := by
  induction h generalizing n with
  | nil => exact .nil
  | cons hxy hs ih =>
    cases n with
    | zero => exact hs
    | succ n => exact .cons hxy (ih n)

end

/-! ## Tables that are alike, entry by entry -/

namespace Table

variable {κ : Type} {R R' : α → β → Prop}

/-- The same keys in the same order, with entries that are alike. -/
def Alike (R : α → β → Prop) (t : Table κ α) (t' : Table κ β) : Prop :=
  Forall₂ (fun p q => p.1 = q.1 ∧ R p.2 q.2) t.entries t'.entries

namespace Alike

variable {t : Table κ α} {t' : Table κ β}

theorem mono (hR : ∀ a b, R a b → R' a b) (h : t.Alike R t') : t.Alike R' t' :=
  List.Forall₂.imp (fun _ _ hp => ⟨hp.1, hR _ _ hp.2⟩) h

theorem keys_eq (h : t.Alike R t') : t.keys = t'.keys :=
  map_eq_of_forall₂ (fun _ _ hp => hp.1) h

theorem size_eq (h : t.Alike R t') : t.size = t'.size :=
  List.Forall₂.length_eq h

theorem filter (h : t.Alike R t') (p : κ → Bool) : (t.filter p).Alike R (t'.filter p) := by
  obtain ⟨l⟩ := t
  obtain ⟨l'⟩ := t'
  simp only [Alike] at h
  induction h with
  | nil => exact .nil
  | @cons e e' l l' he _ ih =>
    obtain ⟨k, a⟩ := e
    obtain ⟨_, b⟩ := e'
    obtain ⟨rfl, hab⟩ := he
    simp only [Alike, Table.filter, List.filter_cons] at ih ⊢
    split
    · exact .cons ⟨rfl, hab⟩ ih
    · exact ih

theorem map {γ' : Type} {Q : γ → γ' → Prop} {f : κ → α → γ} {g : κ → β → γ'} (h : t.Alike R t')
    (hfg : ∀ k a b, R a b → Q (f k a) (g k b)) : (t.map f).Alike Q (t'.map g) := by
  refine List.forall₂_map_left_iff.mpr (List.forall₂_map_right_iff.mpr (List.Forall₂.imp ?_ h))
  rintro ⟨k, a⟩ ⟨_, b⟩ ⟨rfl, hab⟩
  exact ⟨rfl, hfg k a b hab⟩

variable [BEq κ]

theorem find {as : List (κ × α)} {bs : List (κ × β)}
    (h : Forall₂ (fun p q => p.1 = q.1 ∧ R p.2 q.2) as bs) (k : κ) :
    Option.Rel R (Table.find k as) (Table.find k bs) := by
  induction h with
  | nil => exact .none
  | @cons e e' as bs he _ ih =>
    obtain ⟨k', a⟩ := e
    obtain ⟨_, b⟩ := e'
    obtain ⟨rfl, hab⟩ := he
    simp only [Table.find]
    split
    · exact .some hab
    · exact ih

theorem get? (h : t.Alike R t') (k : κ) : Option.Rel R (t.get? k) (t'.get? k) := find h k

theorem put {as : List (κ × α)} {bs : List (κ × β)}
    (h : Forall₂ (fun p q => p.1 = q.1 ∧ R p.2 q.2) as bs) (k : κ) {a : α} {b : β} (hab : R a b) :
    Forall₂ (fun p q => p.1 = q.1 ∧ R p.2 q.2) (Table.put k a as) (Table.put k b bs) := by
  induction h with
  | nil => exact .cons ⟨rfl, hab⟩ .nil
  | @cons e e' as bs he hrest ih =>
    obtain ⟨k', a'⟩ := e
    obtain ⟨_, b'⟩ := e'
    obtain ⟨rfl, hab'⟩ := he
    simp only [Table.put]
    split
    · exact .cons ⟨rfl, hab⟩ hrest
    · exact .cons ⟨rfl, hab'⟩ ih

theorem insert (h : t.Alike R t') (k : κ) {a : α} {b : β} (hab : R a b) :
    (t.insert k a).Alike R (t'.insert k b) := put h k hab

theorem erase (h : t.Alike R t') (k : κ) : (t.erase k).Alike R (t'.erase k) :=
  h.filter fun k' => !(k' == k)

theorem ofList {as : List (κ × α)} {bs : List (κ × β)}
    (h : Forall₂ (fun p q => p.1 = q.1 ∧ R p.2 q.2) as bs) :
    (Table.ofList as).Alike R (Table.ofList bs) := by
  have hfold : ∀ {t : Table κ α} {t' : Table κ β}, t.Alike R t' →
      (as.foldl (fun t (k, a) => t.insert k a) t).Alike R
        (bs.foldl (fun t (k, a) => t.insert k a) t') := by
    induction h with
    | nil => exact id
    | @cons e e' as bs he _ ih =>
      obtain ⟨k, a⟩ := e
      obtain ⟨_, b⟩ := e'
      obtain ⟨rfl, hab⟩ := he
      exact fun ht => ih (ht.insert k hab)
  exact hfold .nil

end Alike

end Table

end Contracts
