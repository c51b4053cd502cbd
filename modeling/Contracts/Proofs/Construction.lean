import Contracts.Class.Instance
import Contracts.Proofs.Accounts
import Contracts.Proofs.Confinement

/-!
# Contracts.Proofs.Construction

How an object is set up along a chain of classes.

* `Layer.SetsUp` — what one layer does to a new object: it runs its initializer, or it checks,
  traces and reports its invariant.
* `Agreed`       — layers that let the construction go on, one after the other.
* `Visited`      — a visit of all layers, or up to the first one that does not let it go on.
* `constructs_along_chain` — a construction is a visit of the layers, from the root down, with a
  fresh record.
-/

namespace Contracts

variable {κ ε : Type}

/-! ## One layer -/

inductive Layer.SetsUp (host : Host κ ε) (this : Value) (args : List Value) (l : Layer κ)
    (w : World ε) : Except Abort (Except ContractError Unit) → World ε → Prop where
  /-- A declared class without an initializer does nothing. -/
  | bare (hl : l.construction = .initializer none) : SetsUp host this args l w (.ok (.ok ())) w
  /-- The initializer decides, also with an error. -/
  | initialized {code : κ} {r : Except Abort (Except ContractError Unit)} {w' : World ε}
      (hl : l.construction = .initializer (some code))
      (h : (host.setUp code this args).exec w = (r, w')) : SetsUp host this args l w r w'
  | held {c : ClassContract κ} {w₁ w' : World ε} (hl : l.construction = .contract c)
      (h : (host.holds c.invariant this).exec w = (.ok (.ready true), w₁))
      (ht : Traced host {
          kind := .construction
          className := l.name
          member := "constructor"
          input := .args args
          result := none
          passed := true
          failure := none } c.trace w₁ w') : SetsUp host this args l w (.ok (.ok ())) w'
  /-- A false invariant is traced, and its violation is raised or written down. -/
  | failed {c : ClassContract κ} {w₁ w₂ w' : World ε} {verdict : Except ContractError Unit}
      (hl : l.construction = .contract c)
      (h : (host.holds c.invariant this).exec w = (.ok (.ready false), w₁))
      (ht : Traced host {
          kind := .construction
          className := l.name
          member := "constructor"
          input := .args args
          result := none
          passed := false
          failure := some .constantConstructor } c.trace w₁ w₂)
      (hr : Reported c.mode {
          failure := .constantConstructor
          className := l.name
          member := none
          message := "Constant failed after constructor: " ++ l.name } w₂ verdict w') :
      SetsUp host this args l w (.ok verdict) w'
  /-- An answer that is not there at once is an error in every mode, neither traced nor reported. -/
  | pending {c : ClassContract κ} {t : Future (World ε) Bool} {w' : World ε}
      (hl : l.construction = .contract c)
      (h : (host.holds c.invariant this).exec w = (.ok (.pending t), w')) :
      SetsUp host this args l w (.ok (.error (.configuration
        ("invariant of " ++ l.name ++ " must resolve synchronously at construction")))) w'
  | gaveUp {c : ClassContract κ} {cause : Abort} {w' : World ε}
      (hl : l.construction = .contract c)
      (h : (host.holds c.invariant this).exec w = (.error cause, w')) :
      SetsUp host this args l w (.error cause) w'

section
variable {host : Host κ ε} {this : Value} {args : List Value} {w w' : World ε}
  {r : Except Abort (Except ContractError Unit)}

theorem ClassContract.exec_check {c : ClassContract κ} {className : String} {held : Bool}
    {w₁ : World ε} (h : (host.holds c.invariant this).exec w = (.ok (.ready held), w₁)) :
    (c.check host className this args).exec w =
      (c.trace.emit host (traceEvent className args held) >>= fun _ =>
        if held then pure (.ok ())
        else report c.mode (.about .constantConstructor className none className)).exec w₁ := by
  rw [check, Action.exec_bind, h]

theorem Layer.exec_setUp_iff {l : Layer κ} :
    (l.setUp host this args).exec w = (r, w') ↔ l.SetsUp host this args w r w' := by
  constructor
  · intro h
    rw [setUp] at h
    split at h
    · next hl =>
      cases h
      exact .bare hl
    · next code hl => exact .initialized hl h
    · next c hl =>
      rw [ClassContract.check, Action.exec_bind] at h
      rcases hholds : (host.holds c.invariant this).exec w with ⟨cause | answer, w₁⟩ <;>
        rw [hholds] at h
      · cases h
        exact .gaveUp hl hholds
      · rcases answer with held | t
        · obtain ⟨w₂, ht, h⟩ := exec_emit_bind_iff.mp h
          cases held with
          | true =>
            cases h
            exact .held hl hholds ht
          | false =>
            obtain ⟨verdict, rfl, hr⟩ := exec_report_eq_iff.mp h
            exact .failed hl hholds ht hr
        · cases h
          exact .pending hl hholds
  · intro h
    cases h with
    | bare hl => rw [setUp, hl, Action.exec_pure]
    | initialized hl h => rw [setUp, hl, h]
    | held hl h ht =>
      simp only [setUp, hl, ClassContract.exec_check h]
      exact exec_emit_bind_iff.mpr ⟨_, ht, rfl⟩
    | failed hl h ht hr =>
      simp only [setUp, hl, ClassContract.exec_check h]
      exact exec_emit_bind_iff.mpr ⟨_, ht, exec_report_iff.mpr hr⟩
    | pending hl h =>
      simp only [setUp, hl, ClassContract.check, Action.exec_bind, h]
      rfl
    | gaveUp hl h => simp only [setUp, hl, ClassContract.check, Action.exec_bind, h]

/-! ## All layers -/

/-- Every layer was visited, in order, and none was in the way. -/
inductive Agreed (host : Host κ ε) (this : Value) (args : List Value) :
    List (Layer κ) → World ε → World ε → Prop where
  | nil (w : World ε) : Agreed host this args [] w w
  | cons {l : Layer κ} {rest : List (Layer κ)} {w w₁ w' : World ε}
      (h : l.SetsUp host this args w (.ok (.ok ())) w₁) (hs : Agreed host this args rest w₁ w') :
      Agreed host this args (l :: rest) w w'

/-- The layers were visited in order, all of them or up to the first that was in the way. -/
inductive Visited (host : Host κ ε) (this : Value) (args : List Value) :
    List (Layer κ) → World ε → Except Abort (Except ContractError Unit) → World ε → Prop where
  | all {layers : List (Layer κ)} {w w' : World ε} (h : Agreed host this args layers w w') :
      Visited host this args layers w (.ok (.ok ())) w'
  | upTo {before after : List (Layer κ)} {l : Layer κ} {w w₁ w' : World ε}
      {r : Except Abort (Except ContractError Unit)} (h : Agreed host this args before w w₁)
      (hl : l.SetsUp host this args w₁ r w') (hr : r ≠ .ok (.ok ())) :
      Visited host this args (before ++ l :: after) w r w'

theorem Visited.cons {l : Layer κ} {rest : List (Layer κ)} {w₁ : World ε}
    (h : l.SetsUp host this args w (.ok (.ok ())) w₁)
    (hs : Visited host this args rest w₁ r w') : Visited host this args (l :: rest) w r w' := by
  cases hs with
  | all hs => exact .all (.cons h hs)
  | upTo hs hl hr => exact .upTo (.cons h hs) hl hr

theorem exec_setUpLayers_cons {l : Layer κ} {rest : List (Layer κ)} :
    (setUpLayers host this args (l :: rest)).exec w =
      match (l.setUp host this args).exec w with
      | (.ok (.ok ()), w₁) => (setUpLayers host this args rest).exec w₁
      | stopped => stopped := by
  rw [setUpLayers, Action.exec_bind]
  rcases (l.setUp host this args).exec w with ⟨cause | err | _, w₁⟩
  · rfl
  · rfl
  · rfl

theorem exec_setUpLayers_of_agreed {before : List (Layer κ)} {w₁ : World ε}
    (h : Agreed host this args before w w₁) (after : List (Layer κ)) :
    (setUpLayers host this args (before ++ after)).exec w =
      (setUpLayers host this args after).exec w₁ := by
  induction h with
  | nil w => rfl
  | cons h _ ih =>
    rw [List.cons_append, exec_setUpLayers_cons, Layer.exec_setUp_iff.mpr h]
    exact ih

theorem exec_setUpLayers_iff {layers : List (Layer κ)} :
    (setUpLayers host this args layers).exec w = (r, w') ↔
      Visited host this args layers w r w' := by
  constructor
  · intro h
    induction layers generalizing w with
    | nil =>
      cases h
      exact .all (.nil _)
    | cons l rest ih =>
      rw [exec_setUpLayers_cons] at h
      split at h
      · next w₁ hl => exact .cons (Layer.exec_setUp_iff.mp hl) (ih h)
      · next hstop =>
        have hr : r ≠ .ok (.ok ()) := by
          rintro rfl
          exact hstop _ h
        have hfirst : Visited host this args ([] ++ l :: rest) _ r w' :=
          .upTo (.nil _) (Layer.exec_setUp_iff.mp h) hr
        exact hfirst
  · intro h
    cases h with
    | all h =>
      have hall := exec_setUpLayers_of_agreed h []
      rwa [List.append_nil] at hall
    | upTo h hl hr =>
      rw [exec_setUpLayers_of_agreed h, exec_setUpLayers_cons, Layer.exec_setUp_iff.mpr hl]
      split
      · next hstop =>
        cases hstop
        exact absurd rfl hr
      · rfl

theorem Class.exec_construct_eq (host : Host κ ε) (c : Class κ) (args : List Value)
    (w : World ε) : (c.construct host args).exec w =
      ((setUpLayers host (.object ⟨w.heap.size⟩) args c.layers.reverse).exec
        { w with heap := (w.heap.alloc { className := some c.name }).2 }).map
        (·.map (·.map fun () => ⟨c, .object ⟨w.heap.size⟩⟩)) id := by
  have hnew : (w.heap.alloc { className := some c.name }).1 = ⟨w.heap.size⟩ := rfl
  simp only [Class.construct, Action.exec_bind, World.exec_newRecord, hnew]
  rcases (setUpLayers host (.object ⟨w.heap.size⟩) args c.layers.reverse).exec _ with
    ⟨cause | err | _, w₁⟩
  · rfl
  · rfl
  · rfl

/-- A construction is a visit of the layers with a new record, which bears the name of the class.
It comes to an instance if no layer is in the way, and otherwise to the error of the first that
is. -/
theorem constructs_along_chain (host : Host κ ε) (c : Class κ) (args : List Value) (w : World ε) :
    let this : Ref := ⟨w.heap.size⟩
    let made : World ε := { w with heap := (w.heap.alloc { className := some c.name }).2 }
    (w.heap.record? this = none ∧ made.heap.record? this = some { className := some c.name } ∧
      ∀ other, other ≠ this → made.heap.record? other = w.heap.record? other) ∧
    ∀ r w', (c.construct host args).exec w = (r, w') ↔
      ∃ verdict, Visited host (.object this) args c.layers.reverse made verdict w' ∧
        r = verdict.map (·.map fun () => ⟨c, .object this⟩) := by
  intro this made
  refine ⟨⟨?_, ?_, fun other hother => ?_⟩, fun r w' => ?_⟩
  · exact Array.getElem?_eq_none (Nat.le_refl _)
  · rw [Heap.record?_alloc, if_pos rfl]
  · rw [Heap.record?_alloc, if_neg]
    exact fun hindex => hother (congrArg Ref.mk hindex)
  · simp only [← exec_setUpLayers_iff, Class.exec_construct_eq]
    constructor
    · intro h
      cases h
      exact ⟨_, rfl, rfl⟩
    · rintro ⟨verdict, hset, rfl⟩
      rw [hset]
      rfl

end

end Contracts
