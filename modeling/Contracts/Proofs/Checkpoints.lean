import Contracts.Proofs.Deeds

/-!
# Contracts.Proofs.Checkpoints

The four checkpoints of a call, at which its contract may have a check or none.

* `Frame.AtGuard`  — what happens at a checkpoint.
* `enters_entry`, `leaves_exit` — the two checkpoints before the operation and the two after it.
* `Filled`         — the checks of an account, one by one.
* `slot_evaluation` — each check of an account fills its own slot of the evaluation.
-/

namespace Contracts

variable {κ ε : Type}

namespace Frame

/-- What happens at a checkpoint: nothing, if the contract has no such check, or the check is
made. -/
inductive AtGuard (R : World ε → World ε → Prop) (host : Host κ ε) (f : Frame κ) (g : Guard)
    (result : Option Value) :
    Option κ → World ε → Option (Finding κ ε) → Except ContractError Bool → World ε → Prop where
  | absent (w : World ε) : AtGuard R host f g result none w none (.ok true) w
  | made {x : Finding κ ε} {verdict : Except ContractError Bool} {w' : World ε} (hg : x.guard = g)
      (hn : x.result = result) (hx : f.Examined R host x verdict w') :
      AtGuard R host f g result (some x.code) x.begun (some x) verdict w'

variable {R : World ε → World ε → Prop} {host : Host κ ε} {f : Frame κ} {g : Guard}
  {result : Option Value} {code : Option κ} {w w' : World ε}

theorem AtGuard.guard {x : Option (Finding κ ε)} {verdict : Except ContractError Bool}
    (h : f.AtGuard R host g result code w x verdict w') : ∀ y ∈ x, y.guard = g := by
  cases h with
  | absent => simp
  | made hg _ _ => simpa using hg

/-- Before the operation a call goes on just if no check fails. -/
theorem AtGuard.eq_ok_true_iff {x : Option (Finding κ ε)} {verdict : Except ContractError Bool}
    (h : f.AtGuard R host g result code w x verdict w') :
    verdict = .ok true ↔ x.map Finding.held ≠ some false := by
  cases h with
  | absent => simp
  | @made y _ _ _ _ hx =>
    rw [Option.map_some, ne_eq, Option.some_inj, Bool.not_eq_false]
    constructor
    · rintro rfl
      exact hx.held_of_eq
    · exact hx.eq_of_held

/-! ## The checkpoints before and after the operation -/

/-- Before the operation a checkpoint lets the call go on, or it is the last one. -/
theorem enters_append {rest : List (Guard × κ)} {xs : List (Finding κ ε)}
    {verdict : Except ContractError Bool} :
    f.Enters R host ((code.map (g, ·)).toList ++ rest) w xs verdict w' ↔
      ∃ x v w₁, f.AtGuard R host g none code w x v w₁ ∧
        ((v = .ok true ∧ ∃ xs', xs = x.toList ++ xs' ∧ f.Enters R host rest w₁ xs' verdict w') ∨
          (v ≠ .ok true ∧ xs = x.toList ∧ verdict = v ∧ w' = w₁)) := by
  constructor
  · intro h
    cases code with
    | none => exact ⟨none, _, w, .absent w, .inl ⟨rfl, xs, rfl, h⟩⟩
    | some c =>
      cases h with
      | onward hn hx hs => exact ⟨_, _, _, .made rfl hn hx, .inl ⟨rfl, _, rfl, hs⟩⟩
      | stopped _ hn hx hv => exact ⟨_, _, _, .made rfl hn hx, .inr ⟨hv, rfl, rfl, rfl⟩⟩
  · rintro ⟨x, v, w₁, h, hcases⟩
    cases h with
    | absent =>
      obtain ⟨_, xs', rfl, hs⟩ | ⟨hv, _⟩ := hcases
      · exact hs
      · exact absurd rfl hv
    | made hg hn hx =>
      cases hg
      obtain ⟨rfl, xs', rfl, hs⟩ | ⟨hv, rfl, rfl, rfl⟩ := hcases
      · exact .onward hn hx hs
      · exact .stopped rest hn hx hv

/-- After the operation a checkpoint is the last one only if it raises a violation. -/
theorem leaves_append {value : Value} {rest : List (Guard × κ)} {ys : List (Finding κ ε)}
    {verdict : Except ContractError Unit} :
    f.Leaves R host value ((code.map (g, ·)).toList ++ rest) w ys verdict w' ↔
      ∃ y v w₁, f.AtGuard R host g (some value) code w y v w₁ ∧
        ((∃ held, v = .ok held ∧
            ∃ ys', ys = y.toList ++ ys' ∧ f.Leaves R host value rest w₁ ys' verdict w') ∨
          ∃ err, v = .error err ∧ ys = y.toList ∧ verdict = .error err ∧ w' = w₁) := by
  constructor
  · intro h
    cases code with
    | none => exact ⟨none, _, w, .absent w, .inl ⟨true, rfl, ys, rfl, h⟩⟩
    | some c =>
      cases h with
      | onward hn hx hs => exact ⟨_, _, _, .made rfl hn hx, .inl ⟨_, rfl, _, rfl, hs⟩⟩
      | stopped _ hn hx => exact ⟨_, _, _, .made rfl hn hx, .inr ⟨_, rfl, rfl, rfl, rfl⟩⟩
  · rintro ⟨y, v, w₁, h, hcases⟩
    cases h with
    | absent =>
      obtain ⟨_, _, ys', rfl, hs⟩ | ⟨_, hv, _⟩ := hcases
      · exact hs
      · cases hv
    | made hg hn hx =>
      cases hg
      obtain ⟨held, rfl, ys', rfl, hs⟩ | ⟨err, rfl, rfl, rfl, rfl⟩ := hcases
      · exact .onward hn hx hs
      · exact .stopped rest hn hx

theorem enters_nil {xs : List (Finding κ ε)} {verdict : Except ContractError Bool} :
    f.Enters R host [] w xs verdict w' ↔ xs = [] ∧ verdict = .ok true ∧ w' = w := by
  constructor
  · rintro ⟨⟩
    exact ⟨rfl, rfl, rfl⟩
  · rintro ⟨rfl, rfl, rfl⟩
    exact .nil w'

theorem leaves_nil {value : Value} {ys : List (Finding κ ε)}
    {verdict : Except ContractError Unit} :
    f.Leaves R host value [] w ys verdict w' ↔ ys = [] ∧ verdict = .ok () ∧ w' = w := by
  constructor
  · rintro ⟨⟩
    exact ⟨rfl, rfl, rfl⟩
  · rintro ⟨rfl, rfl, rfl⟩
    exact .nil w'

/-- The checks before the operation: the invariant, and the precondition if the call comes so
far. -/
theorem enters_entry {xs : List (Finding κ ε)} {verdict : Except ContractError Bool} :
    f.Enters R host f.spec.entry w xs verdict w' ↔
      ∃ x v w₁, f.AtGuard R host .invariantBefore none f.spec.invariant w x v w₁ ∧
        ((v = .ok true ∧ ∃ x', xs = x.toList ++ x'.toList ∧
            f.AtGuard R host .precondition none f.spec.precondition w₁ x' verdict w') ∨
          (v ≠ .ok true ∧ xs = x.toList ∧ verdict = v ∧ w' = w₁)) := by
  have hpre : ∀ {w₁ : World ε} {xs' : List (Finding κ ε)},
      f.Enters R host (f.spec.precondition.map (Guard.precondition, ·)).toList w₁ xs' verdict w' ↔
        ∃ x', xs' = x'.toList ∧
          f.AtGuard R host .precondition none f.spec.precondition w₁ x' verdict w' := by
    intro w₁ xs'
    rw [← List.append_nil (Option.toList _), enters_append]
    simp only [enters_nil]
    constructor
    · rintro ⟨x', v, w₂, h, ⟨rfl, _, rfl, rfl, rfl, rfl⟩ | ⟨_, rfl, rfl, rfl⟩⟩
      · exact ⟨x', List.append_nil _, h⟩
      · exact ⟨x', rfl, h⟩
    · rintro ⟨x', rfl, h⟩
      by_cases hv : verdict = .ok true
      · exact ⟨x', verdict, w', h, .inl ⟨hv, [], (List.append_nil _).symm, rfl, hv, rfl⟩⟩
      · exact ⟨x', verdict, w', h, .inr ⟨hv, rfl, rfl, rfl⟩⟩
  rw [Spec.entry, enters_append]
  simp only [hpre]
  refine exists_congr fun x => exists_congr fun v => exists_congr fun w₁ =>
    and_congr_right fun _ => or_congr_left (and_congr_right fun _ => ?_)
  constructor
  · rintro ⟨_, rfl, x', rfl, h⟩
    exact ⟨x', rfl, h⟩
  · rintro ⟨x', rfl, h⟩
    exact ⟨_, rfl, x', rfl, h⟩

/-- The checks after the operation: the postcondition, and the invariant if no violation has been
raised. -/
theorem leaves_exit {value : Value} {ys : List (Finding κ ε)}
    {verdict : Except ContractError Unit} :
    f.Leaves R host value f.spec.exit w ys verdict w' ↔
      ∃ y v w₁, f.AtGuard R host .postcondition (some value) f.spec.postcondition w y v w₁ ∧
        ((∃ held, v = .ok held ∧ ∃ y' v', ys = y.toList ++ y'.toList ∧
            verdict = v'.map (fun _ => ()) ∧
            f.AtGuard R host .invariantAfter (some value) f.spec.invariant w₁ y' v' w') ∨
          ∃ err, v = .error err ∧ ys = y.toList ∧ verdict = .error err ∧ w' = w₁) := by
  have hinv : ∀ {w₁ : World ε} {ys' : List (Finding κ ε)},
      f.Leaves R host value (f.spec.invariant.map (Guard.invariantAfter, ·)).toList w₁ ys' verdict
          w' ↔
        ∃ y' v', ys' = y'.toList ∧ verdict = v'.map (fun _ => ()) ∧
          f.AtGuard R host .invariantAfter (some value) f.spec.invariant w₁ y' v' w' := by
    intro w₁ ys'
    rw [← List.append_nil (Option.toList _), leaves_append]
    simp only [leaves_nil]
    constructor
    · rintro ⟨y', v, w₂, h, ⟨held, rfl, _, rfl, rfl, rfl, rfl⟩ | ⟨err, rfl, rfl, rfl, rfl⟩⟩
      · exact ⟨y', _, List.append_nil _, rfl, h⟩
      · exact ⟨y', _, rfl, rfl, h⟩
    · rintro ⟨y', v, rfl, rfl, h⟩
      refine ⟨y', v, w', h, ?_⟩
      cases v with
      | ok held => exact .inl ⟨held, rfl, [], (List.append_nil _).symm, rfl, rfl, rfl⟩
      | error err => exact .inr ⟨err, rfl, rfl, rfl, rfl⟩
  rw [Spec.exit, leaves_append]
  simp only [hinv]
  refine exists_congr fun y => exists_congr fun v => exists_congr fun w₁ =>
    and_congr_right fun _ => or_congr_left <| exists_congr fun held => and_congr_right fun _ => ?_
  constructor
  · rintro ⟨_, rfl, y', v', rfl, hv, h⟩
    exact ⟨y', v', rfl, hv, h⟩
  · rintro ⟨y', v', rfl, hv, h⟩
    exact ⟨_, rfl, y', v', rfl, hv, h⟩

end Frame

/-! ## The evaluation of an account -/

theorem Evaluation.slot_suspend (e : Evaluation) (stage : Stage) (g : Guard) :
    (e.suspend stage).slot g = e.slot g := by
  cases g <;> rfl

/-- A check fills its own slot. -/
theorem slot_noted {x : Option (Finding κ ε)} {g : Guard} (hx : ∀ y ∈ x, y.guard = g)
    (e : Evaluation) (g' : Guard) : (x.toList.foldl Finding.note e).slot g' =
      if g' = g then (x.map Finding.held).or (e.slot g') else e.slot g' := by
  cases x with
  | none => simp
  | some y =>
    obtain rfl : y.guard = g := hx y rfl
    have hsus : (if y.waited then e.suspend (.check y.guard) else e).slot g' = e.slot g' := by
      split
      · exact e.slot_suspend _ g'
      · rfl
    change (Evaluation.record _ y.guard y.held).slot g' = _
    by_cases hg : g' = y.guard
    · rw [if_pos hg, hg, Evaluation.slot_record_self]
      rfl
    · rw [if_neg hg, Evaluation.slot_record_of_ne hg, hsus]

theorem slot_run_noted (o : Option (Run ε)) (e : Evaluation) (g : Guard) :
    (o.toList.foldl Run.note e).slot g = e.slot g := by
  rcases o with _ | ⟨r, waited, begun, ended⟩
  · rfl
  · cases r <;> cases waited <;> cases g <;> rfl

theorem result_noted (x : Option (Finding κ ε)) (e : Evaluation) :
    (x.toList.foldl Finding.note e).result = e.result := by
  rcases x with _ | ⟨g, code, result, held, waited, begun, answered, traced⟩
  · rfl
  · cases waited <;> cases g <;> rfl

theorem result_run_noted (o : Option (Run ε)) (e : Evaluation) :
    (o.toList.foldl Run.note e).result = (o.bind (·.result.toOption)).or e.result := by
  rcases o with _ | ⟨r, waited, begun, ended⟩
  · rfl
  · cases r <;> cases waited <;> rfl

/-- Each check of an account fills its own slot, and the result is that of the operation. -/
theorem slot_evaluation (x x' y y' : Option (Finding κ ε)) (o : Option (Run ε))
    (hx : ∀ z ∈ x, z.guard = .invariantBefore) (hx' : ∀ z ∈ x', z.guard = .precondition)
    (hy : ∀ z ∈ y, z.guard = .postcondition) (hy' : ∀ z ∈ y', z.guard = .invariantAfter) :
    let e := (Account.mk (x.toList ++ x'.toList) o (y.toList ++ y'.toList)).evaluation
    e.invariantBefore = x.map Finding.held ∧ e.precondition = x'.map Finding.held ∧
      e.postcondition = y.map Finding.held ∧ e.invariantAfter = y'.map Finding.held ∧
      e.result = o.bind (·.result.toOption) := by
  intro e
  have hslot : ∀ g, e.slot g = if g = .invariantAfter then y'.map Finding.held else
      if g = .postcondition then y.map Finding.held else
      if g = .precondition then x'.map Finding.held else x.map Finding.held := by
    intro g
    simp only [e, Account.evaluation, List.foldl_append, slot_noted hy', slot_noted hy,
      slot_run_noted, slot_noted hx', slot_noted hx]
    cases g <;> simp [Evaluation.slot]
  refine ⟨hslot .invariantBefore, hslot .precondition, hslot .postcondition,
    hslot .invariantAfter, ?_⟩
  simp only [e, Account.evaluation, List.foldl_append, result_noted, result_run_noted,
    Option.or_none]

end Contracts
