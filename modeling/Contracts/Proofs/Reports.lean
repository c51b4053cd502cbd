import Contracts.Proofs.Halting
import Contracts.Proofs.Rings
import Contracts.Proofs.Severity
import Mathlib.Data.List.Nodup

/-!
# Contracts.Proofs.Reports

The checks of a call as it stands, what was reported of them, and how the call went on.

* `Frame.Chain`         — checks that were made one after the other, and the state that each left.
* `Frame.GoesOn`        — how a call goes on from the state that one of its checks has left.
* `Standing.examined`   — every check of a call was made and reported, and the call went on.
* `Standing.raised_iff` — a check that failed is raised if the mode says so right after its trace.
* `Standing.raised_of_error` — an error of a call is that of its operation, or a violation of its
  own.
* `Standing.result_eq`  — the checks after the operation see its value, those before it see none.
-/

namespace Contracts

variable {κ ε : Type}

/-! ## Single reports -/

/-- What is reported comes out as the error, or as the entry in the journal. -/
theorem Reported.raised_or_written {override : Option FailureMode} {v : Violation}
    {w w' : World ε} {verdict : Except ContractError Unit}
    (h : Reported override v w verdict w') : verdict = .error (.violation v) ∨
      verdict = .ok () ∧
        w'.entries = .violated v.failure v.className v.message :: w.entries := by
  have hentries : (w.consulted override).entries = w.entries := by cases override <;> rfl
  cases h with
  | raised => exact .inl rfl
  | written =>
    refine .inr ⟨rfl, ?_⟩
    rw [hentries]

theorem Input.failure_injective (i : Input) : Function.Injective i.failure := by
  intro g g' h
  cases i <;> cases g <;> cases g' <;> cases h <;> rfl

/-! ## One check after the other -/

/-- The state that a check has left: the next one of its list was begun there, or it is the last one
and the list leads there. -/
def Finding.Left (x : Finding κ ε) (w₁ : World ε) (xs : List (Finding κ ε)) (w' : World ε) : Prop :=
  (∃ before y after, xs = before ++ x :: y :: after ∧ y.begun = w₁) ∨
    ∃ before, xs = before ++ [x] ∧ w' = w₁

theorem Finding.Left.cons {x : Finding κ ε} {xs : List (Finding κ ε)} {w₁ w' : World ε}
    (h : x.Left w₁ xs w') (y : Finding κ ε) : x.Left w₁ (y :: xs) w' := by
  rcases h with ⟨before, z, after, rfl, hz⟩ | ⟨before, rfl, hw⟩
  · exact .inl ⟨y :: before, z, after, rfl, hz⟩
  · exact .inr ⟨y :: before, rfl, hw⟩

namespace Frame

/-- Checks that were made and reported, each one begun in the state that the one before it left. -/
inductive Chain (R : World ε → World ε → Prop) (host : Host κ ε) (f : Frame κ) :
    List (Finding κ ε) → World ε → World ε → Prop where
  | nil (w : World ε) : Chain R host f [] w w
  | cons {x : Finding κ ε} {xs : List (Finding κ ε)} {verdict : Except ContractError Bool}
      {w₁ w' : World ε} (hx : f.Examined R host x verdict w₁) (hs : Chain R host f xs w₁ w') :
      Chain R host f (x :: xs) x.begun w'

variable {R : World ε → World ε → Prop} {host : Host κ ε} {f : Frame κ}
  {operation : Action (World ε) (Completion ε)} {w w₁ w' : World ε} {x : Finding κ ε}

theorem Enters.chain {checks : List (Guard × κ)} {xs : List (Finding κ ε)}
    {verdict : Except ContractError Bool} (h : f.Enters R host checks w xs verdict w') :
    f.Chain R host xs w w' := by
  induction h with
  | nil => exact .nil _
  | onward _ hx _ ih => exact .cons hx ih
  | stopped _ _ hx _ => exact .cons hx (.nil _)

theorem Leaves.chain {value : Value} {checks : List (Guard × κ)} {ys : List (Finding κ ε)}
    {verdict : Except ContractError Unit} (h : f.Leaves R host value checks w ys verdict w') :
    f.Chain R host ys w w' := by
  induction h with
  | nil => exact .nil _
  | onward _ hx _ ih => exact .cons hx ih
  | stopped _ _ hx => exact .cons hx (.nil _)

/-- Every check of a chain was made and reported, and the next one found the state that it left. -/
theorem Chain.left {xs : List (Finding κ ε)} (h : f.Chain R host xs w w') (hx : x ∈ xs) :
    ∃ v w₁, f.Examined R host x v w₁ ∧ x.Left w₁ xs w' := by
  induction h with
  | nil => simp at hx
  | cons hy hs ih =>
    rcases List.mem_cons.mp hx with rfl | hx
    · cases hs with
      | nil => exact ⟨_, _, hy, .inr ⟨[], rfl, rfl⟩⟩
      | cons => exact ⟨_, _, hy, .inl ⟨[], _, _, rfl, rfl⟩⟩
    · obtain ⟨v, w₁, hexamined, hleft⟩ := ih hx
      exact ⟨v, w₁, hexamined, hleft.cons _⟩

/-! ## How a call goes on -/

/-- How a call goes on from the state that one of its checks has left. -/
inductive GoesOn (R : World ε → World ε → Prop) (host : Host κ ε) (f : Frame κ)
    (operation : Action (World ε) (Completion ε)) (w : World ε) (a : Account κ ε)
    (x : Finding κ ε) (w₁ : World ε) : Option (Except ContractError Value) → World ε → Prop where
  /-- It makes the next check there. -/
  | checks {before after : List (Finding κ ε)} {y : Finding κ ε}
      {outcome : Option (Except ContractError Value)} {w' : World ε}
      (h : a.entry = before ++ x :: y :: after ∨ a.exit = before ++ x :: y :: after)
      (hy : y.begun = w₁) : GoesOn R host f operation w a x w₁ outcome w'
  /-- It runs its operation. -/
  | runs {before : List (Finding κ ε)} {o : Run ε} {outcome : Option (Except ContractError Value)}
      {w' : World ε} (h : a.entry = before ++ [x]) (ho : a.run = some o) (hw : o.begun = w₁) :
      GoesOn R host f operation w a x w₁ outcome w'
  /-- It comes to its end. -/
  | ends {before : List (Finding κ ε)} {r : Except ContractError Value}
      (h : a.findings = before ++ [x]) :
      GoesOn R host f operation w a x w₁ (some r) (f.closing a r w₁)
  /-- It starts a callback and halts in it. -/
  | halts {before : List (Finding κ ε)} {stage : Stage} {c : Option Abort} {w' : World ε}
      (h : a.findings = before ++ [x]) (hh : f.Halted R host operation w a stage w₁ c w') :
      GoesOn R host f operation w a x w₁ none w'

variable {a : Account κ ε} {outcome : Option (Except ContractError Value)}

/-- A check of a chain was made and reported, and the call goes on to the next one, or as it does
from the last one. -/
theorem Chain.goesOn {xs : List (Finding κ ε)} {w₂ w₃ : World ε} (h : f.Chain R host xs w₂ w₃)
    (hxs : xs = a.entry ∨ xs = a.exit) (hx : x ∈ xs)
    (hlast : ∀ before, xs = before ++ [x] → f.GoesOn R host operation w a x w₃ outcome w') :
    ∃ verdict w₁, f.Examined R host x verdict w₁ ∧
      f.GoesOn R host operation w a x w₁ outcome w' := by
  obtain ⟨v, w₁, hexamined, hleft⟩ := h.left hx
  rcases hleft with ⟨before, y, after, hsplit, hy⟩ | ⟨before, hsplit, rfl⟩
  · have hsplits := hxs.imp (fun hxs => hxs.symm.trans hsplit) fun hxs => hxs.symm.trans hsplit
    exact ⟨v, w₁, hexamined, .checks hsplits hy⟩
  · exact ⟨v, w₃, hexamined, hlast before hsplit⟩

/-- Wherever a call stands, each of its checks was made and reported, and the call went on from the
state that was left. -/
theorem Standing.examined (h : f.Standing R host operation w a outcome w')
    (hx : x ∈ a.findings) : ∃ verdict w₁, f.Examined R host x verdict w₁ ∧
      f.GoesOn R host operation w a x w₁ outcome w' := by
  have halone : ∀ {xs before : List (Finding κ ε)}, xs = before ++ [x] →
      (⟨xs, none, []⟩ : Account κ ε).findings = before ++ [x] :=
    fun hsplit => (List.append_nil _).trans hsplit
  have hafter : ∀ {before : List (Finding κ ε)}, a.exit = before ++ [x] →
      a.findings = (a.entry ++ before) ++ [x] := by
    intro before hsplit
    rw [Account.findings, hsplit, List.append_assoc]
  rcases List.mem_append.mp hx with hx | hx
  · cases h with
    | ended h =>
      cases h with
      | refused h | refusedRaised h =>
        exact h.chain.goesOn (.inl rfl) hx fun _ hsplit => .ends (halone hsplit)
      | failed h | completed h =>
        exact h.chain.goesOn (.inl rfl) hx fun _ hsplit => .runs hsplit rfl rfl
    | halted hhalted =>
      have h := hhalted
      cases h with
      | entering _ h | operating h =>
        exact h.chain.goesOn (.inl rfl) hx fun _ hsplit => .halts (halone hsplit) hhalted
      | leaving h => exact h.chain.goesOn (.inl rfl) hx fun _ hsplit => .runs hsplit rfl rfl
  · cases h with
    | ended h =>
      cases h with
      | refused | refusedRaised | failed => cases hx
      | completed _ _ _ hs =>
        exact hs.chain.goesOn (.inr rfl) hx fun _ hsplit => .ends (hafter hsplit)
    | halted hhalted =>
      have h := hhalted
      cases h with
      | entering | operating => cases hx
      | leaving _ _ _ _ hs =>
        exact hs.chain.goesOn (.inr rfl) hx fun _ hsplit => .halts (hafter hsplit) hhalted

/-- So was the violation of a check that failed. -/
theorem Standing.reported (h : f.Standing R host operation w a outcome w') (hx : x ∈ a.findings)
    (hf : x.held = false) : f.Made R host x ∧ ∃ verdict w₁,
      Reported f.spec.mode (f.violation x) x.traced verdict w₁ ∧
        f.GoesOn R host operation w a x w₁ outcome w' := by
  obtain ⟨v, w₁, hexamined, hnext⟩ := h.examined hx
  cases hexamined with
  | held _ hheld =>
    rw [hf] at hheld
    cases hheld
  | failed hmade _ hr => exact ⟨hmade, _, w₁, hr, hnext⟩

/-! ## What is raised -/

theorem nodup_exit (s : Spec κ) : (s.exit.map Prod.fst).Nodup := by
  cases hq : s.postcondition <;> cases hi : s.invariant <;> simp [Spec.exit, hq, hi]

/-- An error of a check is its violation, and the mode says that it is raised. -/
theorem Examined.raised_of_error {err : ContractError}
    (h : f.Examined R host x (.error err) w') :
    x.held = false ∧ err = .violation (f.violation x) ∧ f.modeIn x.traced = .throw := by
  generalize hv : (Except.error err : Except ContractError Bool) = verdict at h
  cases h with
  | held => cases hv
  | failed _ hf hr =>
    cases hr with
    | raised hmode =>
      cases hv
      exact ⟨hf, rfl, hmode⟩
    | written => cases hv

/-- An error of the checks before the operation is the violation of one of them. -/
theorem Enters.raised_of_error {checks : List (Guard × κ)} {xs : List (Finding κ ε)}
    {err : ContractError} (h : f.Enters R host checks w xs (.error err) w') :
    ∃ x ∈ xs, x.held = false ∧ err = .violation (f.violation x) := by
  generalize hv : (Except.error err : Except ContractError Bool) = verdict at h
  induction h with
  | nil => cases hv
  | onward _ _ _ ih =>
    obtain ⟨x, hx, herr⟩ := ih hv
    exact ⟨x, List.mem_cons_of_mem _ hx, herr⟩
  | stopped _ _ hx _ =>
    rw [← hv] at hx
    obtain ⟨hf, herr, _⟩ := hx.raised_of_error
    exact ⟨_, List.mem_singleton_self _, hf, herr⟩

theorem Leaves.raised_of_error {value : Value} {checks : List (Guard × κ)}
    {ys : List (Finding κ ε)} {err : ContractError}
    (h : f.Leaves R host value checks w ys (.error err) w') :
    ∃ y ∈ ys, y.held = false ∧ err = .violation (f.violation y) ∧
      f.modeIn y.traced = .throw := by
  generalize hv : (Except.error err : Except ContractError Unit) = verdict at h
  induction h with
  | nil => cases hv
  | onward _ _ _ ih =>
    obtain ⟨y, hy, herr⟩ := ih hv
    exact ⟨y, List.mem_cons_of_mem _ hy, herr⟩
  | stopped _ _ hx =>
    cases hv
    exact ⟨_, List.mem_singleton_self _, hx.raised_of_error⟩

/-- A call that gives an error passes on the one of its operation, or it raises the violation of a
check of its own. -/
theorem Standing.raised_of_error {err : ContractError}
    (h : f.Standing R host operation w a (some (.error err)) w') :
    (∃ o, a.run = some o ∧ o.result = .error err) ∨
      ∃ x ∈ a.findings, x.held = false ∧ err = .violation (f.violation x) := by
  cases h with
  | ended h =>
    generalize hr : (Except.error err : Except ContractError Value) = r at h
    cases h with
    | refused => cases hr
    | refusedRaised h =>
      cases hr
      obtain ⟨x, hx, herr⟩ := h.raised_of_error
      exact .inr ⟨x, List.mem_append_left _ hx, herr⟩
    | failed _ _ ho =>
      cases hr
      exact .inl ⟨_, rfl, ho⟩
    | @completed _ _ _ _ verdict _ _ _ _ hs =>
      cases verdict with
      | ok _ => cases hr
      | error err =>
        cases hr
        obtain ⟨y, hy, hf, herr, _⟩ := hs.raised_of_error
        exact .inr ⟨y, List.mem_append_right _ hy, hf, herr⟩

/-- Before the operation a check that failed is raised just if the mode says so after its trace. -/
theorem Enters.raised_iff {checks : List (Guard × κ)} {xs : List (Finding κ ε)}
    {verdict : Except ContractError Bool} (h : f.Enters R host checks w xs verdict w')
    (hx : x ∈ xs) (hf : x.held = false) :
    verdict = .error (.violation (f.violation x)) ↔ f.modeIn x.traced = .throw := by
  constructor
  · rintro rfl
    exact (h.examined hx hf).raised_of_error.2.2
  · exact (h.examined hx hf).eq_of_throw hf

/-- So it is after the operation: the violations of two checks differ in kind. -/
theorem Leaves.raised_iff {value : Value} {ys : List (Finding κ ε)}
    {verdict : Except ContractError Unit}
    (h : f.Leaves R host value f.spec.exit w ys verdict w') (hx : x ∈ ys) (hf : x.held = false) :
    verdict = .error (.violation (f.violation x)) ↔ f.modeIn x.traced = .throw := by
  constructor
  · rintro rfl
    obtain ⟨y, hy, _, herr, hmode⟩ := h.raised_of_error
    have hguard : y.guard = x.guard := by
      have hviolation := ContractError.violation.inj herr
      exact f.input.failure_injective (congrArg Violation.failure hviolation).symm
    have hnodup : (ys.map Finding.guard).Nodup := by
      have hsub := (h.checks_prefix.sublist.map Prod.fst).nodup (nodup_exit f.spec)
      rwa [List.map_map] at hsub
    rwa [List.inj_on_of_nodup_map hnodup hy hx hguard] at hmode
  · exact h.eq_of_throw hx hf

/-- A check that failed is raised, and its violation is the outcome of the call, if and only if the
mode that decides is throw at the moment of its report, right after its trace. -/
theorem Standing.raised_iff (h : f.Standing R host operation w a outcome w')
    (hx : x ∈ a.findings) (hf : x.held = false) :
    outcome = some (.error (.violation (f.violation x))) ↔ f.modeIn x.traced = .throw := by
  have hheld : ∀ {xs checks w₁}, f.Enters R host checks w xs (.ok true) w₁ → x ∉ xs := by
    intro xs checks w₁ h hmem
    rw [h.held x hmem] at hf
    cases hf
  cases h with
  | ended h =>
    rw [Option.some_inj]
    cases h with
    | refused h =>
      rw [← h.raised_iff (by simpa [Account.findings] using hx) hf]
      simp
    | refusedRaised h =>
      rw [← h.raised_iff (by simpa [Account.findings] using hx) hf]
      simp
    | failed h _ _ => exact absurd (by simpa [Account.findings] using hx) (hheld h)
    | @completed _ _ _ _ verdict _ h _ _ hs =>
      have hmem := (List.mem_append.mp hx).resolve_left (hheld h)
      rw [← hs.raised_iff hmem hf]
      cases verdict with
      | error err => simp [Except.map]
      | ok _ => simp [Except.map]
  | halted h =>
    refine iff_of_false (by simp) fun hmode => ?_
    cases h with
    | entering _ h _ | operating h _ =>
      exact absurd (by simpa [Account.findings] using hx) (hheld h)
    | leaving h _ _ _ hs =>
      have hmem := (List.mem_append.mp hx).resolve_left (hheld h)
      cases hs.eq_of_throw hmem hf hmode

end Frame

/-! ## The result that a check sees -/

/-- The value that the operation of a call has come to. -/
def Account.value? (a : Account κ ε) : Option Value := a.run.bind fun o => o.result.toOption

/-- The result that a check is made with: the value of the operation for the checks after it. -/
def Account.resultFor (a : Account κ ε) : Guard → Option Value
  | .invariantBefore | .precondition => none
  | .postcondition | .invariantAfter => a.value?

namespace Frame

variable {R : World ε → World ε → Prop} {host : Host κ ε} {f : Frame κ}
  {operation : Action (World ε) (Completion ε)} {w w' : World ε} {x : Finding κ ε}

theorem Enters.guard_of_mem {checks : List (Guard × κ)} {xs : List (Finding κ ε)}
    {verdict : Except ContractError Bool} (h : f.Enters R host checks w xs verdict w')
    (hchecks : checks <+: f.spec.entry) (hx : x ∈ xs) :
    x.guard = .invariantBefore ∨ x.guard = .precondition := by
  have hmem := hchecks.subset (h.guards x hx)
  exact (Comparison.mem_entry.mp hmem).imp And.left And.left

theorem Leaves.guard_of_mem {value : Value} {checks : List (Guard × κ)}
    {ys : List (Finding κ ε)} {verdict : Except ContractError Unit}
    (h : f.Leaves R host value checks w ys verdict w') (hchecks : checks <+: f.spec.exit)
    (hx : x ∈ ys) : x.guard = .postcondition ∨ x.guard = .invariantAfter := by
  have hmem : (x.guard, x.code) ∈ f.spec.exit :=
    hchecks.subset (h.checks_prefix.subset (List.mem_map_of_mem hx))
  exact (Comparison.mem_exit.mp hmem).imp And.left And.left

/-- A check of a call is one of those before its operation, or one of those after it, which are made
with its value. -/
theorem Standing.enters_or_leaves {a : Account κ ε}
    {outcome : Option (Except ContractError Value)}
    (h : f.Standing R host operation w a outcome w') (hx : x ∈ a.findings) :
    (∃ checks verdict w₁, checks <+: f.spec.entry ∧
      f.Enters R host checks w a.entry verdict w₁ ∧ x ∈ a.entry) ∨
    ∃ v checks verdict w₁ w₂, a.value? = some v ∧ checks <+: f.spec.exit ∧
      f.Leaves R host v checks w₁ a.exit verdict w₂ ∧ x ∈ a.exit := by
  have hvalue : ∀ {o : Run ε} {v : Value} {xs ys}, o.result = .ok v →
      (⟨xs, some o, ys⟩ : Account κ ε).value? = some v := by
    intro o v xs ys hr
    rw [Account.value?, Option.bind_some, hr]
    rfl
  rcases List.mem_append.mp hx with hx | hx
  · left
    cases h with
    | ended h =>
      cases h with
      | refused h | refusedRaised h | failed h => exact ⟨_, _, _, List.prefix_rfl, h, hx⟩
      | completed h => exact ⟨_, _, _, List.prefix_rfl, h, hx⟩
    | halted h =>
      cases h with
      | entering hp h => exact ⟨_, _, _, ⟨_, hp.symm⟩, h, hx⟩
      | operating h => exact ⟨_, _, _, List.prefix_rfl, h, hx⟩
      | leaving h => exact ⟨_, _, _, List.prefix_rfl, h, hx⟩
  · right
    cases h with
    | ended h =>
      cases h with
      | refused | refusedRaised | failed => cases hx
      | completed _ _ hr hs => exact ⟨_, _, _, _, _, hvalue hr, List.prefix_rfl, hs, hx⟩
    | halted h =>
      cases h with
      | entering | operating => cases hx
      | leaving _ _ hr hp hs => exact ⟨_, _, _, _, _, hvalue hr, ⟨_, hp.symm⟩, hs, hx⟩

/-- The checks of a call before its operation see no result, and those after it see its value. -/
theorem Standing.result_eq {a : Account κ ε} {outcome : Option (Except ContractError Value)}
    (h : f.Standing R host operation w a outcome w') (hx : x ∈ a.findings) :
    x.result = a.resultFor x.guard ∧
      (x.result.isSome ↔ x.guard = .postcondition ∨ x.guard = .invariantAfter) := by
  rcases h.enters_or_leaves hx with ⟨_, _, _, hchecks, h, hx⟩ | ⟨v, _, _, _, _, hv, hchecks, h, hx⟩
  · rw [h.result x hx]
    rcases h.guard_of_mem hchecks hx with hg | hg
    · rw [hg]
      exact ⟨rfl, by simp⟩
    · rw [hg]
      exact ⟨rfl, by simp⟩
  · rw [h.result x hx]
    rcases h.guard_of_mem hchecks hx with hg | hg
    · rw [hg]
      exact ⟨hv.symm, by simp⟩
    · rw [hg]
      exact ⟨hv.symm, by simp⟩

end Frame

end Contracts
