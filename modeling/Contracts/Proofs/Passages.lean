import Contracts.Proofs.Halting

/-!
# Contracts.Proofs.Passages

Futures that are polled to their end, poll by poll.

* `Passage`, `Future.along` — the states in which a future waits, while others make one change after
  the other, and what it comes to.
* `Action.Visits`  — a callback that comes to its answer in this way, and how long it lags.
* `passes_bind`, `passes_lift` — in a sequence of futures the pauses of the second one follow those
  of the first one.
* `polls_along`    — what a future shows after each number of polls.
-/

namespace Contracts

variable {σ α β : Type}

/-- A future from its first poll to its end. -/
structure Passage (σ α : Type) where
  /-- The states in which it waits. -/
  pauses : List σ
  result : Except Abort α
  final : σ

/-- The passage that takes up in front with a pause. -/
def Passage.after (s : σ) (p : Passage σ α) : Passage σ α := { p with pauses := s :: p.pauses }

/-- What an end of a passage looks like to the one who polls. -/
def Passage.shown (p : Passage σ α) : Polled σ α × σ :=
  (match p.result with | .ok a => .finished a | .error c => .aborted c, p.final)

/-- What others do to the state, one change after the other. -/
def Interludes (changes : Nat → σ → σ) (s s' : σ) : Prop := ∃ n, s' = changes n s

namespace Future

/-- The passage of a future that is polled for the first time in a state. While it waits for the
`n`-th poll others make the `n`-th change. -/
def along (changes : Nat → σ → σ) : Future σ α → Nat → σ → Passage σ α
  | .done a, _, s => ⟨[], .ok a, s⟩
  | .abort c, _, s => ⟨[], .error c, s⟩
  | .get next, n, s => (next s).along changes n s
  | .put s' rest, n, _ => rest.along changes n s'
  | .wait rest, n, s => (rest.along changes (n + 1) (changes n s)).after s

variable {changes : Nat → σ → σ} {t : Future σ α} {n : Nat} {s s' : σ} {ps : List σ} {a : α}

/-- The future ends with the answer, after these pauses. -/
def Passes (changes : Nat → σ → σ) (t : Future σ α) (n : Nat) (s : σ) (ps : List σ) (a : α)
    (s' : σ) : Prop :=
  t.along changes n s = ⟨ps, .ok a, s'⟩

theorem passes_done {b : α} :
    (Future.done b).Passes changes n s ps a s' ↔ ps = [] ∧ a = b ∧ s' = s := by
  simp only [Passes, along, Passage.mk.injEq, Except.ok.injEq, eq_comm]

theorem passes_wait {rest : Future σ α} : (Future.wait rest).Passes changes n s ps a s' ↔
    ∃ qs, ps = s :: qs ∧ rest.Passes changes (n + 1) (changes n s) qs a s' := by
  rw [Passes, along]
  rcases hrest : rest.along changes (n + 1) (changes n s) with ⟨qs, r, s₁⟩
  constructor
  · intro h
    cases h
    exact ⟨qs, rfl, hrest⟩
  · rintro ⟨_, rfl, h⟩
    cases hrest.symm.trans h
    rfl

/-- In a sequence of futures the pauses of the second one follow those of the first one, and the
polls are counted on. -/
theorem passes_bind {f : α → Future σ β} {b : β} {s'' : σ} :
    (t.bind f).Passes changes n s ps b s'' ↔
      ∃ qs a s' rs, t.Passes changes n s qs a s' ∧
        (f a).Passes changes (n + qs.length) s' rs b s'' ∧ ps = qs ++ rs := by
  induction t generalizing n s ps with
  | done a =>
    constructor
    · intro h
      exact ⟨[], a, s, ps, rfl, h, rfl⟩
    · rintro ⟨qs, _, _, rs, ha, h, rfl⟩
      obtain ⟨rfl, rfl, rfl⟩ := passes_done.mp ha
      exact h
  | abort c =>
    constructor
    · rintro ⟨⟩
    · rintro ⟨_, _, _, _, ⟨⟩, _⟩
  | get next ih => exact ih s
  | put s₁ rest ih => exact ih
  | wait rest ih =>
    rw [Future.bind, passes_wait]
    constructor
    · rintro ⟨_, rfl, h⟩
      obtain ⟨qs, a, s', rs, ha, h, rfl⟩ := ih.mp h
      refine ⟨s :: qs, a, s', rs, passes_wait.mpr ⟨qs, rfl, ha⟩, ?_, rfl⟩
      rwa [List.length_cons, Nat.add_comm qs.length, ← Nat.add_assoc]
    · rintro ⟨_, a, s', rs, ha, h, rfl⟩
      obtain ⟨qs, rfl, hrest⟩ := passes_wait.mp ha
      refine ⟨qs ++ rs, rfl, ih.mpr ⟨qs, a, s', rs, hrest, ?_, rfl⟩⟩
      rwa [List.length_cons, Nat.add_comm qs.length, ← Nat.add_assoc] at h

theorem passes_lift {act : Action σ α} :
    (lift act).Passes changes n s ps a s' ↔ ps = [] ∧ act.exec s = (.ok a, s') := by
  simp only [Passes, lift, along]
  rcases act.exec s with ⟨c | v, s₁⟩
  · simp [along]
  · simp only [along, Passage.mk.injEq, Prod.mk.injEq, eq_comm]

/-- A sequence of futures gives up where the first one does. -/
theorem along_bind_error {f : α → Future σ β} {c : Abort}
    (h : t.along changes n s = ⟨ps, .error c, s'⟩) :
    (t.bind f).along changes n s = ⟨ps, .error c, s'⟩ := by
  induction t generalizing n s ps with
  | done a => cases h
  | abort cause =>
    cases h
    rfl
  | get next ih => exact ih _ h
  | put s₁ rest ih => exact ih h
  | wait rest ih =>
    rw [along] at h
    rcases hrest : rest.along changes (n + 1) (changes n s) with ⟨qs, r, s₁⟩
    rw [hrest] at h
    cases h
    rw [Future.bind, along, ih hrest]
    rfl

theorem Passes.ends (h : t.Passes changes n s ps a s') : t.Ends (Interludes changes) s a s' := by
  induction t generalizing n s ps with
  | done b =>
    obtain ⟨_, rfl, rfl⟩ := passes_done.mp h
    exact .done a s'
  | abort c => cases h
  | get next ih => exact .get (ih s h)
  | put s₁ rest ih => exact .put (ih h)
  | wait rest ih =>
    obtain ⟨qs, rfl, hrest⟩ := passes_wait.mp h
    exact .wait ⟨n, rfl⟩ (ih hrest)

/-- A future that gives up has halted. -/
theorem halts_of_along {c : Abort} (h : t.along changes n s = ⟨ps, .error c, s'⟩) :
    t.Halts (Interludes changes) s (some c) s' := by
  induction t generalizing n s ps with
  | done b => cases h
  | abort cause =>
    cases h
    exact .abort c _
  | get next ih => exact .get (ih _ h)
  | put s₁ rest ih => exact .put (ih h)
  | wait rest ih =>
    rw [along] at h
    rcases hrest : rest.along changes (n + 1) (changes n s) with ⟨qs, r, s₁⟩
    rw [hrest] at h
    cases h
    exact .wait ⟨n, rfl⟩ (ih hrest)

/-! ## Poll by poll -/

theorem along_eq_poll (t : Future σ α) (n : Nat) (s : σ) :
    t.along changes n s = match t.poll s with
      | (.finished a, s') => ⟨[], .ok a, s'⟩
      | (.aborted c, s') => ⟨[], .error c, s'⟩
      | (.waiting rest, s') => (Future.wait rest).along changes n s' := by
  induction t generalizing s with
  | done a => rfl
  | abort c => rfl
  | get next ih => exact ih s s
  | put s' rest ih => exact ih s'
  | wait rest _ => rfl

/-- A future ends in its first poll if it has no pause, else it waits in the first one. -/
theorem poll_of_passes (h : t.Passes changes n s ps a s') :
    (ps = [] ∧ t.poll s = (.finished a, s')) ∨ ∃ rest s₁ qs, ps = s₁ :: qs ∧
      t.poll s = (.waiting rest, s₁) ∧ (Future.wait rest).Passes changes n s₁ ps a s' := by
  rw [Passes, along_eq_poll] at h
  rcases hpoll : t.poll s with ⟨b | c | rest, s₁⟩ <;> rw [hpoll] at h
  · cases h
    exact .inl ⟨rfl, rfl⟩
  · cases h
  · obtain ⟨qs, rfl, _⟩ := passes_wait.mp h
    exact .inr ⟨rest, s₁, qs, rfl, rfl, h⟩

/-- A future that waits shows its pauses one after the other, and then its end. -/
theorem polls_along (changes : Nat → σ → σ) (t : Future σ α) (n m : Nat) (s : σ) :
    let p := (Future.wait t).along changes n s
    let polled := t.polls ((List.range' n m).map changes) s
    (∀ s', p.pauses[m]? = some s' → ∃ rest, polled = (.waiting rest, s')) ∧
      (p.pauses.length ≤ m → polled = p.shown) := by
  induction m generalizing t n s with
  | zero =>
    constructor
    · intro s' hs
      rw [along] at hs
      cases hs
      exact ⟨t, rfl⟩
    · intro h
      rw [along] at h
      exact absurd h (by simp [Passage.after])
  | succ m ih =>
    simp only [List.range'_succ, List.map_cons, polls, along, Passage.after,
      List.getElem?_cons_succ, List.length_cons, Nat.add_le_add_iff_right]
    rw [along_eq_poll t]
    rcases t.poll (changes n s) with ⟨a | c | rest, s₁⟩
    · exact ⟨by simp, fun _ => rfl⟩
    · exact ⟨by simp, fun _ => rfl⟩
    · exact ih rest (n + 1) s₁

end Future

/-! ## Callbacks -/

namespace Action

/-- A callback that is started after `n` polls comes to its answer. Its lag is nothing if the answer
is there at once, else the states in which it is waited for. -/
inductive Visits (changes : Nat → σ → σ) (start : Action σ (Eventual σ α)) (n : Nat) (s : σ)
    (a : α) : Option (List σ) → σ → Prop where
  | ready {s' : σ} (h : start.exec s = (.ok (.ready a), s')) : Visits changes start n s a none s'
  | pending {t : Future σ α} {s₁ s' : σ} {ps : List σ} (h : start.exec s = (.ok (.pending t), s₁))
      (ht : t.Passes changes n s₁ ps a s') : Visits changes start n s a (some ps) s'

variable {changes : Nat → σ → σ} {start : Action σ (Eventual σ α)} {n : Nat} {s s' : σ} {a : α}
  {lag : Option (List σ)}

theorem Visits.settles (h : start.Visits changes n s a lag s') :
    start.Settles (Interludes changes) s a lag.isSome s' := by
  cases h with
  | ready h => exact .ready h
  | pending h ht => exact .pending h ht.ends

end Action

end Contracts
