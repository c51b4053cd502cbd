import Contracts.Proofs.Polling

/-!
# Contracts.Proofs.Settling

What futures and callbacks come to.

* `Future.Ends`    — a future, taken up in a state, ends with an answer; whenever it waits, others
  change the state as `R` allows.
* `Action.Settles` — a callback is started and settles to its answer, at once or later.
* `ends_bind`, `ends_lift` — the rules for a sequence of futures and for an action.
* `ends_of_polls`  — a future that has been polled to its end has ended in this sense.
* `settles_eq_iff` — with nobody else around, a callback settles to what it is driven to.
-/

namespace Contracts

variable {σ α β : Type}

namespace Future

inductive Ends (R : σ → σ → Prop) : Future σ α → σ → α → σ → Prop where
  | done (a : α) (s : σ) : Ends R (.done a) s a s
  | get {next : σ → Future σ α} {s s' : σ} {a : α} (h : Ends R (next s) s a s') :
      Ends R (.get next) s a s'
  | put {rest : Future σ α} {s s₁ s' : σ} {a : α} (h : Ends R rest s₁ a s') :
      Ends R (.put s₁ rest) s a s'
  | wait {rest : Future σ α} {s s₁ s' : σ} {a : α} (hs : R s s₁) (h : Ends R rest s₁ a s') :
      Ends R (.wait rest) s a s'

variable {R : σ → σ → Prop} {t : Future σ α} {s s' : σ} {a : α}

theorem ends_done {b : α} : (Future.done b).Ends R s a s' ↔ a = b ∧ s' = s := by
  constructor
  · rintro ⟨⟩
    exact ⟨rfl, rfl⟩
  · rintro ⟨rfl, rfl⟩
    exact .done a s'

theorem ends_get {next : σ → Future σ α} :
    (Future.get next).Ends R s a s' ↔ (next s).Ends R s a s' :=
  ⟨fun h => by cases h with | get h => exact h, .get⟩

theorem ends_put {rest : Future σ α} {s₁ : σ} :
    (Future.put s₁ rest).Ends R s a s' ↔ rest.Ends R s₁ a s' :=
  ⟨fun h => by cases h with | put h => exact h, .put⟩

theorem ends_wait {rest : Future σ α} :
    (Future.wait rest).Ends R s a s' ↔ ∃ s₁, R s s₁ ∧ rest.Ends R s₁ a s' :=
  ⟨fun h => by cases h with | wait hs h => exact ⟨_, hs, h⟩, fun ⟨_, hs, h⟩ => .wait hs h⟩

theorem not_ends_abort {c : Abort} : ¬ (Future.abort c).Ends R s a s' := by
  rintro ⟨⟩

/-- In a sequence of futures the second one is taken up where the first one ends. -/
theorem ends_bind {f : α → Future σ β} {b : β} {s'' : σ} :
    (t.bind f).Ends R s b s'' ↔ ∃ a s', t.Ends R s a s' ∧ (f a).Ends R s' b s'' := by
  induction t generalizing s with
  | done a =>
    constructor
    · exact fun h => ⟨a, s, .done a s, h⟩
    · rintro ⟨_, _, ⟨⟩, h⟩
      exact h
  | abort c =>
    constructor
    · exact fun h => (not_ends_abort h).elim
    · rintro ⟨_, _, h, _⟩
      exact (not_ends_abort h).elim
  | get next ih =>
    simp only [Future.bind, ends_get, ih]
  | put s₁ rest ih =>
    simp only [Future.bind, ends_put, ih]
  | wait rest ih =>
    simp only [Future.bind, ends_wait, ih]
    constructor
    · rintro ⟨s₁, hs, a, s', ha, hb⟩
      exact ⟨a, s', ⟨s₁, hs, ha⟩, hb⟩
    · rintro ⟨a, s', ⟨s₁, hs, ha⟩, hb⟩
      exact ⟨s₁, hs, a, s', ha, hb⟩

theorem ends_lift {act : Action σ α} :
    (lift act).Ends R s a s' ↔ act.exec s = (.ok a, s') := by
  simp only [lift, ends_get]
  rcases act.exec s with ⟨c | v, s₁⟩
  · simp only [ends_put, not_ends_abort, Prod.mk.injEq, reduceCtorEq, false_and]
  · simp only [ends_put, ends_done, Prod.mk.injEq, Except.ok.injEq, eq_comm]

/-- A future ends in its first poll, or it waits and then ends. -/
theorem ends_iff_poll : t.Ends R s a s' ↔ t.poll s = (.finished a, s') ∨
    ∃ rest s₁ s₂, t.poll s = (.waiting rest, s₁) ∧ R s₁ s₂ ∧ rest.Ends R s₂ a s' := by
  induction t generalizing s with
  | done b =>
    simp only [ends_done, poll, Prod.mk.injEq, Polled.finished.injEq, reduceCtorEq, false_and,
      exists_false, or_false, eq_comm]
  | abort c =>
    simp only [not_ends_abort, poll, Prod.mk.injEq, reduceCtorEq, false_and, exists_false, or_false]
  | get next ih => rw [ends_get, ih, poll]
  | put s₁ rest ih => rw [ends_put, ih, poll]
  | wait rest _ =>
    rw [ends_wait]
    constructor
    · rintro ⟨s₁, hs, h⟩
      exact .inr ⟨rest, s, s₁, rfl, hs, h⟩
    · rintro (h | ⟨_, _, s₂, h, hs, hrest⟩)
      · cases h
      · cases h
        exact ⟨s₂, hs, hrest⟩

/-- A future that was polled to its end, with allowed changes in between. -/
theorem ends_of_polls {change : σ → σ} {changes : List (σ → σ)}
    (hR : ∀ c ∈ changes, ∀ s, R s (c s))
    (h : t.polls (change :: changes) s = (.finished a, s')) : t.Ends R (change s) a s' := by
  induction changes generalizing t s change with
  | nil =>
    rw [ends_iff_poll]
    simp only [polls] at h
    split at h
    · cases h
    · exact .inl h
  | cons c rest ih =>
    rw [ends_iff_poll]
    rw [polls] at h
    split at h
    · next t' s₁ hpoll =>
      have hrest := ih (fun c' hc' => hR c' (by simp [hc'])) h
      exact .inr ⟨t', s₁, c s₁, hpoll, hR c (by simp) s₁, hrest⟩
    · exact .inl h

/-- With nobody else around, a future ends as it is driven. -/
theorem ends_eq_iff : t.Ends Eq s a s' ↔ t.drive s = (.ok a, s') := by
  induction t generalizing s with
  | done b => simp only [ends_done, drive, Prod.mk.injEq, Except.ok.injEq, eq_comm]
  | abort c => simp only [not_ends_abort, drive, Prod.mk.injEq, reduceCtorEq, false_and]
  | get next ih => rw [ends_get, ih, drive]
  | put s₁ rest ih => rw [ends_put, ih, drive]
  | wait rest ih =>
    simp only [ends_wait, drive, ← ih]
    constructor
    · rintro ⟨_, rfl, h⟩
      exact h
    · exact fun h => ⟨s, rfl, h⟩

end Future

namespace Action

/-- A callback that is started in `s` settles to `a` in `s'`. The flag says whether its answer had
to be waited for. -/
inductive Settles (R : σ → σ → Prop) (start : Action σ (Eventual σ α)) (s : σ) (a : α) :
    Bool → σ → Prop where
  | ready {s' : σ} (h : start.exec s = (.ok (.ready a), s')) : Settles R start s a false s'
  | pending {t : Future σ α} {s₁ s' : σ} (h : start.exec s = (.ok (.pending t), s₁))
      (ht : t.Ends R s₁ a s') : Settles R start s a true s'

/-- A callback that is started and waited for comes to its end. -/
def drive (start : Action σ (Eventual σ α)) : Action σ α := do
  let e ← start
  e.finish

/-- A callback that is driven always comes to an answer of this kind. -/
def Comes (P : α → Prop) (start : Action σ (Eventual σ α)) : Prop :=
  ∀ s, ∃ a s', start.drive.exec s = (.ok a, s') ∧ P a

variable {start : Action σ (Eventual σ α)} {s s' : σ} {a : α}

theorem exec_drive (start : Action σ (Eventual σ α)) (s : σ) :
    start.drive.exec s = match start.exec s with
      | (.ok e, s₁) => e.toFuture.drive s₁
      | (.error c, s₁) => (.error c, s₁) := by
  rw [drive, exec_bind]
  rcases start.exec s with ⟨c | e, s₁⟩
  · rfl
  · rfl

/-- With nobody else around, a callback settles to what it is driven to. -/
theorem settles_eq_iff :
    (∃ waited, start.Settles Eq s a waited s') ↔ start.drive.exec s = (.ok a, s') := by
  rw [exec_drive]
  constructor
  · rintro ⟨_, h | ⟨h, ht⟩⟩
    · rw [h]
      rfl
    · rw [h]
      exact Future.ends_eq_iff.mp ht
  · intro h
    split at h
    · next e s₁ hstart =>
      cases e with
      | ready b =>
        cases h
        exact ⟨false, .ready hstart⟩
      | pending t => exact ⟨true, .pending hstart (Future.ends_eq_iff.mpr h)⟩
    · cases h

theorem Comes.exists_settles {P : α → Prop} (h : Comes P start) (s : σ) :
    ∃ a waited s', start.Settles Eq s a waited s' ∧ P a := by
  obtain ⟨a, s', hdrive, ha⟩ := h s
  obtain ⟨waited, hsettles⟩ := settles_eq_iff.mpr hdrive
  exact ⟨a, waited, s', hsettles, ha⟩

end Action
end Contracts
