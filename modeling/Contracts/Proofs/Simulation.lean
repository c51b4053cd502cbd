import Contracts.Proofs.Polling
import Contracts.Proofs.Relations
import Contracts.Timing
import Mathlib.Order.CompleteBooleanAlgebra
import Mathlib.Order.CompletePartialOrder

/-!
# Contracts.Proofs.Simulation

Two runs, side by side.

* `Simulation`        — when the states of two runs agree, and how both may move on together.
* `Simulation.Acts`   — two actions that agree: from states that agree they end alike.
* `Simulation.Runs`   — two futures that agree: they wait together and end alike, however often
  they are polled and whatever else happens to the states in between.
* `Simulation.Starts` — the same for callbacks, which answer now or later.
* `acts_bind`, `runs_bind` — sequences of what agrees agree.
* `starts_start` — actions that agree agree under any timing.
* `runs_polls`, `starts_polls` — what agrees shows the same after any number of polls.

What the two runs have in common may grow while they go on, by objects that both of them create.
A simulation says so with a type `K` of what is known: agreement is agreement at some `k : K`.
-/

namespace Contracts

variable {σ τ α β α' β' : Type}

/-! ## Polls that are alike -/

/-- Both polls come to an answer, both give up for the same cause, or both wait. -/
inductive Shows (R : α → β → Prop) (W : Future σ α → Future τ β → Prop) :
    Polled σ α → Polled τ β → Prop where
  | finished {a : α} {b : β} (h : R a b) : Shows R W (.finished a) (.finished b)
  | aborted (c : Abort) : Shows R W (.aborted c) (.aborted c)
  | waiting {t : Future σ α} {u : Future τ β} (h : W t u) : Shows R W (.waiting t) (.waiting u)

theorem Shows.mono {R R' : α → β → Prop} {W W' : Future σ α → Future τ β → Prop}
    (hR : ∀ a b, R a b → R' a b) (hW : ∀ t u, W t u → W' t u) {p : Polled σ α} {q : Polled τ β}
    (h : Shows R W p q) : Shows R' W' p q := by
  cases h with
  | finished hab => exact .finished (hR _ _ hab)
  | aborted c => exact .aborted c
  | waiting htu => exact .waiting (hW _ _ htu)

theorem Shows.result?_eq {W : Future σ α → Future τ α → Prop} {p : Polled σ α} {q : Polled τ α}
    (h : Shows Eq W p q) : p.result? = q.result? := by
  cases h with
  | finished hab => rw [hab]; rfl
  | aborted c => rfl
  | waiting _ => rfl

/-- A way to compare two runs. -/
structure Simulation (K σ τ : Type) [Preorder K] where
  /-- The states agree as far as is known. -/
  agree : K → σ → τ → Prop
  /-- Both runs went on from the first two states to the last two. -/
  move : K → σ → τ → K → σ → τ → Prop
  move_refl : ∀ {k s t}, agree k s t → move k s t k s t
  move_trans : ∀ {k₁ s₁ t₁ k₂ s₂ t₂ k₃ s₃ t₃},
    move k₁ s₁ t₁ k₂ s₂ t₂ → move k₂ s₂ t₂ k₃ s₃ t₃ → move k₁ s₁ t₁ k₃ s₃ t₃
  le_of_move : ∀ {k s t k' s' t'}, move k s t k' s' t' → k ≤ k'

/-- The comparison of runs whose states agree in some sense, and that may move on in any way that
keeps them so. -/
def Simulation.ofAgreement (agree : σ → τ → Prop) : Simulation Unit σ τ where
  agree _ := agree
  move _ _ _ _ _ _ := True
  move_refl _ := trivial
  move_trans _ _ := trivial
  le_of_move _ := le_rfl

namespace Simulation

variable {K : Type} [Preorder K] (S : Simulation K σ τ)

/-- From states that agree at `k` or later both actions end alike, in states that agree. -/
def Acts (R : K → α → β → Prop) (k : K) (a : Action σ α) (b : Action τ β) : Prop :=
  ∀ k₁, k ≤ k₁ → ∀ s t, S.agree k₁ s t →
    ∃ k₂, S.agree k₂ (a.exec s).2 (b.exec t).2 ∧
      S.move k₁ s t k₂ (a.exec s).2 (b.exec t).2 ∧ Ends (R k₂) (a.exec s).1 (b.exec t).1

/-- One poll of both futures shows the same, and `W` relates what is left of them. -/
def PollsTo (R : K → α → β → Prop) (W : K → Future σ α → Future τ β → Prop) (k : K)
    (t : Future σ α) (u : Future τ β) : Prop :=
  ∀ k₁, k ≤ k₁ → ∀ s s', S.agree k₁ s s' →
    ∃ k₂, S.agree k₂ (t.poll s).2 (u.poll s').2 ∧
      S.move k₁ s s' k₂ (t.poll s).2 (u.poll s').2 ∧
      Shows (R k₂) (W k₂) (t.poll s).1 (u.poll s').1

/-- All polls of both futures show the same: some relation holds between them that every poll
keeps. -/
def Runs (R : K → α → β → Prop) (k : K) (t : Future σ α) (u : Future τ β) : Prop :=
  ∃ W : K → Future σ α → Future τ β → Prop,
    (∀ k t u, W k t u → S.PollsTo R W k t u) ∧ W k t u

/-- Both answers are there, or both are still to come. -/
inductive Answers (R : K → α → β → Prop) (k : K) : Eventual σ α → Eventual τ β → Prop where
  | ready {a : α} {b : β} (h : R k a b) : Answers R k (.ready a) (.ready b)
  | pending {t : Future σ α} {u : Future τ β} (h : S.Runs R k t u) :
      Answers R k (.pending t) (.pending u)

/-- Both callbacks start alike, and so do their answers. -/
def Starts (R : K → α → β → Prop) (k : K) (a : Action σ (Eventual σ α))
    (b : Action τ (Eventual τ β)) : Prop :=
  S.Acts (S.Answers R) k a b

variable {S} {R : K → α → β → Prop} {R' : K → α' → β' → Prop} {k k' : K}

/-! ## Actions -/

theorem Acts.mono {a : Action σ α} {b : Action τ β} (h : S.Acts R k a b) (hk : k ≤ k') :
    S.Acts R k' a b :=
  fun k₁ hk₁ => h k₁ (le_trans hk hk₁)

theorem Acts.imp {Q : K → α → β → Prop} (hQ : ∀ k a b, R k a b → Q k a b) {a : Action σ α}
    {b : Action τ β} (h : S.Acts R k a b) : S.Acts Q k a b := by
  intro k₁ hk s t hs
  obtain ⟨k₂, hs₂, hm, he⟩ := h k₁ hk s t hs
  exact ⟨k₂, hs₂, hm, he.imp (hQ k₂)⟩

theorem acts_pure {a : α} {b : β} (h : ∀ k', k ≤ k' → R k' a b) :
    S.Acts R k (pure a) (pure b) :=
  fun k₁ hk _ _ hs => ⟨k₁, hs, S.move_refl hs, .ok (h k₁ hk)⟩

theorem acts_throw (c : Abort) : S.Acts R k (throw c) (throw c) :=
  fun k₁ _ _ _ hs => ⟨k₁, hs, S.move_refl hs, .error c⟩

theorem acts_bind {a : Action σ α} {b : Action τ β} {f : α → Action σ α'} {g : β → Action τ β'}
    (h : S.Acts R k a b)
    (hf : ∀ k', k ≤ k' → ∀ x y, R k' x y → S.Acts R' k' (f x) (g y)) :
    S.Acts R' k (a >>= f) (b >>= g) := by
  intro k₁ hk s t hs
  obtain ⟨k₂, hs₂, hm₂, he⟩ := h k₁ hk s t hs
  simp only [Action.exec_bind]
  revert hs₂ hm₂ he
  rcases a.exec s with ⟨x, s₂⟩
  rcases b.exec t with ⟨y, t₂⟩
  intro hs₂ hm₂ he
  cases he with
  | error c => exact ⟨k₂, hs₂, hm₂, .error c⟩
  | ok hxy =>
    have hk₂ := S.le_of_move hm₂
    obtain ⟨k₃, hs₃, hm₃, he₃⟩ := hf k₂ (le_trans hk hk₂) _ _ hxy k₂ le_rfl _ _ hs₂
    exact ⟨k₃, hs₃, S.move_trans hm₂ hm₃, he₃⟩

/-- An abort is handled alike if the handlers agree. -/
theorem acts_tryCatch {a : Action σ α} {b : Action τ β} {f : Abort → Action σ α}
    {g : Abort → Action τ β} (h : S.Acts R k a b) (hf : ∀ c, S.Acts R k (f c) (g c)) :
    S.Acts R k (tryCatch a f) (tryCatch b g) := by
  intro k₁ hk s t hs
  obtain ⟨k₂, hs₂, hm₂, he⟩ := h k₁ hk s t hs
  simp only [Action.exec_tryCatch]
  revert hs₂ hm₂ he
  rcases a.exec s with ⟨x, s₂⟩
  rcases b.exec t with ⟨y, t₂⟩
  intro hs₂ hm₂ he
  cases he with
  | ok hxy => exact ⟨k₂, hs₂, hm₂, .ok hxy⟩
  | error c =>
    obtain ⟨k₃, hs₃, hm₃, he₃⟩ := hf c k₂ (le_trans hk (S.le_of_move hm₂)) _ _ hs₂
    exact ⟨k₃, hs₃, S.move_trans hm₂ hm₃, he₃⟩

/-! ## Futures -/

theorem PollsTo.mono {W W' : K → Future σ α → Future τ β → Prop}
    (hW : ∀ k t u, W k t u → W' k t u) {t : Future σ α} {u : Future τ β}
    (h : S.PollsTo R W k t u) (hk : k ≤ k') : S.PollsTo R W' k' t u := by
  intro k₁ hk₁ s s' hs
  obtain ⟨k₂, hs₂, hm₂, hp⟩ := h k₁ (le_trans hk hk₁) s s' hs
  exact ⟨k₂, hs₂, hm₂, hp.mono (fun _ _ h => h) (hW k₂)⟩

/-- One poll of futures that agree shows the same and leaves futures that agree. -/
theorem Runs.pollsTo {t : Future σ α} {u : Future τ β} (h : S.Runs R k t u) :
    S.PollsTo R (S.Runs R) k t u := by
  obtain ⟨W, hW, htu⟩ := h
  exact (hW k t u htu).mono (fun k t u hw => ⟨W, hW, hw⟩) le_rfl

theorem runs_of_pollsTo {t : Future σ α} {u : Future τ β}
    (h : S.PollsTo R (S.Runs R) k t u) : S.Runs R k t u := by
  refine ⟨fun k t u => S.PollsTo R (S.Runs R) k t u, ?_, h⟩
  intro k t u htu
  exact htu.mono (fun k t u hw => hw.pollsTo) le_rfl

theorem Runs.mono {t : Future σ α} {u : Future τ β} (h : S.Runs R k t u) (hk : k ≤ k') :
    S.Runs R k' t u :=
  runs_of_pollsTo (h.pollsTo.mono (fun _ _ _ hw => hw) hk)

theorem Runs.imp {Q : K → α → β → Prop} (hQ : ∀ k a b, R k a b → Q k a b) {t : Future σ α}
    {u : Future τ β} (h : S.Runs R k t u) : S.Runs Q k t u := by
  refine ⟨S.Runs R, fun k t u htu k₁ hk s s' hs => ?_, h⟩
  obtain ⟨k₂, hs₂, hm₂, hp⟩ := htu.pollsTo k₁ hk s s' hs
  exact ⟨k₂, hs₂, hm₂, hp.mono (hQ k₂) fun _ _ hw => hw⟩

theorem runs_done {a : α} {b : β} (h : ∀ k', k ≤ k' → R k' a b) :
    S.Runs R k (.done a) (.done b) :=
  runs_of_pollsTo fun k₁ hk _ _ hs => ⟨k₁, hs, S.move_refl hs, .finished (h k₁ hk)⟩

theorem runs_lift {a : Action σ α} {b : Action τ β} (h : S.Acts R k a b) :
    S.Runs R k (.lift a) (.lift b) := by
  refine runs_of_pollsTo fun k₁ hk s s' hs => ?_
  obtain ⟨k₂, hs₂, hm₂, he⟩ := h k₁ hk s s' hs
  simp only [Future.poll_lift]
  revert hs₂ hm₂ he
  rcases a.exec s with ⟨x, s₂⟩
  rcases b.exec s' with ⟨y, t₂⟩
  intro hs₂ hm₂ he
  cases he with
  | error c => exact ⟨k₂, hs₂, hm₂, .aborted c⟩
  | ok hxy => exact ⟨k₂, hs₂, hm₂, .finished hxy⟩

theorem runs_bind {t : Future σ α} {u : Future τ β} {f : α → Future σ α'} {g : β → Future τ β'}
    (h : S.Runs R k t u) (hf : ∀ k', k ≤ k' → ∀ x y, R k' x y → S.Runs R' k' (f x) (g y)) :
    S.Runs R' k (t.bind f) (u.bind g) := by
  -- what every poll keeps: both are still in the first future, or what follows agrees
  refine ⟨fun k p q => S.Runs R' k p q ∨ ∃ t u, p = t.bind f ∧ q = u.bind g ∧
    S.Runs R k t u ∧ ∀ k', k ≤ k' → ∀ x y, R k' x y → S.Runs R' k' (f x) (g y), ?_,
    .inr ⟨t, u, rfl, rfl, h, hf⟩⟩
  rintro k p q (hpq | ⟨t, u, rfl, rfl, h, hf⟩)
  · exact hpq.pollsTo.mono (fun _ _ _ hw => .inl hw) le_rfl
  · intro k₁ hk s s' hs
    obtain ⟨k₂, hs₂, hm₂, hp⟩ := h.pollsTo k₁ hk s s' hs
    have hk₂ := le_trans hk (S.le_of_move hm₂)
    simp only [Future.poll_bind]
    revert hs₂ hm₂ hp
    rcases t.poll s with ⟨x, s₂⟩
    rcases u.poll s' with ⟨y, t₂⟩
    intro hs₂ hm₂ hp
    cases hp with
    | aborted c => exact ⟨k₂, hs₂, hm₂, .aborted c⟩
    | waiting hw =>
      refine ⟨k₂, hs₂, hm₂, .waiting (.inr ⟨_, _, rfl, rfl, hw, ?_⟩)⟩
      exact fun k' hk' => hf k' (le_trans hk₂ hk')
    | finished hab =>
      -- what follows goes on in the same poll
      obtain ⟨k₃, hs₃, hm₃, hp₃⟩ := (hf k₂ hk₂ _ _ hab).pollsTo k₂ le_rfl _ _ hs₂
      exact ⟨k₃, hs₃, S.move_trans hm₂ hm₃, hp₃.mono (fun _ _ h => h) fun _ _ hw => .inl hw⟩

theorem runs_wait {t : Future σ α} {u : Future τ β} (h : S.Runs R k t u) :
    S.Runs R k (.wait t) (.wait u) :=
  runs_of_pollsTo fun k₁ hk _ _ hs => ⟨k₁, hs, S.move_refl hs, .waiting (h.mono hk)⟩

theorem runs_waits {t : Future σ α} {u : Future τ β} (n : Nat) (h : S.Runs R k t u) :
    S.Runs R k (.waits n t) (.waits n u) := by
  induction n with
  | zero => exact h
  | succ n ih => exact runs_wait ih

/-- Futures that agree show the same after any number of polls, if what others do in between keeps
the states in agreement. -/
theorem runs_polls {changes : List (σ → σ)} {changes' : List (τ → τ)}
    (hc : List.Forall₂ (fun c c' => ∀ k s s', S.agree k s s' → S.agree k (c s) (c' s'))
      changes changes')
    {t : Future σ α} {u : Future τ β} (h : S.Runs R k t u) {s : σ} {s' : τ} (hs : S.agree k s s') :
    ∃ k', S.agree k' (t.polls changes s).2 (u.polls changes' s').2 ∧
      Shows (R k') (S.Runs R k') (t.polls changes s).1 (u.polls changes' s').1 := by
  induction hc generalizing k t u s s' with
  | nil => exact ⟨k, hs, .waiting h⟩
  | @cons c c' rest rest' hcc _ ih =>
    obtain ⟨k₂, hs₂, hm₂, hp⟩ := h.pollsTo k le_rfl (c s) (c' s') (hcc k s s' hs)
    simp only [Future.polls]
    revert hs₂ hm₂ hp
    rcases t.poll (c s) with ⟨x, s₂⟩
    rcases u.poll (c' s') with ⟨y, s₂'⟩
    intro hs₂ hm₂ hp
    cases hp with
    | finished hab => exact ⟨k₂, hs₂, .finished hab⟩
    | aborted cause => exact ⟨k₂, hs₂, .aborted cause⟩
    | waiting hw => exact ih hw hs₂

/-! ## Callbacks -/

theorem starts_polls {changes : List (σ → σ)} {changes' : List (τ → τ)}
    (hc : List.Forall₂ (fun c c' => ∀ k s s', S.agree k s s' → S.agree k (c s) (c' s'))
      changes changes')
    {a : Action σ (Eventual σ α)} {b : Action τ (Eventual τ β)} (h : S.Starts R k a b) {s : σ}
    {s' : τ} (hs : S.agree k s s') :
    ∃ k', S.agree k' (a.polls changes s).2 (b.polls changes' s').2 ∧
      Shows (R k') (S.Runs R k') (a.polls changes s).1 (b.polls changes' s').1 := by
  obtain ⟨k₂, hs₂, hm₂, he⟩ := h k le_rfl s s' hs
  simp only [Action.polls]
  revert hs₂ hm₂ he
  rcases a.exec s with ⟨x, s₂⟩
  rcases b.exec s' with ⟨y, s₂'⟩
  intro hs₂ hm₂ he
  cases he with
  | error c => exact ⟨k₂, hs₂, .aborted c⟩
  | ok hxy =>
    cases hxy with
    | ready hab => exact ⟨k₂, hs₂, .finished hab⟩
    | pending htu => exact runs_polls hc htu hs₂

theorem Starts.imp {Q : K → α → β → Prop} (hQ : ∀ k a b, R k a b → Q k a b)
    {a : Action σ (Eventual σ α)} {b : Action τ (Eventual τ β)} (h : S.Starts R k a b) :
    S.Starts Q k a b := by
  refine Acts.imp (fun k e e' he => ?_) h
  cases he with
  | ready hab => exact .ready (hQ k _ _ hab)
  | pending htu => exact .pending (htu.imp hQ)

theorem Answers.mono {e : Eventual σ α} {e' : Eventual τ β}
    (hR : ∀ k k', k ≤ k' → ∀ a b, R k a b → R k' a b) (h : S.Answers R k e e') (hk : k ≤ k') :
    S.Answers R k' e e' := by
  cases h with
  | ready hab => exact .ready (hR k k' hk _ _ hab)
  | pending htu => exact .pending (htu.mono hk)

/-- Actions that agree agree under any timing. -/
theorem starts_start (hR : ∀ k k', k ≤ k' → ∀ a b, R k a b → R k' a b) {a : Action σ α}
    {b : Action τ β} (h : S.Acts R k a b) (t : Timing) : S.Starts R k (t.start a) (t.start b) := by
  cases t with
  | sync =>
    exact acts_bind h fun _ _ _ _ hab => acts_pure fun _ hk => .ready (hR _ _ hk _ _ hab)
  | eager polls =>
    exact acts_bind h fun _ _ _ _ hab => acts_pure fun _ hk =>
      .pending (runs_waits polls (runs_done fun _ hk' => hR _ _ (hk.trans hk') _ _ hab))
  | deferred before after =>
    exact acts_pure fun _ hk => .pending (runs_waits before
      (runs_bind (runs_lift (h.mono hk)) fun _ _ _ _ hab =>
        runs_waits after (runs_done fun _ hk' => hR _ _ hk' _ _ hab)))

end Simulation
end Contracts
