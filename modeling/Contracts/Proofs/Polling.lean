import Contracts.Future

/-!
# Contracts.Proofs.Polling

Futures that are polled while others change the state.

* `Future.polls`   — polls a future again and again; before each poll others change the state.
* `Action.polls`   — starts a callback or a call, and then polls it in the same way.
* `Future.Upholds` — whenever the future waits or gives up `I` holds, and it ends with `Q`, if
  what others do to the state in between is allowed by `R`.
* `upholds_bind`, `upholds_lift` — the rules for a sequence of futures and for an action.
* `upholds_polls`  — what is upheld holds after any sequence of polls.
-/

namespace Contracts

variable {σ α β : Type}

/-- What is left of a poll: the answer or the abort, or nothing while the future waits. -/
def Polled.result? : Polled σ α → Option (Except Abort α)
  | .finished a => some (.ok a)
  | .aborted c => some (.error c)
  | .waiting _ => none

namespace Future

/-- What a future has come to after some polls. Before each poll others change the state. -/
def polls : Future σ α → List (σ → σ) → σ → Polled σ α × σ
  | t, [], s => (.waiting t, s)
  | t, change :: rest, s =>
    match t.poll (change s) with
    | (.waiting t', s') => t'.polls rest s'
    | ended => ended

/-- What follows by a function of the answer alone changes what is shown by that function. -/
theorem polls_bind_done (f : α → β) (t : Future σ α) (changes : List (σ → σ)) (s : σ) :
    ((t.bind fun a => .done (f a)).polls changes s).1.result? =
      (t.polls changes s).1.result?.map (·.map f) ∧
    ((t.bind fun a => .done (f a)).polls changes s).2 = (t.polls changes s).2 := by
  induction changes generalizing t s with
  | nil => exact ⟨rfl, rfl⟩
  | cons change rest ih =>
    simp only [polls, poll_bind]
    rcases t.poll (change s) with ⟨a | c | t', s'⟩
    · exact ⟨rfl, rfl⟩
    · exact ⟨rfl, rfl⟩
    · exact ih t' s'

section Upholds

variable (R : σ → σ → Prop) (I : σ → Prop)

/-- The future, taken up in a state, ends with `Q`. Whenever it waits or gives up `I` holds, and
while it waits others may change the state as `R` allows. -/
def Upholds (Q : α → σ → Prop) : Future σ α → σ → Prop
  | .done a, s => Q a s
  | .abort _, s => I s
  | .get next, s => (next s).Upholds Q s
  | .put s' rest, _ => rest.Upholds Q s'
  | .wait rest, s => I s ∧ ∀ s', R s s' → rest.Upholds Q s'

def PollUpholds (Q : α → σ → Prop) : Polled σ α × σ → Prop
  | (.finished a, s) => Q a s
  | (.aborted _, s) => I s
  | (.waiting rest, s) => I s ∧ ∀ s', R s s' → rest.Upholds R I Q s'

variable {R I}

theorem upholds_iff_poll {Q : α → σ → Prop} (t : Future σ α) (s : σ) :
    t.Upholds R I Q s ↔ PollUpholds R I Q (t.poll s) := by
  induction t generalizing s with
  | done a => rfl
  | abort c => rfl
  | get next ih => exact ih s s
  | put s' rest ih => exact ih s'
  | wait rest _ => rfl

theorem Upholds.mono {Q Q' : α → σ → Prop} (h : ∀ a s, Q a s → Q' a s) {t : Future σ α} {s : σ}
    (ht : t.Upholds R I Q s) : t.Upholds R I Q' s := by
  induction t generalizing s with
  | done a => exact h a s ht
  | abort c => exact ht
  | get next ih => exact ih s ht
  | put s' rest ih => exact ih ht
  | wait rest ih => exact ⟨ht.1, fun s' hs => ih (ht.2 s' hs)⟩

/-- In a sequence of futures the second one starts where the first one ends. -/
theorem upholds_bind {Q : β → σ → Prop} (t : Future σ α) (f : α → Future σ β) (s : σ) :
    (t.bind f).Upholds R I Q s ↔ t.Upholds R I (fun a s' => (f a).Upholds R I Q s') s := by
  induction t generalizing s with
  | done a => rfl
  | abort c => rfl
  | get next ih => exact ih s s
  | put s' rest ih => exact ih s'
  | wait rest ih =>
    constructor
    · rintro ⟨hi, h⟩
      exact ⟨hi, fun s' hs => (ih s').mp (h s' hs)⟩
    · rintro ⟨hi, h⟩
      exact ⟨hi, fun s' hs => (ih s').mpr (h s' hs)⟩

theorem upholds_lift {Q : α → σ → Prop} (a : Action σ α) (s : σ) :
    (lift a).Upholds R I Q s ↔ match a.exec s with
      | (.ok v, s') => Q v s'
      | (.error _, s') => I s' := by
  rw [upholds_iff_poll, poll_lift]
  rcases a.exec s with ⟨_ | v, s'⟩ <;> rfl

/-- What is upheld holds after any sequence of polls, with allowed changes in between. -/
theorem upholds_polls {Q : α → σ → Prop} {changes : List (σ → σ)}
    (hR : ∀ change ∈ changes, ∀ s, R s (change s)) {t : Future σ α} {s : σ} (hi : I s)
    (h : ∀ s', R s s' → t.Upholds R I Q s') : PollUpholds R I Q (t.polls changes s) := by
  induction changes generalizing t s with
  | nil => exact ⟨hi, h⟩
  | cons change rest ih =>
    have first := (upholds_iff_poll t (change s)).mp (h _ (hR change (by simp) s))
    simp only [polls]
    rcases hp : t.poll (change s) with ⟨_ | _ | t', s'⟩ <;> rw [hp] at first
    · exact first
    · exact first
    · exact ih (fun c hc => hR c (by simp [hc])) first.1 first.2

end Upholds

end Future

/-- What a callback or a call has come to after it was started and then polled. Before each of
these polls others change the state. -/
def Action.polls (start : Action σ (Eventual σ α)) (changes : List (σ → σ)) (s : σ) :
    Polled σ α × σ :=
  match start.exec s with
  | (.ok (.ready a), s') => (.finished a, s')
  | (.ok (.pending t), s') => t.polls changes s'
  | (.error c, s') => (.aborted c, s')

end Contracts
