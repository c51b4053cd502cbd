import Contracts.Future

/-!
# Contracts.Timing

When an answer is there.

* `Timing`       — at once, or after a number of polls, with the work done early or late.
* `Timing.start` — starts an action under a timing.
* `Timing.finish_start` — no timing changes what the action comes to.
-/

namespace Contracts

/-- When the body of a callback runs, and when its answer is there. -/
inductive Timing where
  /-- The body runs at once and the answer is there. -/
  | sync
  /-- The body runs at once; the answer is there after `polls` polls that find it missing. -/
  | eager (polls : Nat)
  /-- The body runs in the future, after `before` such polls and followed by `after` more. -/
  | deferred (before after : Nat)
  deriving DecidableEq, Repr

def Timing.start {σ α : Type} : Timing → Action σ α → Action σ (Eventual σ α)
  | .sync, a => return .ready (← a)
  | .eager polls, a => do
    let v ← a
    return .pending (.waits polls (.done v))
  | .deferred before after, a =>
    return .pending (.waits before ((Future.lift a).bind fun v => .waits after (.done v)))

/-- An action and the wait for its answer come to the action itself, whatever the timing. -/
theorem Timing.finish_start {σ α : Type} (t : Timing) (a : Action σ α) (s : σ) :
    (do let e ← t.start a; e.finish : Action σ α).exec s = a.exec s := by
  rw [Action.exec_bind]
  cases t with
  | sync =>
    simp only [start, Action.exec_bind]
    rcases a.exec s with ⟨_ | v, s'⟩ <;> rfl
  | eager polls =>
    simp only [start, Action.exec_bind]
    rcases a.exec s with ⟨_ | v, s'⟩
    · rfl
    · exact Future.drive_waits polls (.done v) s'
  | deferred before after =>
    have ends : (a.exec s) = ((Future.lift a).bind fun v => .waits after (.done v)).drive s := by
      rw [Future.drive_bind, Future.drive_lift]
      rcases a.exec s with ⟨_ | v, s'⟩
      · rfl
      · exact (Future.drive_waits after (.done v) s').symm
    rw [ends]
    exact Future.drive_waits before _ s

end Contracts
