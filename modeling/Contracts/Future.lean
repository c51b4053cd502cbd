import Contracts.Action

/-!
# Contracts.Future

Computations that may have to wait.

* `Future σ α`  — reads and writes of a state `σ` with points at which it waits.
* `poll`        — runs a future up to its next waiting point.
* `drive`       — polls a future until it ends.
* `waits`       — a future that waits a number of times first.
* `Eventual`    — an answer that is there, or a future that will give it.
* `drive_eq_poll`, `poll_bind`, `drive_bind` — driving is polling again and again, and both go
  through a sequence of futures one after the other.

Between two polls others may change the state; what a future does next depends on the state it
then finds. Every future ends after finitely many polls, whatever happens in between.
-/

namespace Contracts

inductive Future (σ α : Type) where
  | done (value : α)
  | abort (cause : Abort)
  | get (next : σ → Future σ α)
  | put (state : σ) (rest : Future σ α)
  | wait (rest : Future σ α)

inductive Polled (σ α : Type) where
  | finished (value : α)
  | aborted (cause : Abort)
  | waiting (rest : Future σ α)

namespace Future

variable {σ α β : Type}

def bind (t : Future σ α) (f : α → Future σ β) : Future σ β :=
  match t with
  | .done a => f a
  | .abort c => .abort c
  | .get next => .get fun s => (next s).bind f
  | .put s rest => .put s (rest.bind f)
  | .wait rest => .wait (rest.bind f)

instance : Monad (Future σ) where
  pure := .done
  bind := bind

@[simp] theorem pure_eq_done (a : α) : (pure a : Future σ α) = .done a := rfl

@[simp] theorem bind_eq (t : Future σ α) (f : α → Future σ β) : (t >>= f) = t.bind f := rfl

@[simp] theorem done_bind (a : α) (f : α → Future σ β) : (Future.done a).bind f = f a := rfl

theorem bind_done (t : Future σ α) : t.bind .done = t := by
  induction t with
  | done a => rfl
  | abort c => rfl
  | get next ih => exact congrArg Future.get (funext ih)
  | put s rest ih => exact congrArg (Future.put s) ih
  | wait rest ih => exact congrArg Future.wait ih

theorem bind_assoc {γ : Type} (t : Future σ α) (f : α → Future σ β) (g : β → Future σ γ) :
    (t.bind f).bind g = t.bind fun a => (f a).bind g := by
  induction t with
  | done a => rfl
  | abort c => rfl
  | get next ih => exact congrArg Future.get (funext ih)
  | put s rest ih => exact congrArg (Future.put s) ih
  | wait rest ih => exact congrArg Future.wait ih

/-- An action as a future that never waits. -/
def lift (a : Action σ α) : Future σ α :=
  .get fun s =>
    match a.exec s with
    | (.ok v, s') => .put s' (.done v)
    | (.error c, s') => .put s' (.abort c)

/-- A future that waits `n` times before it goes on. -/
def waits : Nat → Future σ α → Future σ α
  | 0, t => t
  | n + 1, t => .wait (waits n t)

def poll : Future σ α → σ → Polled σ α × σ
  | .done a, s => (.finished a, s)
  | .abort c, s => (.aborted c, s)
  | .get next, s => (next s).poll s
  | .put s' rest, _ => rest.poll s'
  | .wait rest, s => (.waiting rest, s)

/-- Polls to the end with nothing happening in between. -/
def drive : Future σ α → σ → Except Abort α × σ
  | .done a, s => (.ok a, s)
  | .abort c, s => (.error c, s)
  | .get next, s => (next s).drive s
  | .put s' rest, _ => rest.drive s'
  | .wait rest, s => rest.drive s

/-- To drive is to poll, and to drive what is left. -/
theorem drive_eq_poll (t : Future σ α) (s : σ) :
    t.drive s = match t.poll s with
      | (.finished a, s') => (.ok a, s')
      | (.aborted c, s') => (.error c, s')
      | (.waiting rest, s') => rest.drive s' := by
  induction t generalizing s with
  | done a => rfl
  | abort c => rfl
  | get next ih => exact ih s s
  | put s' rest ih => exact ih s'
  | wait rest _ => rfl

/-! ## Running what follows -/

/-- A poll of a future with something after it goes on as far as the future does not wait. -/
theorem poll_bind (t : Future σ α) (f : α → Future σ β) (s : σ) :
    (t.bind f).poll s = match t.poll s with
      | (.finished a, s') => (f a).poll s'
      | (.aborted c, s') => (.aborted c, s')
      | (.waiting rest, s') => (.waiting (rest.bind f), s') := by
  induction t generalizing s with
  | done a => rfl
  | abort c => rfl
  | get next ih => exact ih s s
  | put s' rest ih => exact ih s'
  | wait rest _ => rfl

/-- What follows is driven from the state that the future leaves. -/
theorem drive_bind (t : Future σ α) (f : α → Future σ β) (s : σ) :
    (t.bind f).drive s = match t.drive s with
      | (.ok a, s') => (f a).drive s'
      | (.error c, s') => (.error c, s') := by
  induction t generalizing s with
  | done a => rfl
  | abort c => rfl
  | get next ih => exact ih s s
  | put s' rest ih => exact ih s'
  | wait rest ih => exact ih s

@[simp] theorem poll_lift (a : Action σ α) (s : σ) :
    (lift a).poll s = match a.exec s with
      | (.ok v, s') => (.finished v, s')
      | (.error c, s') => (.aborted c, s') := by
  simp only [lift, poll]
  split <;> simp_all [poll]

@[simp] theorem drive_lift (a : Action σ α) (s : σ) : (lift a).drive s = a.exec s := by
  simp only [lift, drive]
  split <;> simp_all [drive]

@[simp] theorem drive_waits (n : Nat) (t : Future σ α) (s : σ) :
    (waits n t).drive s = t.drive s := by
  induction n with
  | zero => rfl
  | succ n ih => exact ih

end Future

/-! ## Answers now or later -/

/-- An answer that is there, or a future that will give it. -/
inductive Eventual (σ α : Type) where
  | ready (value : α)
  | pending (future : Future σ α)

namespace Eventual

variable {σ α β : Type}

def map (f : α → β) : Eventual σ α → Eventual σ β
  | .ready a => .ready (f a)
  | .pending t => .pending (t.bind fun a => .done (f a))

def isPending : Eventual σ α → Bool
  | .ready _ => false
  | .pending _ => true

/-- The answer, if it is there without waiting. -/
def now? : Eventual σ α → Option α
  | .ready a => some a
  | .pending _ => none

def toFuture : Eventual σ α → Future σ α
  | .ready a => .done a
  | .pending t => t

/-- Waits for the answer with nothing happening in between. -/
def finish (e : Eventual σ α) : Action σ α := .ofFun e.toFuture.drive

@[simp] theorem exec_finish (e : Eventual σ α) (s : σ) :
    e.finish.exec s = e.toFuture.drive s := rfl

end Eventual
end Contracts
