/-!
# Contracts.Action

Effects that end at once.

* `Abort`       — why a run is cut short without a result; what it did before stays done.
* `Action σ α`  — a step from a state to an answer or an abort, and a state.
-/

namespace Contracts

/-- Why a run is cut short. An abort is no error of the program: nothing but a trace sink stops
it. -/
inductive Abort where
  /-- A record was used against its borrow, or a callback gave up. -/
  | panic
  /-- Who runs the callbacks ends the run, for a reason of their own. -/
  | stopped (reason message : String)
  deriving DecidableEq, Repr

/-- Effects on a state `σ` that give an answer or an abort. -/
abbrev Action (σ : Type) : Type → Type := ExceptT Abort (StateM σ)

namespace Action

variable {σ α : Type}

def exec (a : Action σ α) (s : σ) : Except Abort α × σ := (ExceptT.run a).run s

def ofFun (f : σ → Except Abort α × σ) : Action σ α := ExceptT.mk fun s => f s

@[simp] theorem exec_ofFun (f : σ → Except Abort α × σ) (s : σ) : (ofFun f).exec s = f s := rfl

@[simp] theorem exec_pure (a : α) (s : σ) : (pure a : Action σ α).exec s = (.ok a, s) := rfl

/-- What follows an answer starts from the state that was left; an abort ends the whole. -/
theorem exec_bind {β : Type} (a : Action σ α) (f : α → Action σ β) (s : σ) :
    (a >>= f).exec s = match a.exec s with
      | (.ok v, s') => (f v).exec s'
      | (.error c, s') => (.error c, s') := by
  show (StateT.bind (ExceptT.run a) (ExceptT.bindCont f)).run s = _
  rcases h : a.exec s with ⟨v | v, s'⟩ <;>
    (change ExceptT.run a s = _ at h; simp only [StateT.run, StateT.bind, bind, h]; rfl)

/-- A handler starts from the state that the abort left. -/
@[simp] theorem exec_tryCatch (a : Action σ α) (handler : Abort → Action σ α) (s : σ) :
    (tryCatch a handler : Action σ α).exec s = match a.exec s with
      | (.ok v, s') => (.ok v, s')
      | (.error c, s') => (handler c).exec s' := by
  simp only [exec, tryCatch, tryCatchThe, MonadExceptOf.tryCatch, ExceptT.tryCatch,
    ExceptT.run, ExceptT.mk, StateT.run, bind, StateT.bind]
  rcases a s with ⟨c | v, s'⟩ <;> rfl

end Action
end Contracts
