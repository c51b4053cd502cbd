import Contracts.Proofs.Renaming
import Contracts.Script.Meaning

/-!
# Contracts.Proofs.Notes

Scripts that write nothing but notes.

* `World.Kept`       — what was there is as it was, the journal aside.
* `Action.OnlyNotes` — an action that makes records and writes notes, and leaves alone what was
  there.
* `Stmt.isHarmless`  — a statement that writes no record, variable or borrow, leaves the failure
  mode as it is, makes no symbol and uses no wrapped operation or class.
* `onlyNotes_runBody` — bodies of such statements write nothing but notes, however they end.
-/

namespace Contracts

open Script

variable {ε α β : Type}

/-! ## Writing nothing but notes -/

/-- What was there has not changed, the journal aside. Records may have been made. -/
structure World.Kept (w w' : World ε) : Prop where
  records : ∀ r rec, w.heap.record? r = some rec → w'.heap.record? r = some rec
  mode : w'.mode.current = w.mode.current
  nextSymbol : w'.nextSymbol = w.nextSymbol
  own : w'.own = w.own

theorem World.Kept.refl (w : World ε) : w.Kept w := ⟨fun _ _ h => h, rfl, rfl, rfl⟩

theorem World.Kept.trans {w₁ w₂ w₃ : World ε} (h : w₁.Kept w₂) (h' : w₂.Kept w₃) : w₁.Kept w₃ where
  records r rec hr := h'.records r rec (h.records r rec hr)
  mode := h'.mode.trans h.mode
  nextSymbol := h'.nextSymbol.trans h.nextSymbol
  own := h'.own.trans h.own

/-- Notes of callbacks, and nothing else. -/
def Notes (l : List Event) : Prop := ∀ e ∈ l, ∃ label value, e = .note label value

theorem Notes.append {l l' : List Event} (h : Notes l) (h' : Notes l') : Notes (l ++ l') :=
  List.forall_mem_append.mpr ⟨h, h'⟩

/-- Nothing but notes was written. -/
structure World.OnlyNotes (w w' : World ε) : Prop extends w.Kept w' where
  notes : ∃ notes, w'.journal = w.journal ++ notes ∧ Notes notes

theorem World.onlyNotes_of_kept {w w' : World ε} (h : w.Kept w') (hentries : w'.entries = w.entries) :
    w.OnlyNotes w' where
  toKept := h
  notes := ⟨[], by rw [journal, hentries, List.append_nil]; rfl, fun _ h => by cases h⟩

/-- Wherever it is started the action writes nothing but notes. It may end in any way. -/
def Action.OnlyNotes (a : Action (World ε) α) : Prop := ∀ w : World ε, w.OnlyNotes (a.exec w).2

namespace Action

theorem onlyNotes_pure (a : α) : OnlyNotes (pure a : Action (World ε) α) :=
  fun w => World.onlyNotes_of_kept (.refl w) rfl

theorem onlyNotes_throw (c : Abort) : OnlyNotes (throw c : Action (World ε) α) :=
  fun w => World.onlyNotes_of_kept (.refl w) rfl

theorem onlyNotes_bind {a : Action (World ε) α} {f : α → Action (World ε) β} (h : a.OnlyNotes)
    (hf : ∀ x, (f x).OnlyNotes) : OnlyNotes (a >>= f) := by
  intro w
  obtain ⟨hkept, notes, hjournal, hnotes⟩ := h w
  rw [exec_bind]
  revert hkept hjournal
  rcases a.exec w with ⟨c | x, w₁⟩
  · exact fun hkept hjournal => ⟨hkept, notes, hjournal, hnotes⟩
  · intro hkept hjournal
    obtain ⟨hkept', more, hjournal', hmore⟩ := hf x w₁
    refine ⟨hkept.trans hkept', notes ++ more, ?_, hnotes.append hmore⟩
    rw [hjournal', hjournal, List.append_assoc]

theorem onlyNotes_readHeap : OnlyNotes (World.readHeap : Action (World ε) Heap) :=
  fun w => World.onlyNotes_of_kept (.refl w) rfl

theorem onlyNotes_failureMode : OnlyNotes (World.failureMode : Action (World ε) FailureMode) :=
  fun w => World.onlyNotes_of_kept ⟨fun _ _ h => h, w.mode.current_read, rfl, rfl⟩ rfl

theorem onlyNotes_newRecord (rec : Record) :
    OnlyNotes (World.newRecord rec : Action (World ε) Ref) := by
  refine fun w => World.onlyNotes_of_kept ⟨fun _ _ hr => ?_, rfl, rfl, rfl⟩ rfl
  exact Heap.record?_alloc_of_some hr rec

theorem onlyNotes_note (label : String) (value : Tree) :
    OnlyNotes (World.log (.note label value) : Action (World ε) Unit) := fun w => {
  toKept := ⟨fun _ _ h => h, rfl, rfl, rfl⟩
  notes := ⟨[.note label value], World.journal_log _ w, by simp [Notes]⟩ }

end Action

namespace Script

/-! ## Harmless scripts -/

mutual

/-- A literal that makes no symbol. -/
def Literal.isHarmless : Literal → Bool
  | .symbol _ => false
  | .array items => areHarmless items
  | .object _ fields => fieldsAreHarmless fields
  | .copies item _ => item.isHarmless
  | .inArrays _ item => item.isHarmless
  | .inObjects _ item => item.isHarmless
  | .constant _ | .repeated _ _ | .var _ | .malformed _ => true

def Literal.areHarmless : List Literal → Bool
  | [] => true
  | l :: rest => l.isHarmless && areHarmless rest

def Literal.fieldsAreHarmless : List (String × Literal) → Bool
  | [] => true
  | (_, l) :: rest => l.isHarmless && fieldsAreHarmless rest

end

mutual

/-- An expression that makes no symbol and uses no wrapped operation or class. -/
def Expr.isHarmless : Expr → Bool
  | .literal l => l.isHarmless
  | .this | .arg _ | .args | .argCount | .mode => true
  | .list items => areHarmless items
  | .field target _ => target.isHarmless
  | .arith _ a b => a.isHarmless && b.isHarmless
  | .compare _ a b => a.isHarmless && b.isHarmless
  | .same a b => a.isHarmless && b.isHarmless
  | .and a b => a.isHarmless && b.isHarmless
  | .or a b => a.isHarmless && b.isHarmless
  | .query _ a => a.isHarmless
  | .attempt e => e.isHarmless
  | .call _ _ _ | .callMember _ _ _ | .setMember _ _ _ | .getMember _ _ => false

def Expr.areHarmless : List Expr → Bool
  | [] => true
  | e :: rest => e.isHarmless && areHarmless rest

end

mutual

/-- A statement of harmless expressions that writes no variable, record or borrow and does not set
the failure mode. It may make notes, raise an error or give up. -/
def Stmt.isHarmless : Stmt → Bool
  | .give e => e.isHarmless
  | .drop e => e.isHarmless
  | .note _ e => e.isHarmless
  | .branch test yes no => test.isHarmless && areHarmless yes && areHarmless no
  | .raise _ _ | .panic => true
  | .assign _ _ | .setField _ _ _ | .setMode _ | .borrow _ _ => false

def Stmt.areHarmless : List Stmt → Bool
  | [] => true
  | s :: rest => s.isHarmless && areHarmless rest

end

/-! ## Literals -/

theorem onlyNotes_lookup (kind : NameKind) (table : Scope → Table String α) (name : String) :
    (lookup kind table name).OnlyNotes := by
  have hget : Action.OnlyNotes (get : Effect State) :=
    fun w => World.onlyNotes_of_kept (.refl w) rfl
  refine Action.onlyNotes_bind hget fun w => ?_
  cases (table w.own).get? name with
  | some a => exact Action.onlyNotes_pure a
  | none => exact Action.onlyNotes_throw _

theorem onlyNotes_wrapInObjects (depth : Nat) (v : Value) : (wrapInObjects depth v).OnlyNotes := by
  induction depth generalizing v with
  | zero => exact Action.onlyNotes_pure v
  | succ depth ih => exact Action.onlyNotes_bind (Action.onlyNotes_newRecord _) fun r => ih _

mutual

theorem onlyNotes_eval : (l : Literal) → l.isHarmless → l.eval.OnlyNotes
  | .constant s, _ => by
    rw [Literal.eval]
    exact Action.onlyNotes_pure _
  | .repeated _ _, _ => by
    rw [Literal.eval]
    exact Action.onlyNotes_pure _
  | .symbol _, h => by
    rw [Literal.isHarmless] at h
    cases h
  | .array items, h => by
    rw [Literal.isHarmless] at h
    rw [Literal.eval]
    exact Action.onlyNotes_bind (onlyNotes_evalItems items h) fun _ => Action.onlyNotes_pure _
  | .object _ fields, h => by
    rw [Literal.isHarmless] at h
    rw [Literal.eval]
    refine Action.onlyNotes_bind (onlyNotes_evalFields fields h) fun _ => ?_
    exact Action.onlyNotes_bind (Action.onlyNotes_newRecord _) fun _ => Action.onlyNotes_pure _
  | .var name, _ => by
    rw [Literal.eval]
    exact onlyNotes_lookup _ _ name
  | .copies item _, h => by
    rw [Literal.isHarmless] at h
    rw [Literal.eval]
    exact Action.onlyNotes_bind (onlyNotes_eval item h) fun _ => Action.onlyNotes_pure _
  | .inArrays _ item, h => by
    rw [Literal.isHarmless] at h
    rw [Literal.eval]
    exact Action.onlyNotes_bind (onlyNotes_eval item h) fun _ => Action.onlyNotes_pure _
  | .inObjects depth item, h => by
    rw [Literal.isHarmless] at h
    rw [Literal.eval]
    exact Action.onlyNotes_bind (onlyNotes_eval item h) fun v => onlyNotes_wrapInObjects depth v
  | .malformed _, _ => by
    rw [Literal.eval]
    exact Action.onlyNotes_throw _

theorem onlyNotes_evalItems : (items : List Literal) → Literal.areHarmless items →
    (Literal.evalItems items).OnlyNotes
  | [], _ => by
    rw [Literal.evalItems]
    exact Action.onlyNotes_pure _
  | l :: rest, h => by
    rw [Literal.areHarmless, Bool.and_eq_true] at h
    rw [Literal.evalItems]
    refine Action.onlyNotes_bind (onlyNotes_eval l h.1) fun _ => ?_
    exact Action.onlyNotes_bind (onlyNotes_evalItems rest h.2) fun _ => Action.onlyNotes_pure _

theorem onlyNotes_evalFields : (fields : List (String × Literal)) →
    Literal.fieldsAreHarmless fields → (Literal.evalFields fields).OnlyNotes
  | [], _ => by
    rw [Literal.evalFields]
    exact Action.onlyNotes_pure _
  | (_, l) :: rest, h => by
    rw [Literal.fieldsAreHarmless, Bool.and_eq_true] at h
    rw [Literal.evalFields]
    refine Action.onlyNotes_bind (onlyNotes_eval l h.1) fun _ => ?_
    exact Action.onlyNotes_bind (onlyNotes_evalFields rest h.2) fun _ => Action.onlyNotes_pure _

end

/-! ## Expressions -/

/-- A body that writes nothing but notes. It may raise an error, or give up. -/
def BodyNotes (b : Body α) : Prop := Action.OnlyNotes (ExceptT.run b)

theorem bodyNotes_pure (a : α) : BodyNotes (pure a) := Action.onlyNotes_pure (Except.ok a)

theorem bodyNotes_raise (e : ContractError) : BodyNotes (raise e : Body α) :=
  Action.onlyNotes_pure (Except.error e)

theorem bodyNotes_bind {b : Body α} {f : α → Body β} (h : BodyNotes b) (hf : ∀ x, BodyNotes (f x)) :
    BodyNotes (b >>= f) := by
  refine Action.onlyNotes_bind h fun x => ?_
  cases x with
  | ok a => exact hf a
  | error e => exact Action.onlyNotes_pure _

theorem bodyNotes_lift {a : Effect α} (h : a.OnlyNotes) : BodyNotes (liftM a : Body α) :=
  Action.onlyNotes_bind h fun _ => Action.onlyNotes_pure _

theorem bodyNotes_tryCatch {b : Body α} {handler : ContractError → Body α} (h : BodyNotes b)
    (hhandler : ∀ e, BodyNotes (handler e)) : BodyNotes (tryCatch b handler) := by
  refine Action.onlyNotes_bind h fun x => ?_
  cases x with
  | ok a => exact Action.onlyNotes_pure _
  | error e => exact hhandler e

section

variable (host : Host Callback Scope) (env : Env)

/-- Two operands, one after the other. -/
theorem bodyNotes_both {a b : Body Value} (ha : BodyNotes a) (hb : BodyNotes b)
    (f : Value → Value → Value) :
    BodyNotes (do
      let x ← a
      let y ← b
      pure (f x y)) :=
  bodyNotes_bind ha fun _ => bodyNotes_bind hb fun _ => bodyNotes_pure _

/-- What an operand and the heap come to. -/
theorem bodyNotes_view {a : Body Value} (ha : BodyNotes a) (f : Heap → Value → Value) :
    BodyNotes (do
      let v ← a
      let h ← (World.readHeap : Effect Heap)
      pure (f h v)) :=
  bodyNotes_bind ha fun _ =>
    bodyNotes_bind (bodyNotes_lift Action.onlyNotes_readHeap) fun _ => bodyNotes_pure _

mutual

theorem bodyNotes_eval : (e : Expr) → e.isHarmless → BodyNotes (e.eval host env)
  | .literal l, h => by
    rw [Expr.isHarmless] at h
    rw [Expr.eval]
    exact bodyNotes_lift (onlyNotes_eval l h)
  | .this, _ => by
    rw [Expr.eval]
    exact bodyNotes_pure _
  | .arg _, _ => by
    rw [Expr.eval]
    exact bodyNotes_pure _
  | .args, _ => by
    rw [Expr.eval]
    exact bodyNotes_pure _
  | .argCount, _ => by
    rw [Expr.eval]
    exact bodyNotes_pure _
  | .list items, h => by
    rw [Expr.isHarmless] at h
    rw [Expr.eval]
    exact bodyNotes_bind (bodyNotes_evalItems items h) fun _ => bodyNotes_pure _
  | .field target name, h => by
    rw [Expr.isHarmless] at h
    rw [Expr.eval]
    exact bodyNotes_view (bodyNotes_eval target h) fun h v => h.getField v name
  | .arith op a b, h => by
    rw [Expr.isHarmless, Bool.and_eq_true] at h
    rw [Expr.eval]
    exact bodyNotes_both (bodyNotes_eval a h.1) (bodyNotes_eval b h.2) _
  | .compare op a b, h => by
    rw [Expr.isHarmless, Bool.and_eq_true] at h
    rw [Expr.eval]
    exact bodyNotes_both (bodyNotes_eval a h.1) (bodyNotes_eval b h.2) _
  | .same a b, h => by
    rw [Expr.isHarmless, Bool.and_eq_true] at h
    rw [Expr.eval]
    exact bodyNotes_both (bodyNotes_eval a h.1) (bodyNotes_eval b h.2) _
  | .and a b, h => by
    rw [Expr.isHarmless, Bool.and_eq_true] at h
    rw [Expr.eval]
    refine bodyNotes_bind (bodyNotes_eval a h.1) fun _ => ?_
    split
    · exact bodyNotes_eval b h.2
    · exact bodyNotes_pure _
  | .or a b, h => by
    rw [Expr.isHarmless, Bool.and_eq_true] at h
    rw [Expr.eval]
    refine bodyNotes_bind (bodyNotes_eval a h.1) fun _ => ?_
    split
    · exact bodyNotes_pure _
    · exact bodyNotes_eval b h.2
  | .query q a, h => by
    rw [Expr.isHarmless] at h
    rw [Expr.eval]
    exact bodyNotes_view (bodyNotes_eval a h) q.answer
  | .mode, _ => by
    rw [Expr.eval]
    exact bodyNotes_bind (bodyNotes_lift Action.onlyNotes_failureMode) fun _ => bodyNotes_pure _
  | .attempt e, h => by
    rw [Expr.isHarmless] at h
    rw [Expr.eval]
    exact bodyNotes_tryCatch (bodyNotes_eval e h) fun _ => bodyNotes_pure _
  | .call _ _ _, h => by
    rw [Expr.isHarmless] at h
    cases h
  | .callMember _ _ _, h => by
    rw [Expr.isHarmless] at h
    cases h
  | .setMember _ _ _, h => by
    rw [Expr.isHarmless] at h
    cases h
  | .getMember _ _, h => by
    rw [Expr.isHarmless] at h
    cases h

theorem bodyNotes_evalItems : (items : List Expr) → Expr.areHarmless items →
    BodyNotes (Expr.evalItems host env items)
  | [], _ => by
    rw [Expr.evalItems]
    exact bodyNotes_pure _
  | e :: rest, h => by
    rw [Expr.areHarmless, Bool.and_eq_true] at h
    rw [Expr.evalItems]
    refine bodyNotes_bind (bodyNotes_eval e h.1) fun _ => ?_
    exact bodyNotes_bind (bodyNotes_evalItems rest h.2) fun _ => bodyNotes_pure _

end

/-! ## Bodies -/

mutual

theorem bodyNotes_run : (s : Stmt) → s.isHarmless → BodyNotes (s.run host env)
  | .give e, h => by
    rw [Stmt.isHarmless] at h
    rw [Stmt.run]
    exact bodyNotes_bind (bodyNotes_eval host env e h) fun _ => bodyNotes_pure _
  | .drop e, h => by
    rw [Stmt.isHarmless] at h
    rw [Stmt.run]
    exact bodyNotes_bind (bodyNotes_eval host env e h) fun _ => bodyNotes_pure _
  | .note label e, h => by
    rw [Stmt.isHarmless] at h
    rw [Stmt.run]
    refine bodyNotes_bind (bodyNotes_eval host env e h) fun _ => ?_
    refine bodyNotes_bind (bodyNotes_lift Action.onlyNotes_readHeap) fun _ => ?_
    refine bodyNotes_bind (bodyNotes_lift (Action.onlyNotes_note label _)) fun _ => ?_
    exact bodyNotes_pure _
  | .branch test yes no, h => by
    rw [Stmt.isHarmless, Bool.and_eq_true, Bool.and_eq_true] at h
    rw [Stmt.run]
    refine bodyNotes_bind (bodyNotes_eval host env test h.1.1) fun _ => ?_
    split
    · exact bodyNotes_runAll yes h.1.2
    · exact bodyNotes_runAll no h.2
  | .raise _ _, _ => by
    rw [Stmt.run]
    exact bodyNotes_raise _
  | .panic, _ => by
    rw [Stmt.run]
    exact Action.onlyNotes_throw .panic
  | .assign _ _, h => by
    rw [Stmt.isHarmless] at h
    cases h
  | .setField _ _ _, h => by
    rw [Stmt.isHarmless] at h
    cases h
  | .setMode _, h => by
    rw [Stmt.isHarmless] at h
    cases h
  | .borrow _ _, h => by
    rw [Stmt.isHarmless] at h
    cases h

theorem bodyNotes_runAll : (body : List Stmt) → Stmt.areHarmless body →
    BodyNotes (runAll host env body)
  | [], _ => by
    rw [runAll]
    exact bodyNotes_pure _
  | s :: rest, h => by
    rw [Stmt.areHarmless, Bool.and_eq_true] at h
    rw [runAll]
    refine bodyNotes_bind (bodyNotes_run s h.1) fun x => ?_
    cases x with
    | some v => exact bodyNotes_pure _
    | none => exact bodyNotes_runAll rest h.2

end

/-- Harmless bodies write nothing but notes, whatever calls mean. -/
theorem onlyNotes_runBody {body : List Stmt} (h : Stmt.areHarmless body) :
    (runBody host env body).OnlyNotes :=
  bodyNotes_bind (bodyNotes_runAll host env body h) fun _ => bodyNotes_pure _

end

/-- At every depth of calls a harmless script writes nothing but notes where a sink runs it. -/
theorem onlyNotes_deliver {c : Callback} (h : Stmt.areHarmless c.body) (depth : Nat)
    (e : TraceEvent) : ((hostOf depth).deliver c e).OnlyNotes := by
  cases depth with
  | zero => exact Action.onlyNotes_throw .panic
  | succ depth =>
    refine Action.onlyNotes_bind Action.onlyNotes_readHeap fun heap => ?_
    exact Action.onlyNotes_bind (onlyNotes_runBody _ _ h) fun _ => Action.onlyNotes_pure _

end Script
end Contracts
