import Contracts.Proofs.Blindness
import Contracts.Script.Meaning

/-!
# Contracts.Proofs.Scripts

Two runs of scripts, side by side.

* `Comparison.Scripts` — a comparison of runs that is kept by everything a script can do to a state.
* `BodyActs`           — bodies that agree, with the errors that they raise.
* `acts_eval`, `bodyActs_eval`, `acts_runBody` — then all scripts agree, by recursion on their text.
* `sameAnswers_meaning` — and so do callbacks that are written as scripts.
* `hostOf_blind`       — such callbacks do not see the journal, however deep their calls are nested.
-/

namespace Contracts

open List (Forall₂)
open Script

variable {α β α' β' : Type}

/-- Scopes whose variables and instances stand for each other, and whose contracts differ in their
traces. -/
structure Script.Scope.Alike (V : Value → Value → Prop)
    (T : TraceSetting Callback → TraceSetting Callback → Prop) (s s' : Scope) : Prop where
  values : s.values.Alike V s'.values
  functions : s.functions.Alike (Wrapped.Retraced T) s'.functions
  contracts : s.contracts.Alike (Spec.Retraced T) s'.contracts
  classes : s.classes.Alike (Class.Retraced T) s'.classes
  instances : s.instances.Alike (Instance.Retraced T V) s'.instances

theorem Script.Scope.Alike.refl {T : TraceSetting Callback → TraceSetting Callback → Prop}
    (hT : ∀ t, T t t) (s : Scope) : s.Alike Eq T s where
  values := List.forall₂_same.mpr fun _ _ => ⟨rfl, rfl⟩
  functions := List.forall₂_same.mpr fun _ _ => ⟨rfl, .refl hT _⟩
  contracts := List.forall₂_same.mpr fun _ _ => ⟨rfl, .refl hT _⟩
  classes := List.forall₂_same.mpr fun _ _ => ⟨rfl, .refl hT _⟩
  instances := List.forall₂_same.mpr fun _ _ => ⟨rfl, .refl hT _, rfl⟩

/-- Environments that stand for each other. -/
structure Script.Env.Alike (V : Value → Value → Prop) (env env' : Env) : Prop where
  this : V env.this env'.this
  args : Forall₂ V env.args env'.args

namespace Comparison

variable {K : Type} [Preorder K]

/-- A comparison of runs that is kept by everything a script can do to a state. -/
structure Scripts (C : Comparison K Scope Scope)
    (T : TraceSetting Callback → TraceSetting Callback → Prop) : Prop extends C.Objects where
  scalar : ∀ k s, C.value k (.scalar s) (.scalar s)
  array : ∀ {k vs vs'}, Forall₂ (C.value k) vs vs' → C.value k (.array vs) (.array vs')
  same : ∀ {k a a' b b'}, C.value k a a' → C.value k b b' → a.same b = a'.same b'
  className : ∀ {k w w' r r'}, C.agree k w w' → C.value k (.object r) (.object r') →
    w.heap.className? r = w'.heap.className? r'
  unfold : ∀ {k w w' v v'}, C.agree k w w' → C.value k v v' → w.heap.unfold v = w'.heap.unfold v'
  scope : ∀ {k w w'}, C.agree k w w' → w.own.Alike (C.value k) T w'.own
  bindVariable : ∀ {k} (name : String) {v v'}, C.value k v v' →
    C.Acts (fun _ => Eq) k (bindVariable name v) (bindVariable name v')
  newSymbol : ∀ {k} (description : Option String),
    C.Acts (fun _ => Eq) k (World.newSymbol description) (World.newSymbol description)
  setFailureMode : ∀ {k} (m : FailureMode),
    C.Acts (fun _ => Eq) k (World.setFailureMode m) (World.setFailureMode m)
  borrow : ∀ {k r r'} (change : BorrowChange), C.value k (.object r) (.object r') →
    C.Acts (fun _ => Eq) k (change.apply r) (change.apply r')

/-! ## Bodies -/

/-- Both bodies come to results that stand for each other, or raise the same error, or give up. -/
def BodyActs (C : Comparison K Scope Scope) (R : K → α → β → Prop) (k : K) (b : Body α)
    (b' : Body β) : Prop :=
  C.Acts (fun k => Ends (R k)) k (ExceptT.run b) (ExceptT.run b')

variable {C : Comparison K Scope Scope} {T : TraceSetting Callback → TraceSetting Callback → Prop}
  {R : K → α → β → Prop} {R' : K → α' → β' → Prop} {k k' : K}

theorem BodyActs.mono {b : Body α} {b' : Body β} (h : C.BodyActs R k b b') (hk : k ≤ k') :
    C.BodyActs R k' b b' :=
  Simulation.Acts.mono h hk

theorem bodyActs_pure {a : α} {b : β} (h : ∀ k', k ≤ k' → R k' a b) :
    C.BodyActs R k (pure a) (pure b) := by
  have hok : C.Acts (fun k => Ends (R k)) k (pure (.ok a) : Effect (Except ContractError α))
      (pure (.ok b)) := Simulation.acts_pure fun k' hk => .ok (h k' hk)
  exact hok

theorem bodyActs_raise (e : ContractError) : C.BodyActs R k (raise e) (raise e) := by
  have herror : C.Acts (fun k => Ends (R k)) k (pure (.error e) : Effect (Except ContractError α))
      (pure (.error e)) := Simulation.acts_pure fun _ _ => .error e
  exact herror

theorem bodyActs_bind {b : Body α} {b' : Body β} {f : α → Body α'} {f' : β → Body β'}
    (h : C.BodyActs R k b b')
    (hf : ∀ k', k ≤ k' → ∀ x y, R k' x y → C.BodyActs R' k' (f x) (f' y)) :
    C.BodyActs R' k (b >>= f) (b' >>= f') := by
  refine Simulation.acts_bind h fun k' hk x y hxy => ?_
  cases hxy with
  | ok hab => exact hf k' hk _ _ hab
  | error e => exact Simulation.acts_pure fun _ _ => .error e

theorem bodyActs_lift (hR : ∀ k k', k ≤ k' → ∀ a b, R k a b → R k' a b) {a : Effect α}
    {b : Effect β} (h : C.Acts R k a b) : C.BodyActs R k (liftM a) (liftM b) :=
  Simulation.acts_bind h fun k' _ x y hxy =>
    Simulation.acts_pure fun k'' hk => .ok (hR k' k'' hk x y hxy)

theorem bodyActs_tryCatch (hR : ∀ k k', k ≤ k' → ∀ a b, R k a b → R k' a b) {b : Body α}
    {b' : Body β} {handler : ContractError → Body α} {handler' : ContractError → Body β}
    (h : C.BodyActs R k b b')
    (hhandler : ∀ k', k ≤ k' → ∀ e, C.BodyActs R k' (handler e) (handler' e)) :
    C.BodyActs R k (tryCatch b handler) (tryCatch b' handler') := by
  refine Simulation.acts_bind h fun k' hk x y hxy => ?_
  cases hxy with
  | ok hab => exact Simulation.acts_pure fun k'' hk' => .ok (hR k' k'' hk' _ _ hab)
  | error e => exact hhandler k' hk e

theorem bodyActs_readHeap {f : Heap → Body α} {f' : Heap → Body β}
    (h : ∀ k', k ≤ k' → ∀ w w', C.agree k' w w' → C.BodyActs R k' (f w.heap) (f' w'.heap)) :
    C.BodyActs R k (do let h ← (World.readHeap : Effect Heap); f h)
      (do let h ← (World.readHeap : Effect Heap); f' h) :=
  fun k₁ hk w w' hw => h k₁ hk w w' hw k₁ le_rfl w w' hw

/-- An effect that comes before the end of a statement. -/
theorem bodyActs_effect {a b : Effect α} (h : C.Acts (fun _ => Eq) k a b) :
    C.BodyActs (fun k => Option.Rel (C.value k)) k (do let _ ← (a : Effect α); pure none)
      (do let _ ← (b : Effect α); pure none) :=
  bodyActs_bind (bodyActs_lift (fun _ _ _ _ _ h => h) h) fun _ _ _ _ _ => bodyActs_pure fun _ _ => .none

namespace Scripts

/-! ## Names and literals -/

/-- What is bound in scopes that agree is looked up alike. -/
theorem acts_lookup {Q : K → α → α → Prop} (kind : NameKind) {table : Scope → Table String α}
    (htable : ∀ k w w', C.agree k w w' → (table w.own).Alike (Q k) (table w'.own)) (name : String) :
    C.Acts Q k (lookup kind table name) (lookup kind table name) := by
  intro k₁ hk w w' hw
  have hexec : ∀ w : State, (lookup kind table name).exec w =
      (((table w.own).get? name).elim (.error (missing kind name)) .ok, w) := by
    intro w
    rw [lookup, Action.exec_bind]
    simp only [show (get : Effect State).exec w = (.ok w, w) from rfl]
    cases (table w.own).get? name <;> rfl
  have hget := (htable k₁ w w' hw).get? name
  rw [hexec, hexec]
  revert hget
  generalize (table w.own).get? name = x
  generalize (table w'.own).get? name = y
  rintro (hab | _)
  · exact ⟨k₁, hw, C.move_refl hw, .ok hab⟩
  · exact ⟨k₁, hw, C.move_refl hw, .error _⟩

section

variable (hc : C.Scripts T)

include hc

theorem acts_lookupVariable (name : String) :
    C.Acts C.value k (lookupVariable name) (lookupVariable name) :=
  acts_lookup .variable (fun _ _ _ hw => (hc.scope hw).values) name

theorem acts_lookupFunction (name : String) :
    C.Acts (fun _ => Wrapped.Retraced T) k (lookupFunction name) (lookupFunction name) :=
  acts_lookup .function (fun _ _ _ hw => (hc.scope hw).functions) name

theorem acts_lookupContract (name : String) :
    C.Acts (fun _ => Spec.Retraced T) k (lookupContract name) (lookupContract name) :=
  acts_lookup .contract (fun _ _ _ hw => (hc.scope hw).contracts) name

theorem acts_lookupClass (name : String) :
    C.Acts (fun _ => Class.Retraced T) k (lookupClass name) (lookupClass name) :=
  acts_lookup .ofClass (fun _ _ _ hw => (hc.scope hw).classes) name

theorem acts_lookupInstance (name : String) :
    C.Acts (fun k => Instance.Retraced T (C.value k)) k (lookupInstance name)
      (lookupInstance name) :=
  acts_lookup .ofInstance (fun _ _ _ hw => (hc.scope hw).instances) name

theorem acts_wrapInObjects (depth : Nat) {v v' : Value} (hv : C.value k v v') :
    C.Acts C.value k (wrapInObjects depth v) (wrapInObjects depth v') := by
  induction depth generalizing k v v' with
  | zero => exact Simulation.acts_pure fun _ hk => C.value_mono hk hv
  | succ depth ih =>
    exact Simulation.acts_bind (hc.create none (.cons ⟨rfl, hv⟩ .nil)) fun _ _ _ _ hr => ih hr

theorem value_wrapInArrays (depth : Nat) {v v' : Value} (hv : C.value k v v') :
    C.value k (wrapInArrays depth v) (wrapInArrays depth v') := by
  induction depth generalizing v v' with
  | zero => exact hv
  | succ depth ih => exact ih (hc.array (.cons hv .nil))

end

mutual

theorem acts_eval (hc : C.Scripts T) : (l : Literal) → C.Acts C.value k l.eval l.eval
  | .constant s => by
    rw [Literal.eval]
    exact Simulation.acts_pure fun _ _ => hc.scalar _ s
  | .repeated _ _ => by
    rw [Literal.eval]
    exact Simulation.acts_pure fun _ _ => hc.scalar _ _
  | .symbol description => by
    rw [Literal.eval]
    refine Simulation.acts_bind (hc.newSymbol description) fun _ _ _ _ hs => ?_
    exact Simulation.acts_pure fun _ _ => hs ▸ hc.scalar _ _
  | .array items => by
    rw [Literal.eval]
    refine Simulation.acts_bind (acts_evalItems hc items) fun _ _ _ _ hvs => ?_
    exact Simulation.acts_pure fun _ hk =>
      hc.array (hvs.imp fun _ _ => C.value_mono hk)
  | .object className fields => by
    rw [Literal.eval]
    refine Simulation.acts_bind (acts_evalFields hc fields) fun _ _ _ _ hfs => ?_
    refine Simulation.acts_bind (hc.create className (.ofList hfs)) fun _ _ _ _ hr => ?_
    exact Simulation.acts_pure fun _ hk => C.value_mono hk hr
  | .var name => by
    rw [Literal.eval]
    exact hc.acts_lookupVariable name
  | .copies item count => by
    rw [Literal.eval]
    refine Simulation.acts_bind (acts_eval hc item) fun _ _ _ _ hv => ?_
    exact Simulation.acts_pure fun _ hk =>
      hc.array (forall₂_replicate (C.value_mono hk hv) count)
  | .inArrays depth item => by
    rw [Literal.eval]
    refine Simulation.acts_bind (acts_eval hc item) fun _ _ _ _ hv => ?_
    exact Simulation.acts_pure fun _ hk => hc.value_wrapInArrays depth (C.value_mono hk hv)
  | .inObjects depth item => by
    rw [Literal.eval]
    exact Simulation.acts_bind (acts_eval hc item) fun _ _ _ _ hv => hc.acts_wrapInObjects depth hv
  | .malformed _ => by
    rw [Literal.eval]
    exact Simulation.acts_throw _

theorem acts_evalItems (hc : C.Scripts T) : (items : List Literal) →
    C.Acts (fun k => Forall₂ (C.value k)) k (Literal.evalItems items) (Literal.evalItems items)
  | [] => by
    rw [Literal.evalItems]
    exact Simulation.acts_pure fun _ _ => .nil
  | l :: rest => by
    rw [Literal.evalItems]
    refine Simulation.acts_bind (acts_eval hc l) fun _ hk₁ _ _ hv => ?_
    refine Simulation.acts_bind ((acts_evalItems hc rest).mono hk₁) fun _ hk _ _ hvs => ?_
    exact Simulation.acts_pure fun _ hk' =>
      .cons (C.value_mono (hk.trans hk') hv) (hvs.imp fun _ _ => C.value_mono hk')

theorem acts_evalFields (hc : C.Scripts T) : (fields : List (String × Literal)) →
    C.Acts (fun k => Forall₂ fun p q => p.1 = q.1 ∧ C.value k p.2 q.2) k
      (Literal.evalFields fields) (Literal.evalFields fields)
  | [] => by
    rw [Literal.evalFields]
    exact Simulation.acts_pure fun _ _ => .nil
  | (_, l) :: rest => by
    rw [Literal.evalFields]
    refine Simulation.acts_bind (acts_eval hc l) fun _ hk₁ _ _ hv => ?_
    refine Simulation.acts_bind ((acts_evalFields hc rest).mono hk₁) fun _ hk _ _ hfs => ?_
    exact Simulation.acts_pure fun _ hk' => .cons ⟨rfl, C.value_mono (hk.trans hk') hv⟩
      (hfs.imp fun _ _ hf => ⟨hf.1, C.value_mono hk' hf.2⟩)

end

section

variable (hc : C.Scripts T)

include hc

theorem acts_key (l : Literal) : C.Acts (fun _ => Eq) k l.key l.key := by
  unfold Literal.key
  refine Simulation.acts_bind (hc.acts_eval l) fun _ _ v v' hv => ?_
  rcases hc.shape hv with ⟨s, rfl, rfl⟩ | ⟨vs, vs', rfl, rfl, _⟩ | ⟨r, r', rfl, rfl⟩
  · cases s with
    | string s => exact Simulation.acts_pure fun _ _ => rfl
    | symbol s => exact Simulation.acts_pure fun _ _ => rfl
    | _ => exact Simulation.acts_throw _
  · exact Simulation.acts_throw _
  · exact Simulation.acts_throw _

/-! ## Views of values -/

theorem isTruthy_eq {v v' : Value} (hv : C.value k v v') : v.isTruthy = v'.isTruthy := by
  rcases hc.shape hv with ⟨s, rfl, rfl⟩ | ⟨vs, vs', rfl, rfl, _⟩ | ⟨r, r', rfl, rfl⟩ <;> rfl

theorem typeName_eq {v v' : Value} (hv : C.value k v v') : v.typeName = v'.typeName := by
  rcases hc.shape hv with ⟨s, rfl, rfl⟩ | ⟨vs, vs', rfl, rfl, _⟩ | ⟨r, r', rfl, rfl⟩ <;> rfl

theorem toNumber?_eq {v v' : Value} (hv : C.value k v v') : v.toNumber? = v'.toNumber? := by
  rcases hc.shape hv with ⟨s, rfl, rfl⟩ | ⟨vs, vs', rfl, rfl, _⟩ | ⟨r, r', rfl, rfl⟩ <;> rfl

theorem holds_eq (op : Script.Comparison) {a a' b b' : Value} (ha : C.value k a a')
    (hb : C.value k b b') : op.holds a b = op.holds a' b' := by
  rw [Script.Comparison.holds, Script.Comparison.holds, hc.toNumber?_eq ha, hc.toNumber?_eq hb]

theorem toNumber_eq {v v' : Value} (hv : C.value k v v') : v.toNumber = v'.toNumber := by
  rw [Value.toNumber, Value.toNumber, hc.toNumber?_eq hv]

theorem value_answer {w w' : State} (hw : C.agree k w w') (q : Query) {v v' : Value}
    (hv : C.value k v v') : C.value k (q.answer w.heap v) (q.answer w'.heap v') := by
  cases q with
  | negation =>
    rw [Query.answer, Query.answer, hc.isTruthy_eq hv]
    exact hc.scalar _ _
  | isFinite =>
    rw [Query.answer, Query.answer, hc.toNumber?_eq hv]
    exact hc.scalar _ _
  | isWhole =>
    rw [Query.answer, Query.answer, hc.toNumber?_eq hv]
    exact hc.scalar _ _
  | isString =>
    rcases hc.shape hv with ⟨s, rfl, rfl⟩ | ⟨vs, vs', rfl, rfl, _⟩ | ⟨r, r', rfl, rfl⟩
    · cases s <;> exact hc.scalar _ _
    · exact hc.scalar _ _
    · exact hc.scalar _ _
  | typeName =>
    rw [Query.answer, Query.answer, hc.typeName_eq hv]
    exact hc.scalar _ _
  | className =>
    rcases hc.shape hv with ⟨s, rfl, rfl⟩ | ⟨vs, vs', rfl, rfl, _⟩ | ⟨r, r', rfl, rfl⟩
    · exact hc.scalar _ _
    · exact hc.scalar _ _
    · simp only [Query.answer, hc.className hw hv]
      split
      · exact hc.scalar _ _
      · exact hc.scalar _ _
  | rendering =>
    rw [Query.answer, Query.answer, C.render hw hv]
    exact hc.scalar _ _

theorem acts_target {v v' : Value} (hv : C.value k v v') :
    C.BodyActs (fun k r r' => C.value k (.object r) (.object r')) k (target v) (target v') := by
  rcases hc.shape hv with ⟨s, rfl, rfl⟩ | ⟨vs, vs', rfl, rfl, _⟩ | ⟨r, r', rfl, rfl⟩
  · exact bodyActs_raise _
  · exact bodyActs_raise _
  · exact bodyActs_pure fun _ hk => C.value_mono hk hv

end

/-! ## Expressions -/

section

variable {host host' : Host Callback Scope}

theorem value_grows : ∀ k k', k ≤ k' → ∀ v v', C.value k v v' → C.value k' v v' :=
  fun _ _ hk _ _ => C.value_mono hk

theorem outcome_grows : ∀ k k', k ≤ k' → ∀ r r', C.OutcomeSame k r r' → C.OutcomeSame k' r r' :=
  fun _ _ hk _ _ => OutcomeSame.mono hk

theorem instance_grows : ∀ k k', k ≤ k' → ∀ i i', Instance.Retraced T (C.value k) i i' →
    Instance.Retraced T (C.value k') i i' :=
  fun _ _ hk _ _ hi => ⟨hi.ofClass, C.value_mono hk hi.this⟩

theorem bodyActs_await {start start' : Effect (Completion Scope)}
    (h : C.Starts C.OutcomeSame k start start') :
    C.BodyActs C.value k (await start) (await start') :=
  Simulation.starts_drive outcome_grows h

mutual

/-- Expressions come to values that stand for each other. -/
theorem bodyActs_eval (hc : C.Scripts T) (hh : C.SameHosts T host host') {env env' : Env}
    (he : env.Alike (C.value k) env') :
    (e : Expr) → C.BodyActs C.value k (e.eval host env) (e.eval host' env')
  | .literal l => by
    rw [Expr.eval, Expr.eval]
    exact bodyActs_lift value_grows (hc.acts_eval l)
  | .this => by
    rw [Expr.eval, Expr.eval]
    exact bodyActs_pure fun _ hk => C.value_mono hk he.this
  | .arg index => by
    rw [Expr.eval, Expr.eval]
    have harg := getD_rel (forall₂_getElem? he.args index) (C.undefined k)
    exact bodyActs_pure fun _ hk => C.value_mono hk harg
  | .args => by
    rw [Expr.eval, Expr.eval]
    exact bodyActs_pure fun _ hk => C.value_mono hk (hc.array he.args)
  | .argCount => by
    rw [Expr.eval, Expr.eval, he.args.length_eq]
    exact bodyActs_pure fun _ _ => hc.scalar _ _
  | .list items => by
    rw [Expr.eval, Expr.eval]
    refine bodyActs_bind (bodyActs_evalItems hc hh he items) fun _ _ _ _ hvs => ?_
    exact bodyActs_pure fun _ hk => C.value_mono hk (hc.array hvs)
  | .field target name => by
    rw [Expr.eval, Expr.eval]
    refine bodyActs_bind (bodyActs_eval hc hh he target) fun _ _ _ _ hv => ?_
    refine bodyActs_readHeap fun _ hk _ _ hw => ?_
    exact bodyActs_pure fun _ hk' => C.value_mono hk' (hc.field name hw (C.value_mono hk hv))
  | .arith op a b => by
    rw [Expr.eval, Expr.eval]
    refine bodyActs_bind (bodyActs_eval hc hh he a) fun _ hk _ _ ha => ?_
    refine bodyActs_bind ((bodyActs_eval hc hh he b).mono hk) fun _ _ _ _ hb => ?_
    rw [hc.toNumber_eq ha, hc.toNumber_eq hb]
    exact bodyActs_pure fun _ _ => hc.scalar _ _
  | .compare op a b => by
    rw [Expr.eval, Expr.eval]
    refine bodyActs_bind (bodyActs_eval hc hh he a) fun _ hk _ _ ha => ?_
    refine bodyActs_bind ((bodyActs_eval hc hh he b).mono hk) fun _ hk' _ _ hb => ?_
    rw [hc.holds_eq op (C.value_mono hk' ha) hb]
    exact bodyActs_pure fun _ _ => hc.scalar _ _
  | .same a b => by
    rw [Expr.eval, Expr.eval]
    refine bodyActs_bind (bodyActs_eval hc hh he a) fun _ hk _ _ ha => ?_
    refine bodyActs_bind ((bodyActs_eval hc hh he b).mono hk) fun _ hk' _ _ hb => ?_
    rw [hc.same (C.value_mono hk' ha) hb]
    exact bodyActs_pure fun _ _ => hc.scalar _ _
  | .and a b => by
    rw [Expr.eval, Expr.eval]
    refine bodyActs_bind (bodyActs_eval hc hh he a) fun _ hk _ _ ha => ?_
    rw [hc.isTruthy_eq ha]
    split
    · exact (bodyActs_eval hc hh he b).mono hk
    · exact bodyActs_pure fun _ hk' => C.value_mono hk' ha
  | .or a b => by
    rw [Expr.eval, Expr.eval]
    refine bodyActs_bind (bodyActs_eval hc hh he a) fun _ hk _ _ ha => ?_
    rw [hc.isTruthy_eq ha]
    split
    · exact bodyActs_pure fun _ hk' => C.value_mono hk' ha
    · exact (bodyActs_eval hc hh he b).mono hk
  | .query q a => by
    rw [Expr.eval, Expr.eval]
    refine bodyActs_bind (bodyActs_eval hc hh he a) fun _ _ _ _ hv => ?_
    refine bodyActs_readHeap fun _ hk _ _ hw => ?_
    exact bodyActs_pure fun _ hk' =>
      C.value_mono hk' (hc.value_answer hw q (C.value_mono hk hv))
  | .mode => by
    rw [Expr.eval, Expr.eval]
    refine bodyActs_bind (bodyActs_lift (fun _ _ _ _ _ h => h) (acts_effectiveMode none)) ?_
    rintro _ _ m _ rfl
    exact bodyActs_pure fun _ _ => hc.scalar _ _
  | .call function receiver inputs => by
    rw [Expr.eval, Expr.eval]
    refine bodyActs_bind (bodyActs_eval hc hh he receiver) fun _ hk₁ _ _ hv => ?_
    refine bodyActs_bind ((bodyActs_evalItems hc hh he inputs).mono hk₁) fun _ hk₂ _ _ hvs => ?_
    refine bodyActs_bind (bodyActs_lift (fun _ _ _ _ _ h => h) (hc.acts_lookupFunction function))
      fun _ hk₃ _ _ hf => ?_
    exact bodyActs_await (hh.wrapped hf (C.value_mono (hk₂.trans hk₃) hv)
      (hvs.imp fun _ _ => C.value_mono hk₃))
  | .callMember on key inputs => by
    rw [Expr.eval, Expr.eval]
    refine bodyActs_bind (bodyActs_evalItems hc hh he inputs) fun _ _ _ _ hvs => ?_
    refine bodyActs_bind (bodyActs_lift instance_grows (hc.acts_lookupInstance on))
      fun _ hk₁ _ _ hi => ?_
    refine bodyActs_bind (bodyActs_lift (fun _ _ _ _ _ h => h) (hc.acts_key key)) ?_
    rintro _ hk₂ key _ rfl
    exact bodyActs_await (hh.callMember (instance_grows _ _ hk₂ _ _ hi) key
      (hvs.imp fun _ _ => C.value_mono (hk₁.trans hk₂)))
  | .setMember on key value => by
    rw [Expr.eval, Expr.eval]
    refine bodyActs_bind (bodyActs_eval hc hh he value) fun _ _ _ _ hv => ?_
    refine bodyActs_bind (bodyActs_lift instance_grows (hc.acts_lookupInstance on))
      fun _ hk₁ _ _ hi => ?_
    refine bodyActs_bind (bodyActs_lift (fun _ _ _ _ _ h => h) (hc.acts_key key)) ?_
    rintro _ hk₂ key _ rfl
    exact bodyActs_await (hh.setMember hc.toObjects (instance_grows _ _ hk₂ _ _ hi) key
      (C.value_mono (hk₁.trans hk₂) hv))
  | .getMember on key => by
    rw [Expr.eval, Expr.eval]
    refine bodyActs_bind (bodyActs_lift instance_grows (hc.acts_lookupInstance on))
      fun _ _ _ _ hi => ?_
    refine bodyActs_bind (bodyActs_lift (fun _ _ _ _ _ h => h) (hc.acts_key key)) ?_
    rintro _ hk key _ rfl
    exact bodyActs_lift value_grows (hh.getMember hc.toObjects (instance_grows _ _ hk _ _ hi) key)
  | .attempt e => by
    rw [Expr.eval, Expr.eval]
    refine bodyActs_tryCatch value_grows (bodyActs_eval hc hh he e) fun _ _ _ => ?_
    exact bodyActs_pure fun _ _ => hc.scalar _ _

theorem bodyActs_evalItems (hc : C.Scripts T) (hh : C.SameHosts T host host') {env env' : Env}
    (he : env.Alike (C.value k) env') : (items : List Expr) →
      C.BodyActs (fun k => Forall₂ (C.value k)) k (Expr.evalItems host env items)
        (Expr.evalItems host' env' items)
  | [] => by
    rw [Expr.evalItems, Expr.evalItems]
    exact bodyActs_pure fun _ _ => .nil
  | e :: rest => by
    rw [Expr.evalItems, Expr.evalItems]
    refine bodyActs_bind (bodyActs_eval hc hh he e) fun _ hk₁ _ _ hv => ?_
    refine bodyActs_bind ((bodyActs_evalItems hc hh he rest).mono hk₁) fun _ hk₂ _ _ hvs => ?_
    exact bodyActs_pure fun _ hk₃ =>
      .cons (C.value_mono (hk₂.trans hk₃) hv) (hvs.imp fun _ _ => C.value_mono hk₃)

end

/-! ## Statements and bodies -/

mutual

/-- Statements give values that stand for each other, or none. -/
theorem bodyActs_run (hc : C.Scripts T) (hh : C.SameHosts T host host') {env env' : Env}
    (he : env.Alike (C.value k) env') : (s : Stmt) →
      C.BodyActs (fun k => Option.Rel (C.value k)) k (s.run host env) (s.run host' env')
  | .give e => by
    rw [Stmt.run, Stmt.run]
    refine bodyActs_bind (bodyActs_eval hc hh he e) fun _ _ _ _ hv => ?_
    exact bodyActs_pure fun _ hk => .some (C.value_mono hk hv)
  | .drop e => by
    rw [Stmt.run, Stmt.run]
    exact bodyActs_bind (bodyActs_eval hc hh he e) fun _ _ _ _ _ => bodyActs_pure fun _ _ => .none
  | .assign name e => by
    rw [Stmt.run, Stmt.run]
    refine bodyActs_bind (bodyActs_eval hc hh he e) fun _ _ _ _ hv => ?_
    exact bodyActs_effect (hc.bindVariable name hv)
  | .setField object name value => by
    rw [Stmt.run, Stmt.run]
    refine bodyActs_bind (bodyActs_eval hc hh he object) fun _ hk₁ _ _ ho => ?_
    refine bodyActs_bind ((bodyActs_eval hc hh he value).mono hk₁) fun _ hk₂ _ _ hv => ?_
    refine bodyActs_bind (hc.acts_target (C.value_mono hk₂ ho)) fun _ hk₃ _ _ hr => ?_
    exact bodyActs_effect (hc.write name hr (C.value_mono hk₃ hv))
  | .branch test yes no => by
    rw [Stmt.run, Stmt.run]
    refine bodyActs_bind (bodyActs_eval hc hh he test) fun _ hk _ _ hv => ?_
    rw [hc.isTruthy_eq hv]
    split
    · exact (bodyActs_runAll hc hh he yes).mono hk
    · exact (bodyActs_runAll hc hh he no).mono hk
  | .note label e => by
    rw [Stmt.run, Stmt.run]
    refine bodyActs_bind (bodyActs_eval hc hh he e) fun _ _ _ _ hv => ?_
    refine bodyActs_readHeap fun _ hk _ _ hw => ?_
    rw [hc.unfold hw (C.value_mono hk hv)]
    exact bodyActs_effect (acts_log_same _)
  | .raise kind message => by
    rw [Stmt.run, Stmt.run]
    exact bodyActs_raise _
  | .panic => by
    rw [Stmt.run, Stmt.run]
    exact Simulation.acts_throw .panic
  | .setMode m => by
    rw [Stmt.run, Stmt.run]
    exact bodyActs_effect (hc.setFailureMode m)
  | .borrow change object => by
    rw [Stmt.run, Stmt.run]
    refine bodyActs_bind (bodyActs_eval hc hh he object) fun _ _ _ _ ho => ?_
    refine bodyActs_bind (hc.acts_target ho) fun _ _ _ _ hr => ?_
    exact bodyActs_effect (hc.borrow change hr)

theorem bodyActs_runAll (hc : C.Scripts T) (hh : C.SameHosts T host host') {env env' : Env}
    (he : env.Alike (C.value k) env') : (body : List Stmt) →
      C.BodyActs (fun k => Option.Rel (C.value k)) k (runAll host env body) (runAll host' env' body)
  | [] => by
    rw [runAll, runAll]
    exact bodyActs_pure fun _ _ => .none
  | s :: rest => by
    rw [runAll, runAll]
    refine bodyActs_bind (bodyActs_run hc hh he s) fun _ hk _ _ hv => ?_
    cases hv with
    | some hv => exact bodyActs_pure fun _ hk' => .some (C.value_mono hk' hv)
    | none => exact (bodyActs_runAll hc hh he rest).mono hk

end

theorem acts_runBody (hc : C.Scripts T) (hh : C.SameHosts T host host') {env env' : Env}
    (he : env.Alike (C.value k) env') (body : List Stmt) :
    C.Acts C.OutcomeSame k (runBody host env body) (runBody host' env' body) := by
  have hgiven : ∀ k', k ≤ k' → ∀ x y, Option.Rel (C.value k') x y →
      C.BodyActs C.value k' (pure (x.getD .undefined)) (pure (y.getD .undefined)) := by
    intro k' _ x y hv
    exact bodyActs_pure fun _ hk => C.value_mono hk (getD_rel hv (C.undefined k'))
  exact bodyActs_bind (bodyActs_runAll hc hh he body) hgiven

end

/-! ## Callbacks -/

section

theorem verdict_eq {r r' : Except ContractError Value} (hc : C.Scripts T)
    (hr : C.OutcomeSame k r r') : verdict r = verdict r' := by
  cases hr with
  | ok hv => exact hc.isTruthy_eq hv
  | error e => rfl

variable {inner inner' : Unit → Host Callback Scope} (hc : C.Scripts T)
  (hh : C.SameHosts T (inner ()) (inner' ()))

include hc hh

theorem starts_test (c : Callback) {env env' : Env} (he : env.Alike (C.value k) env') :
    C.Starts (fun _ => Eq) k (c.test inner env) (c.test inner' env') := by
  refine Simulation.starts_start (fun _ _ _ _ _ h => h) ?_ c.timing
  refine Simulation.acts_bind (acts_runBody hc hh he c.body) fun _ _ _ _ hr => ?_
  exact Simulation.acts_pure fun _ _ => verdict_eq hc hr

/-- Scripts that call what agrees agree. -/
theorem sameAnswers_meaning : C.SameAnswers (meaning inner) (meaning inner') where
  accepts {k} c _ _ hvs := starts_test hc hh c ⟨C.undefined k, hvs⟩
  holds c _ _ hv := starts_test hc hh c ⟨hv, .nil⟩
  operate c _ _ _ _ hv hi := Simulation.starts_start outcome_grows
    (acts_runBody hc hh ⟨hv, hi.values⟩ c.body) c.timing
  read c _ _ hv := by
    refine Simulation.acts_bind (acts_runBody hc hh ⟨hv, .nil⟩ c.body) fun _ _ _ _ hr => ?_
    cases hr with
    | ok hv => exact Simulation.acts_pure fun _ hk => C.value_mono hk hv
    | error _ => exact Simulation.acts_pure fun k' _ => C.undefined k'
  setUp c _ _ _ _ hv hargs := by
    refine Simulation.acts_bind (acts_runBody hc hh ⟨hv, hargs⟩ c.body) fun _ _ _ _ hr => ?_
    cases hr with
    | ok _ => exact Simulation.acts_pure fun _ _ => rfl
    | error _ => exact Simulation.acts_pure fun _ _ => rfl

/-- Events that show the same are the same text to a sink. -/
theorem acts_deliver (c : Callback) {x y : TraceEvent} (h : SameCheck (C.value k) x y) :
    C.Acts (fun _ => Eq) k ((meaning inner).deliver c x) ((meaning inner').deliver c y) := by
  refine Comparison.acts_readHeap fun k' hk w w' hw => ?_
  rw [Comparison.traceText_eq hw (h.mono fun _ _ => C.value_mono hk)]
  have he : Env.Alike (C.value k') { args := [.string (y.text w'.heap)] }
      { args := [.string (y.text w'.heap)] } := ⟨C.undefined k', .cons (hc.scalar k' _) .nil⟩
  exact Simulation.acts_bind (acts_runBody hc hh he c.body) fun _ _ _ _ _ =>
    Simulation.acts_pure fun _ _ => rfl

end

theorem sameAnswers_exhausted : C.SameAnswers exhausted exhausted where
  accepts _ _ _ _ := Simulation.acts_throw _
  holds _ _ _ _ := Simulation.acts_throw _
  operate _ _ _ _ _ _ _ := Simulation.acts_throw _
  read _ _ _ _ := Simulation.acts_throw _
  setUp _ _ _ _ _ _ _ := Simulation.acts_throw _

end Scripts
end Comparison

/-! ## Scripts and the journal -/

namespace Script

/-- A change that is the same whatever the journal says. -/
theorem blind_modifyGet {f : State → α × State}
    (h : ∀ w w', w.state = w'.state → (f w).1 = (f w').1 ∧ (f w).2.state = (f w').2.state)
    (hentries : ∀ w, (f w).2.entries = w.entries) : Action.Blind (modifyGet f : Effect α) := by
  intro k _ w w' hw
  obtain ⟨hvalue, hstate⟩ := h w w' hw
  exact ⟨k, hstate, ⟨[], hentries w, hentries w'⟩, .ok hvalue⟩

theorem scripts_journalless : (journalless Scope).Scripts Eq where
  toObjects := sameRecords_journalless.objects
  scalar _ _ := rfl
  array {_ vs vs'} hvs := by
    have heq : vs = vs' := by rwa [← List.forall₂_eq_eq_eq]
    exact congrArg _ heq
  same ha hb := by rw [ha, hb]
  className hw hr := by rw [World.heap_of_state hw, Value.object.inj hr]
  unfold hw hv := by rw [World.heap_of_state hw, hv]
  scope hw := World.own_of_state hw ▸ .refl (fun _ => rfl) _
  bindVariable name v v' hv := by
    obtain rfl := hv
    refine blind_modifyGet (fun w w' hw => ⟨rfl, ?_⟩) fun _ => rfl
    dsimp only
    rw [World.own_of_state hw]
    exact World.state_withOwn hw _
  newSymbol description := by
    refine blind_modifyGet (fun w w' hw => ?_) fun _ => rfl
    have hnext : w.nextSymbol = w'.nextSymbol := by
      have hstate : w.state.nextSymbol = w'.state.nextSymbol := by rw [hw]
      exact hstate
    have hstate : { w.state with nextSymbol := w'.nextSymbol + 1 } =
        { w'.state with nextSymbol := w'.nextSymbol + 1 } := by rw [hw]
    rw [hnext]
    exact ⟨rfl, hstate⟩
  setFailureMode m := by
    refine blind_modifyGet (fun w w' hw => ?_) fun _ => rfl
    rw [World.mode_of_state hw]
    exact ⟨rfl, World.state_withMode hw _⟩
  borrow change hr := by
    obtain rfl := Value.object.inj hr
    cases change with
    | hold => exact Action.blind_changeHeap _
    | share => exact Action.blind_changeHeap _
    | release => exact Action.blind_changeHeap _

/-- Callbacks that are written as scripts do not see the journal. -/
theorem hostOf_blind (depth : Nat) : (hostOf depth).Blind := by
  induction depth with
  | zero =>
    exact .of_sameAnswers Comparison.Scripts.sameAnswers_exhausted fun _ _ => Simulation.acts_throw _
  | succ depth ih =>
    exact .of_sameAnswers (scripts_journalless.sameAnswers_meaning ih.sameHosts)
      fun c e => scripts_journalless.acts_deliver ih.sameHosts c (.refl (fun _ => rfl) e)

end Script
end Contracts
