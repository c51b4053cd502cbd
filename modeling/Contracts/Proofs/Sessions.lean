import Contracts.Proofs.Journals
import Contracts.Session.Run

/-!
# Contracts.Proofs.Sessions

Two sessions of requests, side by side.

* `Step.Retraced`    — requests that are the same but for the traces of the contracts they declare.
* `Answer.Retraced`  — answers that are the same, but for what they tell about such a contract.
* `acts_perform`     — what such requests do to states that are alike is alike.
* `Session.Alike`    — sessions with states that are alike, whose suspended calls go on alike.
* `sameService`      — one such request keeps sessions alike, and answers alike.
* `sameSession`      — and so do all requests of a session.
-/

namespace Contracts

open List (Forall₂)
open Script

variable {α β : Type} {ρ : Ref ≃. Ref} {B : List Event → List Event → Prop}
  {T : TraceSetting Callback → TraceSetting Callback → Prop}

namespace Session

/-! ## Requests and answers -/

section

variable (T)

/-- Declarations with the same remarks, of contracts that differ in their traces. -/
structure Declared.Retraced (d d' : Declared) : Prop where
  notices : d.declaration.2 = d'.declaration.2
  declaration : d.declaration.1.Retraced T d'.declaration.1

/-- The contract that a request declares. -/
def Step.declared? : Step → Option Declared
  | .contract _ d | .contractClass _ _ d => some d
  | _ => none

/-- Requests that are the same but for the traces of the contracts that they declare. -/
inductive Step.Retraced : Step → Step → Prop where
  | same {s : Step} (h : s.declared? = none) : Step.Retraced s s
  | contract (name : String) {d d' : Declared} (h : d.Retraced T d') :
      Step.Retraced (.contract name d) (.contract name d')
  | contractClass (id base : String) {d d' : Declared} (h : d.Retraced T d') :
      Step.Retraced (.contractClass id base d) (.contractClass id base d')

theorem Step.Retraced.refl (hT : ∀ t, T t t) (s : Step) : s.Retraced T s := by
  cases s with
  | contract name d => exact .contract name ⟨rfl, .refl hT _, rfl⟩
  | contractClass id base d => exact .contractClass id base ⟨rfl, .refl hT _, rfl⟩
  | _ => exact .same rfl

/-- Answers that are the same, or that tell about contracts which differ in their traces. -/
inductive Answer.Retraced : Answer → Answer → Prop where
  | refl (a : Answer) : Answer.Retraced a a
  | contract {s s' : Spec Callback} (h : s.Retraced T s') :
      Answer.Retraced (.contract (.of s)) (.contract (.of s'))
  | narrowed {s s' : Spec Callback} (h : s.Retraced T s') (shared : Option Bool) :
      Answer.Retraced (.narrowed (.of s) shared) (.narrowed (.of s') shared)

end

theorem Answer.Retraced.eq {a a' : Answer} (h : a.Retraced Eq a') : a = a' := by
  cases h with
  | refl => rfl
  | contract h => rw [h.eq]
  | narrowed h shared => rw [h.eq]

/-- Replies that tell the same, or calls that were started alike. -/
inductive Reply.Alike (B : List Event → List Event → Prop)
    (T : TraceSetting Callback → TraceSetting Callback → Prop) (ρ : Ref ≃. Ref) :
    Reply → Reply → Prop where
  | answer {a a' : Answer} (h : a.Retraced T a') : Reply.Alike B T ρ (.answer a) (.answer a')
  | started {x y : Completion Scope}
      (h : (retracing B T).Answers (retracing B T).OutcomeSame ρ x y) (handle : Option String) :
      Reply.Alike B T ρ (.started x handle) (.started y handle)

/-! ## Summaries -/

theorem accessorHalves_eq {a a' : Accessor Callback} (h : a.Retraced T a') :
    accessorHalves a = accessorHalves a' := by
  rw [accessorHalves, accessorHalves, h.getter, optionRel_isSome h.setter]

theorem classSummary_eq {c c' : Class Callback} (h : c.Retraced T c') :
    ClassSummary.of c = ClassSummary.of c' := by
  have hparent : c.parent?.map (·.name) = c'.parent?.map (·.name) :=
    map_eq_of_optionRel (fun _ _ hl => hl.name) h.parent?
  rw [ClassSummary.of, ClassSummary.of, hparent, h.name_eq, h.own.methods.keys_eq]
  congr 1
  refine map_eq_of_forall₂ ?_ h.own.accessors
  rintro ⟨k, a⟩ ⟨_, a'⟩ ⟨rfl, ha⟩
  exact congrArg (k.text, ·) (accessorHalves_eq ha)

theorem inspect_eq {c c' : Class Callback} (h : c.Retraced T c') : c.inspect = c'.inspect := by
  have hparent : c.parent?.map (fun p => Text.quoted p.name) =
      c'.parent?.map fun p => Text.quoted p.name :=
    map_eq_of_optionRel (fun _ _ hl => by rw [hl.name]) h.parent?
  have haccessor : ∀ (k : MemberKey) {a a' : Accessor Callback}, a.Retraced T a' →
      k.inspect ++ ": " ++ a.inspect = k.inspect ++ ": " ++ a'.inspect := by
    intro k a a' ha
    have hgetter : a.getter = a'.getter := ha.getter
    simp only [Accessor.inspect, hgetter, optionRel_isSome ha.setter]
  rw [Class.inspect, Class.inspect, hparent, h.isContracted_eq, h.name_eq, h.own.methods.keys_eq]
  congr 7
  refine map_eq_of_forall₂ ?_ h.own.accessors
  rintro ⟨k, a⟩ ⟨_, a'⟩ ⟨rfl, ha⟩
  exact haccessor k ha

theorem evaluationSummary_eq {w v : State} (hw : World.Alike T ρ w v) {e e' : Evaluation}
    (he : SameEvaluation (Value.Alike ρ) e e') :
    EvaluationSummary.of w.heap e = EvaluationSummary.of v.heap e' := by
  have hresult : e.result.map w.heap.unfold = e'.result.map v.heap.unfold :=
    map_eq_of_optionRel (fun _ _ hv => hw.heap.unfold_eq hv) he.result
  simp only [EvaluationSummary.of, Evaluation.slot, Evaluation.invoked, he.invariantBefore,
    he.precondition, he.postcondition, he.invariantAfter, he.suspendedAt, hresult,
    optionRel_isSome he.result]

/-! ## Steps on the state -/

theorem acts_logNotices (notices : List Notice) :
    (retracing B T).Acts (fun _ => Eq) ρ (logNotices notices) (logNotices notices) := by
  induction notices with
  | nil => exact Simulation.acts_pure fun _ _ => rfl
  | cons n rest ih =>
    exact Simulation.acts_bind (Comparison.acts_log_same _) fun _ hρ _ _ _ => ih.mono hρ

theorem acts_snapshot {v v' : Value} (hv : v.Alike ρ v') :
    (retracing B T).Acts (fun _ => Eq) ρ (snapshot v) (snapshot v') := by
  refine Comparison.acts_readHeap fun ρ' hρ w w' hw => ?_
  exact Simulation.acts_pure fun _ _ => hw.heap.unfold_eq (hv.mono hρ)

theorem acts_snapshotOutcome {r r' : Outcome} (hr : (retracing B T).OutcomeSame ρ r r') :
    (retracing B T).Acts (fun _ => Eq) ρ (snapshotOutcome r) (snapshotOutcome r') := by
  cases hr with
  | ok hv =>
    refine Simulation.acts_bind (acts_snapshot hv) ?_
    rintro _ _ t _ rfl
    exact Simulation.acts_pure fun _ _ => rfl
  | error e => exact Simulation.acts_pure fun _ _ => rfl

theorem acts_resolve {d d' : Declared} (hd : d.Retraced T d') :
    (retracing B T).Acts (fun _ => Spec.Retraced T) ρ (resolve d) (resolve d') := by
  have hresolve : ∀ d : Declared, resolve d = (do
      logNotices d.declaration.2
      logNotices d.declaration.1.resolve.2
      pure d.declaration.1.resolve.1) := fun _ => rfl
  rw [hresolve, hresolve, hd.notices, hd.declaration.notices]
  refine Simulation.acts_bind (acts_logNotices _) fun _ _ _ _ _ => ?_
  refine Simulation.acts_bind (acts_logNotices _) fun _ _ _ _ _ => ?_
  exact Simulation.acts_pure fun _ _ => hd.declaration.spec

theorem acts_evalMembers (members : List (Literal × Member Callback)) :
    (retracing B T).Acts (fun _ => Eq) ρ (evalMembers members) (evalMembers members) := by
  induction members generalizing ρ with
  | nil => exact Simulation.acts_pure fun _ _ => rfl
  | cons m rest ih =>
    refine Simulation.acts_bind (scripts_retracing.acts_key m.1) ?_
    rintro _ _ key _ rfl
    refine Simulation.acts_bind ih ?_
    rintro _ _ keys _ rfl
    exact Simulation.acts_pure fun _ _ => rfl

theorem acts_answer (a : Answer) :
    (retracing B T).Acts (Reply.Alike B T) ρ (pure (.answer a)) (pure (.answer a)) :=
  Simulation.acts_pure fun _ _ => .answer (.refl a)

/-- A request that answers what an effect comes to. -/
theorem acts_answering {a b : Effect α} (h : (retracing B T).Acts (fun _ => Eq) ρ a b)
    (f : α → Answer) : (retracing B T).Acts (Reply.Alike B T) ρ
      (do return .answer (f (← a))) (do return .answer (f (← b))) := by
  refine Simulation.acts_bind h ?_
  rintro _ _ x _ rfl
  exact acts_answer _

/-- A request that starts a call. -/
theorem acts_starting {a b : Effect (Completion Scope)}
    (h : (retracing B T).Starts (retracing B T).OutcomeSame ρ a b) (handle : Option String) :
    (retracing B T).Acts (Reply.Alike B T) ρ (do return .started (← a) handle)
      (do return .started (← b) handle) :=
  Simulation.acts_bind h fun _ _ _ _ hxy => Simulation.acts_pure fun _ hρ =>
    .started (hxy.mono Comparison.Scripts.outcome_grows hρ) handle

theorem acts_bindFunction (name : String) {w w' : Wrapped Callback} (hw : w.Retraced T w') :
    (retracing B T).Acts (Reply.Alike B T) ρ (bindFunction name w) (bindFunction name w') := by
  refine Simulation.acts_bind (acts_bindNames fun _ _ _ _ hs => ?_) fun _ _ _ _ _ => acts_answer _
  exact { hs with functions := hs.functions.insert name hw }

theorem acts_bindClass (id : String) {c c' : Class Callback} (hc : c.Retraced T c') :
    (retracing B T).Acts (Reply.Alike B T) ρ (bindClass id c) (bindClass id c') := by
  unfold bindClass
  rw [classSummary_eq hc]
  refine Simulation.acts_bind (acts_bindNames fun _ _ _ _ hs => ?_) fun _ _ _ _ _ => acts_answer _
  exact { hs with classes := hs.classes.insert id hc }

theorem acts_defineClass (id name : String) (init : Option Callback)
    (members : List (Literal × Member Callback)) {parent parent' : Option (Class Callback)}
    (hparent : Option.Rel (Class.Retraced T) parent parent') :
    (retracing B T).Acts (Reply.Alike B T) ρ
      (do bindClass id (.extend (.build name init (← evalMembers members)) parent))
      (do bindClass id (.extend (.build name init (← evalMembers members)) parent')) := by
  refine Simulation.acts_bind (acts_evalMembers members) ?_
  rintro _ _ members _ rfl
  exact acts_bindClass id (.extend (retraced_build name init members) hparent)

theorem acts_recordAll {e e' : Evaluation} (he : SameEvaluation (Value.Alike ρ) e e')
    (recordings : List Recording) :
    (retracing B T).Acts (fun _ => Eq) ρ (recordAll e recordings) (recordAll e' recordings) := by
  induction recordings generalizing ρ e e' with
  | nil => exact Simulation.acts_pure fun _ _ => rfl
  | cons r rest ih =>
    have happly : (retracing B T).Acts (fun ρ => SameEvaluation (Value.Alike ρ)) ρ (r.apply e)
        (r.apply e') := by
      have hmono := fun (ρ' : Ref ≃. Ref) (hρ : ρ ≤ ρ') => he.mono fun _ _ => Value.Alike.mono hρ
      rcases r with ⟨_ | _, held⟩ | l | stage
      · exact Simulation.acts_pure fun ρ' hρ => (hmono ρ' hρ).record _ held
      · exact Simulation.acts_pure fun ρ' hρ => hmono ρ' hρ
      · refine Simulation.acts_bind (scripts_retracing.acts_eval l) fun ρ' hρ _ _ hv => ?_
        exact Simulation.acts_pure fun ρ'' hρ' =>
          (hmono ρ'' (hρ.trans hρ')).recordResult (hv.mono hρ')
      · exact Simulation.acts_pure fun ρ' hρ => (hmono ρ' hρ).suspend stage
    refine Simulation.acts_bind happly fun ρ₁ _ e₁ e₁' he₁ => ?_
    refine Comparison.acts_readHeap fun ρ₂ hρ₂ w w' hw => ?_
    have he₂ := he₁.mono fun _ _ => Value.Alike.mono hρ₂
    simp only [evaluationSummary_eq hw he₂]
    refine Simulation.acts_bind (ih he₂) ?_
    rintro _ _ summaries _ rfl
    exact Simulation.acts_pure fun _ _ => rfl

theorem acts_eventual (held : Bool) (polls : Option Nat) :
    (retracing B T).Acts (retracing B T).OutcomeSame ρ ((eventualOf held polls).map answerOf).finish
      ((eventualOf held polls).map answerOf).finish := by
  have hanswer : ∀ ρ' : Ref ≃. Ref, (retracing B T).OutcomeSame ρ' (answerOf held) (answerOf held) := by
    intro ρ'
    cases held with
    | true => exact .ok rfl
    | false => exact .error _
  have hdone : (retracing B T).Runs (retracing B T).OutcomeSame ρ (.done (answerOf held))
      (.done (answerOf held)) := Simulation.runs_done fun ρ' _ => hanswer ρ'
  cases polls with
  | none => exact Simulation.runs_drive hdone
  | some polls =>
    refine Simulation.runs_drive (Simulation.runs_bind
      (R := fun _ x y => x = held ∧ y = held)
      (Simulation.runs_waits polls (Simulation.runs_done fun _ _ => ⟨rfl, rfl⟩)) ?_)
    rintro ρ' _ x y ⟨rfl, rfl⟩
    exact Simulation.runs_done fun ρ'' _ => hanswer ρ''

section Perform

variable {host host' : Host Callback Scope} (hh : (retracing B T).SameHosts T host host')

include hh

/-- Requests that are the same but for traces do alike what they do to states that are alike. -/
theorem acts_perform {s s' : Step} (hs : s.Retraced T s') :
    (retracing B T).Acts (Reply.Alike B T) ρ (perform host s) (perform host' s') := by
  have hc : (retracing B T).Scripts T := scripts_retracing
  cases hs with
  | contract name hd =>
    refine Simulation.acts_bind (acts_resolve hd) fun _ _ _ _ hspec => ?_
    refine Simulation.acts_bind (acts_bindNames fun _ _ _ _ hs => ?_) fun _ _ _ _ _ =>
      Simulation.acts_pure fun _ _ => .answer (.contract hspec)
    exact { hs with contracts := hs.contracts.insert name hspec }
  | contractClass id base hd =>
    rename_i d d'
    rw [perform, perform]
    refine Simulation.acts_bind (hc.acts_lookupClass base) fun _ _ c c' hbase => ?_
    obtain ⟨hderived, hnotices⟩ := contractClass_retraced hbase hd.declaration
    have hdeclared := hd.notices
    revert hderived hnotices hdeclared
    rcases d.declaration with ⟨declaration, declared⟩
    rcases d'.declaration with ⟨declaration', declared'⟩
    dsimp only
    rcases Contracts.contractClass c declaration with ⟨x, notices⟩
    rcases Contracts.contractClass c' declaration' with ⟨y, notices'⟩
    rintro (hx | _) rfl rfl
    · refine Simulation.acts_bind (acts_logNotices _) fun _ _ _ _ _ => ?_
      refine Simulation.acts_bind (acts_logNotices _) fun _ _ _ _ _ => ?_
      exact acts_bindClass id hx
    · refine Simulation.acts_bind (acts_logNotices _) fun _ _ _ _ _ => ?_
      refine Simulation.acts_bind (acts_logNotices _) fun _ _ _ _ _ => ?_
      exact acts_answer _
  | @same s hs =>
    cases s with
    | contract _ _ => cases hs
    | contractClass _ _ _ => cases hs
    | assign name value =>
      refine Simulation.acts_bind (hc.acts_eval value) fun _ _ _ _ hv => ?_
      exact Simulation.acts_bind (hc.bindVariable name hv) fun _ _ _ _ _ => acts_answer _
    | eval body receiver args =>
      refine Simulation.acts_bind (hc.acts_eval receiver) fun _ _ _ _ hv => ?_
      refine Simulation.acts_bind (hc.acts_evalItems args) fun ρ' hρ vs vs' hvs => ?_
      have he : Env.Alike (Value.Alike ρ') { this := _, args := vs } { this := _, args := vs' } :=
        ⟨hv.mono hρ, hvs⟩
      refine Simulation.acts_bind (hc.acts_runBody hh he body) fun _ _ _ _ hr => ?_
      exact acts_answering (acts_snapshotOutcome hr) _
    | render values =>
      refine Simulation.acts_bind (hc.acts_evalItems values) fun _ _ _ _ hvs => ?_
      refine Comparison.acts_readHeap fun ρ' hρ w w' hw => ?_
      have hvs : Forall₂ (Value.Alike ρ') _ _ := hvs.imp fun _ _ => Value.Alike.mono hρ
      have htexts := map_eq_of_forall₂ (f := w.heap.render) (g := w'.heap.render)
        (fun _ _ => hw.heap.render_eq) hvs
      have hjson := map_eq_of_forall₂ (f := fun v => (w.heap.toJson v).compact)
        (g := fun v => (w'.heap.toJson v).compact) (fun _ _ hv => by rw [hw.heap.toJson_eq hv]) hvs
      have htypes := map_eq_of_forall₂ (f := Value.typeName) (g := Value.typeName)
        (fun _ _ => hc.typeName_eq (k := ρ')) hvs
      have htruthy := map_eq_of_forall₂ (f := Value.isTruthy) (g := Value.isTruthy)
        (fun _ _ => hc.isTruthy_eq (k := ρ')) hvs
      rw [htexts, Comparison.renderArgs_eq hw hvs, hjson, htypes, htruthy]
      exact acts_answer _
    | narrow contract =>
      refine Simulation.acts_bind (hc.acts_lookupContract contract) fun _ _ _ _ hspec => ?_
      dsimp only [Spec.invariantOnly]
      rw [hspec.invariant]
      refine Simulation.acts_pure fun _ _ => .answer (.narrowed ?_ _)
      exact ⟨rfl, rfl, rfl, hspec.mode, hspec.trace⟩
    | wrap name contract form site operation =>
      refine Simulation.acts_bind (hc.acts_lookupContract contract) fun _ _ _ _ hspec => ?_
      exact acts_bindFunction name ⟨rfl, .checked site hspec (.plain operation)⟩
    | wrapAgain name contract function site =>
      refine Simulation.acts_bind (hc.acts_lookupContract contract) fun _ _ _ _ hspec => ?_
      refine Simulation.acts_bind (hc.acts_lookupFunction function) fun _ _ _ _ hw => ?_
      exact acts_bindFunction name ⟨hw.form, .checked site hspec hw.operation⟩
    | call function receiver args handle =>
      refine Simulation.acts_bind (hc.acts_lookupFunction function) fun _ _ _ _ hw => ?_
      refine Simulation.acts_bind (hc.acts_eval receiver) fun _ _ _ _ hv => ?_
      refine Simulation.acts_bind (hc.acts_evalItems args) fun _ hρ _ _ hvs => ?_
      exact acts_starting (hh.wrapped hw (hv.mono hρ) hvs) handle
    | defineClass id name parent init members =>
      cases parent with
      | none => exact acts_defineClass id name init members .none
      | some p =>
        have hparent : (retracing B T).Acts (fun _ => Option.Rel (Class.Retraced T)) ρ
            (some <$> lookupClass p) (some <$> lookupClass p) :=
          Simulation.acts_bind (hc.acts_lookupClass p) fun _ _ _ _ hp =>
            Simulation.acts_pure fun _ _ => .some hp
        exact Simulation.acts_bind hparent fun _ _ _ _ hp =>
          acts_defineClass id name init members hp
    | construct id className args =>
      refine Simulation.acts_bind (hc.acts_lookupClass className) fun _ _ _ _ hclass => ?_
      refine Simulation.acts_bind (hc.acts_evalItems args) fun _ _ _ _ hvs => ?_
      refine Simulation.acts_bind (hh.construct hc.toObjects hclass hvs) fun ρ₁ _ _ _ hi => ?_
      cases hi with
      | error e => exact acts_answer _
      | @ok i i' hi =>
        obtain ⟨hofClass, hofClass', hthis⟩ := hi
        have hname : i.ofClass.name = i'.ofClass.name := by
          rw [hofClass, hofClass', hclass.name_eq]
        refine Simulation.acts_bind (acts_bindNames fun ρ₂ hρ₂ _ _ hs => ?_) fun ρ₃ hρ₃ _ _ _ => ?_
        · have hretraced : i.Retraced T (Value.Alike ρ₂) i' :=
            ⟨hofClass ▸ hofClass' ▸ hclass, hthis.mono hρ₂⟩
          exact { hs with instances := hs.instances.insert id hretraced }
        refine Simulation.acts_bind (hc.bindVariable id (hthis.mono hρ₃)) fun _ hρ₄ _ _ _ => ?_
        rw [hname]
        exact acts_answering (acts_snapshot (hthis.mono (hρ₃.trans hρ₄))) (.constructed · _)
    | callMember on key args handle =>
      refine Simulation.acts_bind (hc.acts_lookupInstance on) fun _ _ _ _ hi => ?_
      refine Simulation.acts_bind (hc.acts_key key) ?_
      rintro _ hρ₁ key _ rfl
      refine Simulation.acts_bind (hc.acts_evalItems args) fun _ hρ₂ _ _ hvs => ?_
      exact acts_starting (hh.callMember ⟨hi.ofClass, hi.this.mono (hρ₁.trans hρ₂)⟩ key hvs) handle
    | setMember on key value handle =>
      refine Simulation.acts_bind (hc.acts_eval value) fun _ _ _ _ hv => ?_
      refine Simulation.acts_bind (hc.acts_lookupInstance on) fun _ hρ₁ _ _ hi => ?_
      refine Simulation.acts_bind (hc.acts_key key) ?_
      rintro _ hρ₂ key _ rfl
      exact acts_starting (hh.setMember hc.toObjects ⟨hi.ofClass, hi.this.mono hρ₂⟩ key
        (hv.mono (hρ₁.trans hρ₂))) handle
    | getMember on key =>
      refine Simulation.acts_bind (hc.acts_lookupInstance on) fun _ _ _ _ hi => ?_
      refine Simulation.acts_bind (hc.acts_key key) ?_
      rintro _ hρ key _ rfl
      refine Simulation.acts_bind (hh.getMember hc.toObjects ⟨hi.ofClass, hi.this.mono hρ⟩ key)
        fun _ _ _ _ hv => ?_
      exact acts_answering (acts_snapshot hv) fun t => .outcome (.ok t)
    | callMethod className key receiver args handle =>
      refine Simulation.acts_bind (hc.acts_lookupClass className) fun _ _ c c' hclass => ?_
      refine Simulation.acts_bind (hc.acts_key key) ?_
      rintro _ _ key _ rfl
      have hfind := hclass.findMethod? key
      revert hfind
      generalize c.findMethod? key = x
      generalize c'.findMethod? key = y
      rintro (hop | _)
      · refine Simulation.acts_bind (hc.acts_eval receiver) fun _ _ _ _ hv => ?_
        refine Simulation.acts_bind (hc.acts_evalItems args) fun _ hρ _ _ hvs => ?_
        exact acts_starting (hh.call hop (hv.mono hρ) (.args hvs)) handle
      · exact acts_answer _
    | callSetter className key receiver value handle =>
      refine Simulation.acts_bind (hc.acts_lookupClass className) fun _ _ c c' hclass => ?_
      refine Simulation.acts_bind (hc.acts_key key) ?_
      rintro _ _ key _ rfl
      have hsetter := hclass.findSetter? key
      revert hsetter
      generalize (c.findAccessor? key).bind (·.setter) = x
      generalize (c'.findAccessor? key).bind (·.setter) = y
      rintro (hop | _)
      · refine Simulation.acts_bind (hc.acts_eval receiver) fun _ _ _ _ hthis => ?_
        refine Simulation.acts_bind (hc.acts_eval value) fun _ hρ _ _ hv => ?_
        exact acts_starting (hh.call hop (hthis.mono hρ) (.value hv)) handle
      · exact acts_answer _
    | lookup className key =>
      refine Simulation.acts_bind (hc.acts_lookupClass className) fun _ _ c c' hclass => ?_
      refine Simulation.acts_bind (hc.acts_key key) ?_
      rintro _ _ key _ rfl
      have hhalves : (c.findAccessor? key).map accessorHalves =
          (c'.findAccessor? key).map accessorHalves :=
        map_eq_of_optionRel (fun _ _ ha => accessorHalves_eq ha) (hclass.findAccessor? key)
      rw [hhalves, optionRel_isSome (hclass.findMethod? key)]
      exact acts_answer _
    | inspectClass className =>
      refine Simulation.acts_bind (hc.acts_lookupClass className) fun _ _ _ _ hclass => ?_
      rw [inspect_eq hclass]
      exact acts_answer _
    | inspectValue value =>
      refine Simulation.acts_bind (hc.acts_eval value) fun _ _ v v' hv => ?_
      rcases hc.shape hv with ⟨s, rfl, rfl⟩ | ⟨vs, vs', rfl, rfl, _⟩ | ⟨r, r', rfl, rfl⟩
      · exact Simulation.acts_throw _
      · exact Simulation.acts_throw _
      · refine Comparison.acts_readHeap fun _ hρ w w' hw => ?_
        rw [Heap.inspectLabel, Heap.inspectLabel, hc.className hw (hv.mono hρ)]
        exact acts_answer _
    | mode => exact acts_answering (Comparison.acts_effectiveMode none) _
    | setMode m => exact acts_answering (hc.setFailureMode m) _
    | label site receiver =>
      refine Simulation.acts_bind (hc.acts_eval receiver) fun _ _ _ _ hv => ?_
      refine Comparison.acts_readHeap fun _ hρ w w' hw => ?_
      rw [hw.heap.label_eq site (hv.mono hρ)]
      exact acts_answer _
    | report failure className member subject override =>
      refine Simulation.acts_bind (Comparison.acts_effectiveMode override) ?_
      rintro _ _ m _ rfl
      exact acts_answering (Comparison.acts_report override _) (.report m _)
    | evaluation recordings => exact acts_answering (acts_recordAll .empty recordings) _
    | eventual held polls =>
      refine Simulation.acts_bind (acts_eventual held polls) fun _ _ _ _ hr => ?_
      exact acts_answering (acts_snapshotOutcome hr) (.eventual _ _ _)
    | poll _ => exact acts_answer _
    | finish _ => exact acts_answer _
    | discard _ => exact acts_answer _

end Perform

/-! ## Suspended calls -/

/-- Sessions with states that are alike, whose suspended calls go on alike. -/
structure Alike (B : List Event → List Event → Prop)
    (T : TraceSetting Callback → TraceSetting Callback → Prop) (ρ : Ref ≃. Ref) (s s' : Session) :
    Prop where
  state : World.Alike T ρ s.state s'.state
  suspended : s.suspended.Alike ((retracing B T).Runs (retracing B T).OutcomeSame ρ) s'.suspended

/-- From both sessions a request comes to answers that are alike, in sessions that are. -/
def Serves (B : List Event → List Event → Prop)
    (T : TraceSetting Callback → TraceSetting Callback → Prop) (ρ : Ref ≃. Ref) (s s' : Session)
    (x y : Answer × Session) : Prop :=
  ∃ ρ', World.Went B ρ s.state s'.state ρ' x.2.state y.2.state ∧ x.2.Alike B T ρ' y.2 ∧
    x.1.Retraced T y.1

theorem start_alike : start.Alike B T ⊥ start where
  state := ⟨fun _ _ h => (by cases h), rfl, rfl, ⟨.nil, .nil, .nil, .nil, .nil⟩⟩
  suspended := .nil

section

variable {s s' : Session} (hs : s.Alike B T ρ s')

include hs

theorem serves_here {a a' : Answer} (ha : a.Retraced T a') : Serves B T ρ s s' (a, s) (a', s') :=
  ⟨ρ, (retracing B T).move_refl hs.state, hs, ha⟩

theorem Alike.insert (handle : String) {t u : Future State Outcome}
    (h : (retracing B T).Runs (retracing B T).OutcomeSame ρ t u) :
    Alike B T ρ { s with suspended := s.suspended.insert handle t }
      { s' with suspended := s'.suspended.insert handle u } :=
  { hs with suspended := hs.suspended.insert handle h }

theorem Alike.erase (handle : String) :
    Alike B T ρ { s with suspended := s.suspended.erase handle }
      { s' with suspended := s'.suspended.erase handle } :=
  { hs with suspended := hs.suspended.erase handle }

/-- After both states went on, the suspended calls still agree. -/
theorem Alike.withState {ρ' : Ref ≃. Ref} (hρ : ρ ≤ ρ') {w v : State} (hw : World.Alike T ρ' w v) :
    Alike B T ρ' { s with state := w } { s' with state := v } where
  state := hw
  suspended := hs.suspended.mono fun _ _ h => h.mono hρ

/-- An effect that agrees goes before answers that are alike. -/
theorem serves_runEffect {R : (Ref ≃. Ref) → α → β → Prop} {a : Effect α} {b : Effect β}
    (h : (retracing B T).Acts R ρ a b) {f : α → Session → Answer × Session}
    {g : β → Session → Answer × Session}
    (hf : ∀ ρ', ρ ≤ ρ' → ∀ x y, R ρ' x y → ∀ t t' : Session, t.Alike B T ρ' t' →
      Serves B T ρ' t t' (f x t) (g y t')) :
    Serves B T ρ s s' (s.runEffect a f) (s'.runEffect b g) := by
  obtain ⟨ρ₁, hw, hwent, hends⟩ := h ρ le_rfl _ _ hs.state
  unfold runEffect
  revert hw hwent hends
  rcases a.exec s.state with ⟨x, w⟩
  rcases b.exec s'.state with ⟨y, v⟩
  intro hw hwent hends
  cases hends with
  | error c => exact ⟨ρ₁, hwent, hs.withState hwent.le hw, .refl _⟩
  | ok hxy =>
    obtain ⟨ρ₂, hwent₂, hafter, hanswer⟩ := hf ρ₁ hwent.le _ _ hxy _ _ (hs.withState hwent.le hw)
    exact ⟨ρ₂, (retracing B T).move_trans hwent hwent₂, hafter, hanswer⟩

theorem serves_ended {r r' : Outcome} (hr : (retracing B T).OutcomeSame ρ r r')
    (wasPending : Bool) : Serves B T ρ s s' (s.ended r wasPending) (s'.ended r' wasPending) := by
  refine serves_runEffect hs (acts_snapshotOutcome hr) ?_
  rintro _ _ x _ rfl _ _ ht
  exact serves_here ht (.refl _)

theorem serves_conclude {x y : Completion Scope}
    (hxy : (retracing B T).Answers (retracing B T).OutcomeSame ρ x y) (handle : Option String) :
    Serves B T ρ s s' (s.conclude x handle) (s'.conclude y handle) := by
  cases hxy with
  | @ready r r' hr =>
    have hfinish : (retracing B T).Acts (retracing B T).OutcomeSame ρ (Eventual.ready r).finish
        (Eventual.ready r').finish :=
      Simulation.runs_drive (Simulation.runs_done fun _ hρ => hr.mono hρ)
    exact serves_runEffect hs hfinish fun _ _ _ _ hr _ _ ht => serves_ended ht hr false
  | @pending t u htu =>
    cases handle with
    | some h => exact serves_here (hs.insert h htu) (.refl _)
    | none =>
      have hfinish : (retracing B T).Acts (retracing B T).OutcomeSame ρ (Eventual.pending t).finish
          (Eventual.pending u).finish := Simulation.runs_drive htu
      exact serves_runEffect hs hfinish fun _ _ _ _ hr _ _ ht => serves_ended ht hr true

theorem serves_pollOnce (handle : String) :
    Serves B T ρ s s' (s.pollOnce handle) (s'.pollOnce handle) := by
  have hget := hs.suspended.get? handle
  unfold pollOnce
  revert hget
  generalize s.suspended.get? handle = x
  generalize s'.suspended.get? handle = y
  rintro (@⟨t, u, htu⟩ | _)
  · obtain ⟨ρ₁, hw, hwent, hshows⟩ := htu.pollsTo ρ le_rfl _ _ hs.state
    dsimp only
    revert hw hwent hshows
    rcases t.poll s.state with ⟨p, w⟩
    rcases u.poll s'.state with ⟨q, v⟩
    intro hw hwent hshows
    have hafter := hs.withState hwent.le hw
    cases hshows with
    | waiting hrest => exact ⟨ρ₁, hwent, hafter.insert handle hrest, .refl _⟩
    | aborted c => exact ⟨ρ₁, hwent, hafter.erase handle, .refl _⟩
    | finished hr =>
      obtain ⟨ρ₂, hwent₂, hend, hanswer⟩ := serves_ended (hafter.erase handle) hr false
      exact ⟨ρ₂, (retracing B T).move_trans hwent hwent₂, hend, hanswer⟩
  · exact serves_here hs (.refl _)

theorem serves_finishCall (handle : String) :
    Serves B T ρ s s' (s.finishCall handle) (s'.finishCall handle) := by
  have hget := hs.suspended.get? handle
  unfold finishCall
  revert hget
  generalize s.suspended.get? handle = x
  generalize s'.suspended.get? handle = y
  rintro (@⟨t, u, htu⟩ | _)
  · have hfinish : (retracing B T).Acts (retracing B T).OutcomeSame ρ (Eventual.pending t).finish
        (Eventual.pending u).finish := Simulation.runs_drive htu
    refine serves_runEffect (hs.erase handle) hfinish fun _ _ _ _ hr _ _ ht => ?_
    refine serves_runEffect ht (acts_snapshotOutcome hr) ?_
    rintro _ _ x _ rfl _ _ ht
    exact serves_here ht (.refl _)
  · exact serves_here hs (.refl _)

theorem serves_forget (handle : String) :
    Serves B T ρ s s' (s.forget handle) (s'.forget handle) := by
  have hget := hs.suspended.get? handle
  unfold forget
  revert hget
  generalize s.suspended.get? handle = x
  generalize s'.suspended.get? handle = y
  rintro (_ | _)
  · exact serves_here (hs.erase handle) (.refl _)
  · exact serves_here hs (.refl _)

end

/-! ## Sessions -/

/-- What requests come to: answers that are alike, and journals that are the same but for blocks. -/
structure SameReport (B : List Event → List Event → Prop)
    (T : TraceSetting Callback → TraceSetting Callback → Prop) (ρ : Ref ≃. Ref)
    (x y : Answer × List Event) : Prop where
  answer : x.1.Retraced T y.1
  journal : SameBut B (Value.Alike ρ) x.2 y.2

theorem SameReport.mono {ρ' : Ref ≃. Ref} (hρ : ρ ≤ ρ') {x y : Answer × List Event}
    (h : SameReport B T ρ x y) : SameReport B T ρ' x y :=
  ⟨h.answer, h.journal.mono fun _ _ => Value.Alike.mono hρ⟩

section Run

variable {host host' : Host Callback Scope} (hh : (retracing B T).SameHosts T host host')

include hh

/-- Requests that are the same but for traces are served alike. -/
theorem serves_dispatch {s s' : Session} (hs : s.Alike B T ρ s') {r r' : Step}
    (hr : r.Retraced T r') : Serves B T ρ s s' (dispatch host s r) (dispatch host' s' r') := by
  have hperform : ∀ {k : Reply → Session → Answer × Session},
      (∀ a t, k (.answer a) t = (a, t)) →
      (∀ completion handle t, k (.started completion handle) t = t.conclude completion handle) →
      Serves B T ρ s s' (s.runEffect (perform host r) k) (s'.runEffect (perform host' r') k) := by
    intro k hanswer hstarted
    refine serves_runEffect hs (acts_perform hh hr) fun _ _ _ _ hreply _ _ ht => ?_
    cases hreply with
    | answer ha =>
      rw [hanswer, hanswer]
      exact serves_here ht ha
    | started hxy handle =>
      rw [hstarted, hstarted]
      exact serves_conclude ht hxy handle
  cases hr with
  | contract name hd => exact hperform (fun _ _ => rfl) fun _ _ _ => rfl
  | contractClass id base hd => exact hperform (fun _ _ => rfl) fun _ _ _ => rfl
  | @same r hr =>
    cases r with
    | poll handle => exact serves_pollOnce hs handle
    | finish handle => exact serves_finishCall hs handle
    | discard handle => exact serves_forget hs handle
    | _ => exact hperform (fun _ _ => rfl) fun _ _ _ => rfl

/-- One request keeps sessions alike. -/
theorem sameService {s s' : Session} (hs : s.Alike B T ρ s') {r r' : Step} (hr : r.Retraced T r') :
    ∃ ρ', ρ ≤ ρ' ∧ SameReport B T ρ' (s.step host r).1 (s'.step host' r').1 ∧
      (s.step host r).2.Alike B T ρ' (s'.step host' r').2 := by
  have hclear : Alike B T ρ { s with state := { s.state with entries := [] } }
      { s' with state := { s'.state with entries := [] } } :=
    ⟨⟨hs.state.heap, hs.state.mode, hs.state.nextSymbol, hs.state.scope⟩, hs.suspended⟩
  obtain ⟨ρ', ⟨hρ, new, new', hnew, hnew', hsame⟩, hafter, hanswer⟩ := serves_dispatch hh hclear hr
  refine ⟨ρ', hρ, ⟨hanswer, ?_⟩, hafter⟩
  have hjournal : (s.step host r).1.2 = new := hnew
  have hjournal' : (s'.step host' r').1.2 = new' := hnew'
  rw [hjournal, hjournal']
  exact hsame

end Run

/-- The session after requests. -/
def after (host : Host Callback Scope) : Session → List Step → Session
  | s, [] => s
  | s, r :: rest => after host (s.step host r).2 rest

/-- Requests that are the same but for traces come to the same, one after the other, and leave
sessions alike. -/
theorem sameSession {host host' : Host Callback Scope} (hh : (retracing B T).SameHosts T host host')
    {s s' : Session} (hs : s.Alike B T ρ s') {rs rs' : List Step}
    (hrs : Forall₂ (Step.Retraced T) rs rs') :
    ∃ ρ', ρ ≤ ρ' ∧ Forall₂ (SameReport B T ρ') (s.runAll host rs) (s'.runAll host' rs') ∧
      (s.after host rs).Alike B T ρ' (s'.after host' rs') := by
  induction hrs generalizing ρ s s' with
  | nil => exact ⟨ρ, le_rfl, .nil, hs⟩
  | cons hr _ ih =>
    obtain ⟨ρ₁, hρ₁, hreport, hnext⟩ := sameService hh hs hr
    obtain ⟨ρ₂, hρ₂, hreports, hend⟩ := ih hnext
    exact ⟨ρ₂, hρ₁.trans hρ₂, .cons (hreport.mono hρ₂) hreports, hend⟩

end Session

end Contracts
