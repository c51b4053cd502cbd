import Contracts.Proofs.Dispatch
import Contracts.Proofs.Retracing
import Contracts.Proofs.Simulation.Protocol

/-!
# Contracts.Proofs.Simulation.Classes

Two runs of the uses of classes, side by side.

* `Comparison.SameAnswers`, `Comparison.SameHosts` — hosts whose callbacks agree, and whose traces
  do at settings that stand in a relation.
* `Comparison.Objects`   — a comparison of runs that make, read and write records.
* `SameHosts.call`       — calls of operations that differ in their trace settings agree.
* `SameHosts.callMember`, `SameHosts.setMember`, `SameHosts.getMember`, `SameHosts.construct` — and
  so do uses and constructions of classes.
-/

namespace Contracts

open List (Forall₂)

namespace Comparison

variable {K ε δ κ : Type} [Preorder K]

/-- Hosts whose callbacks agree, sinks aside. -/
structure SameAnswers (C : Comparison K ε δ) (host : Host κ ε) (host' : Host κ δ) : Prop where
  accepts : ∀ {k} (code : κ) {vs vs'}, Forall₂ (C.value k) vs vs' →
    C.Starts (fun _ => Eq) k (host.accepts code vs) (host'.accepts code vs')
  holds : ∀ {k} (code : κ) {v v'}, C.value k v v' →
    C.Starts (fun _ => Eq) k (host.holds code v) (host'.holds code v')
  operate : ∀ {k} (code : κ) {v v' i i'}, C.value k v v' → SameInput (C.value k) i i' →
    C.Starts C.OutcomeSame k (host.operate code v i) (host'.operate code v' i')
  read : ∀ {k} (code : κ) {v v'}, C.value k v v' →
    C.Acts C.value k (host.read code v) (host'.read code v')
  setUp : ∀ {k} (code : κ) {v v' args args'}, C.value k v v' → Forall₂ (C.value k) args args' →
    C.Acts (fun _ => Eq) k (host.setUp code v args) (host'.setUp code v' args')

/-- Hosts whose callbacks agree, and so do their traces at settings that are related. -/
structure SameHosts (C : Comparison K ε δ) (T : TraceSetting κ → TraceSetting κ → Prop)
    (host : Host κ ε) (host' : Host κ δ) : Prop extends C.SameAnswers host host' where
  emit : ∀ {k t t'}, T t t' → ∀ {e e'}, SameCheck (C.value k) e e' →
    C.Acts (fun _ => Eq) k (t.emit host e) (t'.emit host' e')

/-- A comparison of runs that make, read and write records. -/
structure Objects (C : Comparison K ε δ) : Prop where
  shape : ∀ {k v v'}, C.value k v v' →
    (∃ s, v = .scalar s ∧ v' = .scalar s) ∨
      (∃ vs vs', v = .array vs ∧ v' = .array vs' ∧ Forall₂ (C.value k) vs vs') ∨
        ∃ r r', v = .object r ∧ v' = .object r'
  field : ∀ {k w w' v v'} (name : String), C.agree k w w' → C.value k v v' →
    C.value k (w.heap.getField v name) (w'.heap.getField v' name)
  create : ∀ {k} (className : Option String) {t t' : Table String Value}, t.Alike (C.value k) t' →
    C.Acts (fun k r r' => C.value k (.object r) (.object r')) k
      (World.newRecord { className, fields := t }) (World.newRecord { className, fields := t' })
  write : ∀ {k r r'} (name : String) {v v'}, C.value k (.object r) (.object r') → C.value k v v' →
    C.Acts (fun _ => Eq) k (World.writeField r name v) (World.writeField r' name v')

variable {C : Comparison K ε δ} {T : TraceSetting κ → TraceSetting κ → Prop} {host : Host κ ε}
  {host' : Host κ δ} {k : K}

theorem ready {r r' : Except ContractError Value} (h : C.OutcomeSame k r r') :
    C.Starts C.OutcomeSame k (pure (.ready r)) (pure (.ready r')) :=
  Simulation.acts_pure fun _ hk => .ready (h.mono hk)

namespace SameHosts

variable (h : C.SameHosts T host host')

include h

/-! ## Calls -/

theorem sameFrame {spec spec' : Spec κ} (hs : spec.Retraced T spec') {v v' : Value} {i i' : Input}
    (hv : C.value k v v') (hi : SameInput (C.value k) i i') (site : CallSite) (className : String) :
    C.SameFrame k host host' ⟨site, spec, v, i, className⟩ ⟨site, spec', v', i', className⟩ where
  site := rfl
  className := rfl
  mode := hs.mode
  invariant := hs.invariant
  precondition := hs.precondition
  postcondition := hs.postcondition
  input := hi
  holds code _ := h.holds code hv
  before code _ := h.accepts code hi.values
  after code _ k' hk r r' hr :=
    h.accepts code (.cons hr (hi.mono fun _ _ => C.value_mono hk).values)
  emit k' hk r r' hr g held := by
    refine h.emit hs.trace ⟨rfl, rfl, rfl, hi.mono fun _ _ => C.value_mono hk, hr, rfl, ?_⟩
    rw [Frame.traceEvent, Frame.traceEvent, hi.failure]

/-- Calls of operations that differ in their trace settings start alike. -/
theorem call {op op' : Operation κ} (hop : op.Retraced T op') {v v' : Value} {i i' : Input}
    (hv : C.value k v v') (hi : SameInput (C.value k) i i') :
    C.Starts C.OutcomeSame k (op.call host v i) (op'.call host' v' i') := by
  induction hop with
  | plain code => exact h.operate code hv hi
  | checked site hspec _ ih =>
    refine acts_readHeap fun k' hk w w' hw => ?_
    have hmono : ∀ a b, C.value k a b → C.value k' a b := fun _ _ => C.value_mono hk
    unfold Operation.frame
    rw [C.label site hw (hmono _ _ hv)]
    exact starts_invoke (h.sameFrame hspec (hmono _ _ hv) (hi.mono hmono) site _) (ih.mono hk)

theorem wrapped {w w' : Wrapped κ} (hw : w.Retraced T w') {v v' : Value} {args args' : List Value}
    (hv : C.value k v v') (hargs : Forall₂ (C.value k) args args') :
    C.Starts C.OutcomeSame k (w.call host v args) (w'.call host' v' args') := by
  have hfirst : C.value k (args.headD .undefined) (args'.headD .undefined) := by
    cases hargs with
    | nil => exact C.undefined k
    | cons hv _ => exact hv
  unfold Wrapped.call
  rw [hw.form]
  cases w'.form with
  | method => exact h.call hw.operation hv (.args hargs)
  | setter => exact h.call hw.operation hv (.value hfirst)
  | function => exact h.call hw.operation (C.undefined k) (.args hargs)

/-! ## Members -/

theorem callMember {i i' : Instance κ} (hi : i.Retraced T (C.value k) i') (key : MemberKey)
    {args args' : List Value} (hargs : Forall₂ (C.value k) args args') :
    C.Starts C.OutcomeSame k (i.call host key args) (i'.call host' key args') := by
  have hfind := hi.ofClass.findMethod? key
  unfold Instance.call
  revert hfind
  generalize i.ofClass.findMethod? key = x
  generalize i'.ofClass.findMethod? key = y
  rintro (hop | _)
  · exact h.call hop hi.this (.args hargs)
  · simp only [Instance.refuse, Instance.memberText, hi.ofClass.name_eq]
    exact ready (.error _)

theorem setMember (ho : C.Objects) {i i' : Instance κ} (hi : i.Retraced T (C.value k) i')
    (key : MemberKey) {v v' : Value} (hv : C.value k v v') :
    C.Starts C.OutcomeSame k (i.set host key v) (i'.set host' key v') := by
  have hfind := hi.ofClass.findAccessor? key
  have hname := hi.ofClass.name_eq
  obtain ⟨c, this⟩ := i
  obtain ⟨c', this'⟩ := i'
  have hthis : C.value k this this' := hi.this
  unfold Instance.set
  simp only [Instance.refuse, Instance.memberText] at hfind hname ⊢
  rw [hname]
  revert hfind
  generalize c.findAccessor? key = x
  generalize c'.findAccessor? key = y
  rintro (@⟨⟨_, setter⟩, ⟨_, setter'⟩, _, hsetter⟩ | _)
  · rcases hsetter with hop | _
    · exact h.call hop hthis (.value hv)
    · exact ready (.error _)
  · rcases ho.shape hthis with ⟨s, rfl, rfl⟩ | ⟨vs, vs', rfl, rfl, _⟩ | ⟨r, r', rfl, rfl⟩
    · cases key <;> exact ready (.error _)
    · cases key <;> exact ready (.error _)
    · cases key with
      | symbol _ => exact ready (.error _)
      | name field =>
        refine Simulation.acts_bind (ho.write field hthis hv) fun k' _ _ _ _ => ?_
        exact ready (.ok (C.undefined k'))

theorem getMember (ho : C.Objects) {i i' : Instance κ} (hi : i.Retraced T (C.value k) i')
    (key : MemberKey) : C.Acts C.value k (i.get host key) (i'.get host' key) := by
  have hgetter : (i.ofClass.findAccessor? key).bind (·.getter) =
      (i'.ofClass.findAccessor? key).bind (·.getter) := by
    have hfind := hi.ofClass.findAccessor? key
    revert hfind
    generalize i.ofClass.findAccessor? key = x
    generalize i'.ofClass.findAccessor? key = y
    rintro (ha | _)
    · exact ha.getter
    · rfl
  unfold Instance.get
  rw [hgetter]
  cases (i'.ofClass.findAccessor? key).bind (·.getter) with
  | some code => exact h.read code hi.this
  | none =>
    refine acts_readHeap fun k' hk w w' hw => ?_
    cases key with
    | name field =>
      have hfield := ho.field field hw (C.value_mono hk hi.this)
      exact Simulation.acts_pure fun _ hk' => C.value_mono hk' hfield
    | symbol _ => exact Simulation.acts_pure fun k'' _ => C.undefined k''

/-! ## Construction -/

theorem check {c c' : ClassContract κ} (hc : c.Retraced T c') (className : String) {v v' : Value}
    {args args' : List Value} (hv : C.value k v v') (hargs : Forall₂ (C.value k) args args') :
    C.Acts (fun _ => Eq) k (c.check host className v args) (c'.check host' className v' args') := by
  unfold ClassContract.check
  rw [hc.invariant, hc.mode]
  refine Simulation.acts_bind (h.holds c'.invariant hv) fun k' hk x y hxy => ?_
  cases hxy with
  | pending => exact Simulation.acts_pure fun _ _ => rfl
  | @ready held _ hheld =>
    obtain rfl := hheld
    have hargs' : Forall₂ (C.value k') args args' := hargs.imp fun _ _ => C.value_mono hk
    refine Simulation.acts_bind
      (h.emit hc.trace ⟨rfl, rfl, rfl, .args hargs', .none, rfl, rfl⟩) fun k'' _ _ _ _ => ?_
    cases held with
    | true => exact Simulation.acts_pure fun _ _ => rfl
    | false => exact acts_report _ _

theorem layer {l l' : Layer κ} (hl : l.Retraced T l') {v v' : Value} {args args' : List Value}
    (hv : C.value k v v') (hargs : Forall₂ (C.value k) args args') :
    C.Acts (fun _ => Eq) k (l.setUp host v args) (l'.setUp host' v' args') := by
  have hconstruction := hl.construction
  unfold Layer.setUp
  rw [hl.name]
  revert hconstruction
  generalize l.construction = x
  generalize l'.construction = y
  rintro (@⟨code⟩ | hc)
  · cases code with
    | none => exact Simulation.acts_pure fun _ _ => rfl
    | some code => exact h.setUp code hv hargs
  · exact h.check hc l'.name hv hargs

theorem layers {ls ls' : List (Layer κ)} (hls : Forall₂ (Layer.Retraced T) ls ls') {v v' : Value}
    {args args' : List Value} (hv : C.value k v v') (hargs : Forall₂ (C.value k) args args') :
    C.Acts (fun _ => Eq) k (setUpLayers host v args ls) (setUpLayers host' v' args' ls') := by
  induction hls generalizing k with
  | nil => exact Simulation.acts_pure fun _ _ => rfl
  | cons hl _ ih =>
    refine Simulation.acts_bind (h.layer hl hv hargs) ?_
    rintro k' hk r _ rfl
    cases r with
    | error err => exact Simulation.acts_pure fun _ _ => rfl
    | ok _ => exact ih (C.value_mono hk hv) (hargs.imp fun _ _ => C.value_mono hk)

/-- Constructions give objects that stand for each other. -/
theorem construct (ho : C.Objects) {c c' : Class κ} (hc : c.Retraced T c')
    {args args' : List Value} (hargs : Forall₂ (C.value k) args args') :
    C.Acts (fun k => Ends fun i i' => i.ofClass = c ∧ i'.ofClass = c' ∧ C.value k i.this i'.this) k
      (c.construct host args) (c'.construct host' args') := by
  unfold Class.construct
  rw [hc.name_eq]
  refine Simulation.acts_bind (ho.create _ .nil) fun k₁ hk₁ r r' hr => ?_
  refine Simulation.acts_bind (h.layers (List.rel_reverse hc.layers) hr
    (hargs.imp fun _ _ => C.value_mono hk₁)) ?_
  rintro k₂ hk₂ result _ rfl
  cases result with
  | error err => exact Simulation.acts_pure fun _ _ => .error err
  | ok _ => exact Simulation.acts_pure fun k₃ hk₃ => .ok ⟨rfl, rfl, C.value_mono (hk₂.trans hk₃) hr⟩

end SameHosts

/-! ## Runs with the same records -/

/-- A comparison of runs whose heaps are the same, so that every value stands for itself. -/
structure SameRecords (C : Comparison K ε δ) : Prop where
  value : ∀ {k v v'}, C.value k v v' ↔ v = v'
  heap : ∀ {k w w'}, C.agree k w w' → w.heap = w'.heap
  create : ∀ {k} (rec : Record),
    C.Acts (fun _ => Eq) k (World.newRecord rec) (World.newRecord rec)
  change : ∀ {k} (f : Heap → Option Heap),
    C.Acts (fun _ => Eq) k (World.changeHeap f) (World.changeHeap f)

namespace SameRecords

variable (hr : C.SameRecords)

include hr

theorem value_eq : C.value k = Eq := by
  funext v v'
  exact propext hr.value

theorem values {vs vs' : List Value} : Forall₂ (C.value k) vs vs' ↔ vs = vs' := by
  rw [hr.value_eq, List.forall₂_eq_eq_eq]

theorem outcomeSame_eq : C.OutcomeSame = fun _ => Eq := by
  funext k r r'
  rw [OutcomeSame, hr.value_eq]
  exact propext ⟨Ends.eq, fun h => h ▸ Ends.refl (fun _ => rfl) r⟩

theorem objects : C.Objects where
  shape := by
    intro k v v' hv
    obtain rfl := hr.value.mp hv
    cases v with
    | scalar s => exact .inl ⟨s, rfl, rfl⟩
    | array vs => exact .inr (.inl ⟨vs, vs, rfl, rfl, hr.values.mpr rfl⟩)
    | object r => exact .inr (.inr ⟨r, r, rfl, rfl⟩)
  field name hw hv := by rw [hr.heap hw, hr.value.mp hv, hr.value_eq]
  create := by
    rintro k className ⟨l⟩ ⟨l'⟩ ht
    rw [hr.value_eq] at ht
    have hl : l = l' :=
      List.forall₂_eq_eq_eq ▸ List.Forall₂.imp (fun _ _ hp => Prod.ext hp.1 hp.2) ht
    rw [hl]
    exact (hr.create _).imp fun _ _ _ hrefs => hr.value.mpr (congrArg Value.object hrefs)
  write name v v' hr' hv := by
    obtain rfl := Value.object.inj (hr.value.mp hr')
    obtain rfl := hr.value.mp hv
    exact hr.change _

variable (h : C.SameHosts Eq host host')

include h

theorem call (op : Operation κ) (v : Value) (i : Input) :
    C.Starts (fun _ => Eq) k (op.call host v i) (op.call host' v i) := by
  rw [← hr.outcomeSame_eq]
  exact h.call (.refl (fun _ => rfl) op) (hr.value.mpr rfl) (.refl (fun _ => hr.value.mpr rfl) i)

theorem construct (c : Class κ) (args : List Value) :
    C.Acts (fun _ => Eq) k (c.construct host args) (c.construct host' args) := by
  refine (h.construct hr.objects (.refl (fun _ => rfl) c) (hr.values.mpr rfl)).imp
    fun _ _ _ hxy => (hxy.imp ?_).eq
  rintro ⟨c₁, v⟩ ⟨c₂, v'⟩ ⟨h₁, h₂, hv⟩
  obtain rfl := hr.value.mp hv
  exact congrArg (Instance.mk · v) (h₁.trans h₂.symm)

end SameRecords

end Comparison
end Contracts
