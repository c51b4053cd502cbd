import Contracts.Class.Contract
import Contracts.Class.Instance
import Contracts.Proofs.Relations

/-!
# Contracts.Proofs.Retracing

Contracts that differ in where they trace to.

* `Spec.Retraced`, `Operation.Retraced`, `Class.Retraced` — the same but for the trace settings,
  which stand in a relation.
* `Class.Retraced.findMethod?`, `Class.Retraced.findAccessor?` — members are found alike.
* `retraced_build`, `Layer.Retraced.underContract`, `contractClass_retraced` — classes that are
  declared alike are so related, and so are those derived from them.
-/

namespace Contracts

open List (Forall₂)

variable {κ : Type}

section Relations

variable (T : TraceSetting κ → TraceSetting κ → Prop)

structure Spec.Retraced (s s' : Spec κ) : Prop where
  precondition : s.precondition = s'.precondition
  postcondition : s.postcondition = s'.postcondition
  invariant : s.invariant = s'.invariant
  mode : s.mode = s'.mode
  trace : T s.trace s'.trace

inductive Operation.Retraced : Operation κ → Operation κ → Prop where
  | plain (code : κ) : Operation.Retraced (.plain code) (.plain code)
  | checked (site : CallSite) {spec spec' : Spec κ} {inner inner' : Operation κ}
      (hspec : spec.Retraced T spec') (h : Operation.Retraced inner inner') :
      Operation.Retraced (.checked site spec inner) (.checked site spec' inner')

structure Wrapped.Retraced (w w' : Wrapped κ) : Prop where
  form : w.form = w'.form
  operation : w.operation.Retraced T w'.operation

structure Accessor.Retraced (a a' : Accessor κ) : Prop where
  getter : a.getter = a'.getter
  setter : Option.Rel (Operation.Retraced T) a.setter a'.setter

structure ClassContract.Retraced (c c' : ClassContract κ) : Prop where
  invariant : c.invariant = c'.invariant
  mode : c.mode = c'.mode
  trace : T c.trace c'.trace

inductive Construction.Retraced : Construction κ → Construction κ → Prop where
  | initializer (code : Option κ) : Construction.Retraced (.initializer code) (.initializer code)
  | contract {c c' : ClassContract κ} (h : c.Retraced T c') :
      Construction.Retraced (.contract c) (.contract c')

structure Layer.Retraced (l l' : Layer κ) : Prop where
  name : l.name = l'.name
  construction : l.construction.Retraced T l'.construction
  methods : l.methods.Alike (Operation.Retraced T) l'.methods
  accessors : l.accessors.Alike (Accessor.Retraced T) l'.accessors

structure Class.Retraced (c c' : Class κ) : Prop where
  own : c.own.Retraced T c'.own
  ancestors : Forall₂ (Layer.Retraced T) c.ancestors c'.ancestors

/-- Instances of classes that differ in their traces, for objects that stand for each other. -/
structure Instance.Retraced (V : Value → Value → Prop) (i i' : Instance κ) : Prop where
  ofClass : i.ofClass.Retraced T i'.ofClass
  this : V i.this i'.this

/-- Declarations with the same remarks, which mean contracts that differ in their traces. -/
structure Declaration.Retraced (d d' : Declaration κ) : Prop where
  spec : d.resolve.1.Retraced T d'.resolve.1
  notices : d.resolve.2 = d'.resolve.2

end Relations

variable {T : TraceSetting κ → TraceSetting κ → Prop}

/-! ## What is related to itself -/

section Reflexive

variable (hT : ∀ t, T t t)

include hT

theorem Spec.Retraced.refl (s : Spec κ) : s.Retraced T s := ⟨rfl, rfl, rfl, rfl, hT _⟩

theorem Operation.Retraced.refl (op : Operation κ) : op.Retraced T op := by
  induction op with
  | plain code => exact .plain code
  | checked site spec inner ih => exact .checked site (.refl hT spec) ih

theorem Wrapped.Retraced.refl (w : Wrapped κ) : w.Retraced T w := ⟨rfl, .refl hT _⟩

theorem Layer.Retraced.refl (l : Layer κ) : l.Retraced T l where
  name := rfl
  construction := by
    cases l.construction with
    | initializer code => exact .initializer code
    | contract c => exact .contract ⟨rfl, rfl, hT _⟩
  methods := List.forall₂_same.mpr fun _ _ => ⟨rfl, .refl hT _⟩
  accessors := List.forall₂_same.mpr fun e _ => ⟨rfl, rfl, by
    cases e.2.setter with
    | none => exact .none
    | some op => exact .some (.refl hT op)⟩

theorem Class.Retraced.refl (c : Class κ) : c.Retraced T c :=
  ⟨.refl hT _, List.forall₂_same.mpr fun _ _ => .refl hT _⟩

end Reflexive

theorem Spec.Retraced.eq {s s' : Spec κ} (h : s.Retraced Eq s') : s = s' := by
  obtain ⟨_, _, _, _, _⟩ := s
  obtain ⟨_, _, _, _, _⟩ := s'
  obtain ⟨rfl, rfl, rfl, rfl, rfl⟩ := h
  rfl

/-! ## Looking up members -/

namespace Class.Retraced

variable {c c' : Class κ}

theorem layers (h : c.Retraced T c') : Forall₂ (Layer.Retraced T) c.layers c'.layers :=
  .cons h.own h.ancestors

theorem name_eq (h : c.Retraced T c') : c.name = c'.name := h.own.name

theorem parent? (h : c.Retraced T c') : Option.Rel (Layer.Retraced T) c.parent? c'.parent? := by
  rw [Class.parent?, Class.parent?, List.head?_eq_getElem?, List.head?_eq_getElem?]
  exact forall₂_getElem? h.ancestors 0

theorem isContracted_eq (h : c.Retraced T c') : c.isContracted = c'.isContracted := by
  have hconstruction := h.own.construction
  rw [Class.isContracted, Class.isContracted]
  revert hconstruction
  generalize c.own.construction = x
  generalize c'.own.construction = y
  rintro (_ | _) <;> rfl

theorem findMethod? (h : c.Retraced T c') (key : MemberKey) :
    Option.Rel (Operation.Retraced T) (c.findMethod? key) (c'.findMethod? key) :=
  findSome?_rel (fun _ _ hl => hl.methods.get? key) h.layers

theorem findAccessor? (h : c.Retraced T c') (key : MemberKey) :
    Option.Rel (Accessor.Retraced T) (c.findAccessor? key) (c'.findAccessor? key) :=
  findSome?_rel (fun _ _ hl => hl.accessors.get? key) h.layers

theorem findSetter? (h : c.Retraced T c') (key : MemberKey) :
    Option.Rel (Operation.Retraced T) ((c.findAccessor? key).bind (·.setter))
      ((c'.findAccessor? key).bind (·.setter)) := by
  have hfind := h.findAccessor? key
  revert hfind
  generalize c.findAccessor? key = x
  generalize c'.findAccessor? key = y
  rintro (ha | _)
  · exact ha.setter
  · exact .none

end Class.Retraced

/-! ## Declaring classes -/

/-- Classes that are declared have no traces. -/
theorem retraced_build (name : String) (init : Option κ) (members : List (MemberKey × Member κ)) :
    (Layer.build name init members).Retraced T (Layer.build name init members) := by
  have hdeclare : ∀ {l : Layer κ}, l.Retraced T l → ∀ m, (l.declare m).Retraced T (l.declare m) := by
    rintro l h ⟨key, code | code | code⟩
    · exact { h with methods := h.methods.insert key (.plain code) }
    · refine { h with accessors := h.accessors.insert key ⟨rfl, ?_⟩ }
      exact (getD_rel (h.accessors.get? key) ⟨rfl, .none⟩).setter
    · exact { h with accessors := h.accessors.insert key ⟨rfl, .some (.plain code)⟩ }
  have hfold : ∀ {l : Layer κ}, l.Retraced T l →
      (members.foldl Layer.declare l).Retraced T (members.foldl Layer.declare l) := by
    induction members with
    | nil => exact id
    | cons m rest ih => exact fun h => ih (hdeclare h m)
  exact hfold ⟨rfl, .initializer init, .nil, .nil⟩

theorem Class.Retraced.extend {own own' : Layer κ} {parent parent' : Option (Class κ)}
    (h : own.Retraced T own') (hparent : Option.Rel (Class.Retraced T) parent parent') :
    (Class.extend own parent).Retraced T (Class.extend own' parent') where
  own := h
  ancestors := by
    cases hparent with
    | none => exact .nil
    | some hp => exact hp.layers

/-! ## Putting contracts on classes -/

theorem ClassContract.Retraced.spec {c c' : ClassContract κ} (h : c.Retraced T c') :
    c.spec.Retraced T c'.spec :=
  ⟨rfl, rfl, congrArg some h.invariant, h.mode, h.trace⟩

theorem Spec.Retraced.classContract? {s s' : Spec κ} (h : s.Retraced T s') :
    Option.Rel (ClassContract.Retraced T) s.classContract? s'.classContract? := by
  rw [Spec.classContract?, Spec.classContract?, h.invariant]
  cases s'.invariant with
  | none => exact .none
  | some code => exact .some ⟨rfl, h.mode, h.trace⟩

theorem Layer.Retraced.underContract {l l' : Layer κ} (h : l.Retraced T l') {c c' : ClassContract κ}
    (hc : c.Retraced T c') : (l.underContract c).Retraced T (l'.underContract c') where
  name := h.name
  construction := .contract hc
  methods := by
    refine (h.methods.filter _).map fun key op op' hop => ?_
    rw [h.name]
    exact .checked _ hc.spec hop
  accessors := by
    refine (h.accessors.filter _).map fun key a a' ha => ⟨ha.getter, ?_⟩
    rw [h.name]
    exact map_rel (fun _ _ hop => .checked _ hc.spec hop) ha.setter

theorem contractClass_retraced {base base' : Class κ} (h : base.Retraced T base')
    {d d' : Declaration κ} (hd : d.Retraced T d') :
    Ends (Class.Retraced T) (contractClass base d).1 (contractClass base' d').1 ∧
      (contractClass base d).2 = (contractClass base' d').2 := by
  simp only [contractClass, hd.notices, h.name_eq]
  have hcontract := hd.spec.classContract?
  revert hcontract
  generalize d.resolve.1.classContract? = x
  generalize d'.resolve.1.classContract? = y
  rintro (hc | _)
  · have hown := h.own.underContract hc
    refine ⟨.ok (.extend hown (.some h)), ?_⟩
    dsimp only
    rw [hown.methods.size_eq, hown.accessors.size_eq]
  · exact ⟨.error _, rfl⟩

end Contracts
