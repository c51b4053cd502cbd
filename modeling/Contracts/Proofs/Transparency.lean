import Contracts.Proofs.Blindness
import Contracts.Proofs.Construction
import Contracts.Proofs.Hierarchy
import Contracts.Proofs.Latency
import Contracts.Proofs.Scripts

/-!
# Contracts.Proofs.Transparency

A class contract that never fails is not noticed.

* `Class.underContract` — the class derived from a base by a contract.
* `Class.takenOver?` — the members of the base that are put under contract.
* `use_of_unwrapped`, `use_of_wrapped`, `get_underContract`, `construct_underContract` — what the
  derived class does, in terms of its base.
* `exec_call_true` — a call under an invariant that is true does the same as without it, and leaves
  one more entry in the journal.
* `Demand`, `Serving`, `steps` — histories of constructions, calls, reads and writes, each driven
  to its end.
* `contract_transparent` — a history through the derived class is the history through its base, with
  an entry more for every call or write that reaches a member under contract.
-/

namespace Contracts

variable {κ ε : Type}

/-! ## The derived class -/

def Class.underContract (base : Class κ) (c : ClassContract κ) : Class κ :=
  .extend (base.own.underContract c) (some base)

/-- The member of the base that a use of the derived class reaches with a check around it: one that
the base itself has, under a key that is not the one of the slot for construction. -/
def Class.takenOver? (base : Class κ) (u : Use) : Option (MemberKey × Operation κ) :=
  if u.key.isConstructor then none else base.own.member? u

/-- The class itself comes first, with none before it. -/
theorem Class.layers_eq (c : Class κ) : c.layers = [] ++ c.own :: c.ancestors := rfl

section
variable (host : Host κ ε) {base : Class κ} {c : ClassContract κ} (v : Value) {u : Use}

/-- The derived class has the members taken over, each with a check around it, and no others. -/
theorem Class.member?_underContract :
    (base.underContract c).own.member? u = (base.takenOver? u).map fun m =>
      (m.1, .checked (memberSite base.name m.1) c.spec m.2) := by
  rw [underContract, extend, takenOver?]
  cases hkey : u.key.isConstructor with
  | false => exact Layer.member?_underContract _ _ hkey
  | true =>
    refine Option.eq_none_iff_forall_not_mem.mpr fun m hm => ?_
    have hholds := Layer.holds_of_member? hm
    rw [Layer.holds_underContract, hkey, Bool.not_true, Bool.and_false] at hholds
    cases hholds

/-- A use that reaches a member taken over calls the operation of the base with a check around
it. -/
theorem use_of_wrapped {m : MemberKey × Operation κ} (h : base.takenOver? u = some m) :
    (⟨base, v⟩ : Instance κ).use host u = m.2.call host v u.input ∧
      (⟨base.underContract c, v⟩ : Instance κ).use host u =
        (Operation.checked (memberSite base.name m.1) c.spec m.2).call host v u.input := by
  have hbase : base.own.member? u = some m := by
    rw [Class.takenOver?] at h
    split at h
    · cases h
    · exact h
  have hderived : (base.underContract c).own.member? u = _ := Class.member?_underContract
  rw [h, Option.map_some] at hderived
  exact ⟨use_of_nearest host base.layers_eq (by simp) hbase,
    use_of_nearest host (base.underContract c).layers_eq (by simp) hderived⟩

/-- Every other use is that of the base, also where it is refused. -/
theorem use_of_unwrapped (h : base.takenOver? u = none) :
    (⟨base.underContract c, v⟩ : Instance κ).use host u = (⟨base, v⟩ : Instance κ).use host u := by
  have hmember : (base.underContract c).own.member? u = none := by
    rw [Class.member?_underContract, h, Option.map_none]
  cases hholds : (base.underContract c).own.holds u with
  | true =>
    -- an accessor without a setter, in the derived class as in the base
    have hbase := hholds
    rw [Class.underContract, Class.extend, Layer.holds_underContract, Bool.and_eq_true,
      Bool.not_eq_true'] at hbase
    rw [Class.takenOver?, hbase.2] at h
    have hrefused := use_of_missing_setter (i := ⟨base, v⟩) host base.layers_eq (by simp) hbase.1 h
    rw [hrefused]
    exact use_of_missing_setter host (base.underContract c).layers_eq (by simp) hholds hmember
  | false =>
    cases u with
    | call key args =>
      rw [Layer.holds_call, Option.isSome_eq_false_iff, Option.isNone_iff_eq_none] at hholds
      have hfind : (base.underContract c).findMethod? key = base.findMethod? key := by
        rw [Class.findMethod?, Class.layers, List.findSome?_cons, hholds]
        rfl
      simp only [Instance.use, Instance.call, hfind]
      rfl
    | set key value =>
      rw [Layer.holds_set, Option.isSome_eq_false_iff, Option.isNone_iff_eq_none] at hholds
      have hfind : (base.underContract c).findAccessor? key = base.findAccessor? key := by
        rw [Class.findAccessor?, Class.layers, List.findSome?_cons, hholds]
        rfl
      simp only [Instance.use, Instance.set, hfind]
      rfl

/-- Reading is never checked. -/
theorem get_underContract (key : MemberKey) :
    (⟨base.underContract c, v⟩ : Instance κ).get host key =
      (⟨base, v⟩ : Instance κ).get host key := by
  have hpair : (base.own.underContract c).accessors.pair? key = _ :=
    Table.pair?_map_filter _ (Layer.not_isConstructor_eq key) base.own.accessors
  have hgetter : ((base.underContract c).findAccessor? key).bind (·.getter) =
      (base.findAccessor? key).bind (·.getter) := by
    simp only [Class.findAccessor?, Class.layers, List.findSome?_cons, Class.underContract,
      Class.extend, Table.get?_eq_pair?, hpair]
    cases key.isConstructor with
    | true => rfl
    | false =>
      cases base.own.accessors.pair? key with
      | none => rfl
      | some e => rfl
  simp only [Instance.get, hgetter]

variable {host}

theorem exec_setUpLayers_append {this : Value} {args : List Value} {xs ys : List (Layer κ)}
    {w : World ε} : (setUpLayers host this args (xs ++ ys)).exec w =
      match (setUpLayers host this args xs).exec w with
      | (.ok (.ok ()), w₁) => (setUpLayers host this args ys).exec w₁
      | stopped => stopped := by
  induction xs generalizing w with
  | nil => rfl
  | cons l rest ih =>
    rw [List.cons_append, exec_setUpLayers_cons, exec_setUpLayers_cons]
    rcases (l.setUp host this args).exec w with ⟨cause | err | _, w₁⟩
    · rfl
    · rfl
    · exact ih

/-- With an invariant that is true and not traced, construction is that of the base. -/
theorem construct_underContract (htrace : c.trace = .disabled)
    (htrue : ∀ v w, (host.holds c.invariant v).exec w = (.ok (.ready true), w))
    (args : List Value) (w : World ε) :
    ((base.underContract c).construct host args).exec w = ((base.construct host args).exec w).map
      (·.map (·.map fun i => ⟨base.underContract c, i.this⟩)) id := by
  have hcheck : ∀ this w, (setUpLayers host this args [base.own.underContract c]).exec w =
      (.ok (.ok ()), w) := by
    intro this w
    have hlayer : ((base.own.underContract c).setUp host this args).exec w =
        (.ok (.ok ()), w) := by
      simp only [Layer.setUp, Layer.underContract, ClassContract.exec_check (htrue this w), htrace]
      rfl
    rw [exec_setUpLayers_cons, hlayer]
    rfl
  have hlayers : (base.underContract c).layers.reverse =
      base.layers.reverse ++ [base.own.underContract c] := List.reverse_cons
  have hname : (base.underContract c).name = base.name := rfl
  rw [Class.exec_construct_eq, Class.exec_construct_eq, hlayers, hname, exec_setUpLayers_append]
  rcases (setUpLayers host _ args base.layers.reverse).exec _ with ⟨cause | err | _, w₁⟩
  · rfl
  · rfl
  · simp only [hcheck]
    rfl

end

/-! ## A call under an invariant that is true -/

section
variable {host : Host κ ε} {c : ClassContract κ} {v : Value} {f : Frame κ}

/-- A check that holds at once and is not traced leaves the state as it is. -/
theorem drive_examine_true {g : Guard} {code : κ} {result : Option Value} {w : World ε}
    (htrace : f.spec.trace = .disabled)
    (htest : (f.test host result code g).exec w = (.ok (.ready true), w)) (e : Evaluation) :
    (f.examine host result g code e).drive w = (.ok (.ok true, e.record g true), w) := by
  have hobserve : (f.observe host result g true).exec w = (.ok (.ok ()), w) := by
    rw [Frame.observe, htrace]
    rfl
  have hsettle : (Frame.settle (.check g) e (f.test host result code g)).drive w =
      (.ok (true, e), w) := by
    simp only [Frame.settle, Future.bind_eq, Future.drive_bind, Future.drive_lift, htest]
    rfl
  simp only [Frame.examine, Future.bind_eq, Future.drive_bind, hsettle, Future.drive_lift, hobserve]
  rfl

/-- A call under an invariant that is always true and not traced is driven as the operation is,
with the entry that closes it. -/
theorem exec_call_true (htrace : c.trace = .disabled)
    (htrue : ∀ w, (host.holds c.invariant v).exec w = (.ok (.ready true), w)) (site : CallSite)
    (op : Operation κ) (i : Input) (w : World ε) :
    match (op.call host v i).drive.exec w with
    | (.ok r, w') => ∃ e, ((Operation.checked site c.spec op).call host v i).drive.exec w =
        (.ok r, { w' with
          entries := .evaluated (site.label w.heap v) site.member r.isOk e :: w'.entries })
    | (.error cause, w') =>
      ((Operation.checked site c.spec op).call host v i).drive.exec w = (.error cause, w') := by
  let f := Operation.frame site c.spec v i w.heap
  have henter : (f.enter host f.spec.entry {}).drive w =
      (.ok (.ok true, Evaluation.record {} .invariantBefore true), w) := by
    show (f.enter host [(.invariantBefore, c.invariant)] {}).drive w = _
    simp only [Frame.enter, Future.bind_eq, Future.drive_bind,
      drive_examine_true (f := f) (g := .invariantBefore) htrace (htrue w)]
    rfl
  have hleave : ∀ value e w, (f.leave host value f.spec.exit e).drive w =
      (.ok (.ok (), e.record .invariantAfter true), w) := by
    intro value e w
    show (f.leave host value [(.invariantAfter, c.invariant)] e).drive w = _
    simp only [Frame.leave, Future.bind_eq, Future.drive_bind,
      drive_examine_true (f := f) (g := .invariantAfter) htrace (htrue w)]
    rfl
  obtain ⟨e, _, hsettle⟩ := Frame.drive_settle .invocation
    (Evaluation.record {} .invariantBefore true) (op.call host v i) w
  have hcall : ((Operation.checked site c.spec op).call host v i).drive.exec w =
      (((f.run host (op.call host v i)).drive w).1.map Prod.fst,
        ((f.run host (op.call host v i)).drive w).2) := by
    rw [Action.exec_drive, Operation.exec_call_checked, ← Action.exec_drive]
    exact finish_invoke host f (op.call host v i) w
  rw [hcall]
  simp only [Frame.run, Frame.stages, Future.bind_eq, Future.drive_bind, Future.drive_lift, henter,
    hsettle]
  rw [← Action.drive]
  rcases (op.call host v i).drive.exec w with ⟨cause | err | value, w'⟩
  · rfl
  · exact ⟨e, rfl⟩
  · simp only [Future.drive_bind, hleave]
    exact ⟨_, rfl⟩

end

/-! ## Histories -/

/-- What is asked of a class and of the objects made so far, which are counted in order. -/
inductive Demand where
  | construct (args : List Value)
  | use (n : Nat) (u : Use)
  | get (n : Nat) (key : MemberKey)

inductive Served where
  | constructed (this : Value)
  | refused (err : ContractError)
  | completed (r : Except ContractError Value)
  | value (v : Value)
  /-- There is no such object. -/
  | absent

structure Serving (κ ε : Type) where
  world : World ε
  instances : List (Instance κ) := []

/-- Does what is asked, to its end. A demand that gives up leaves what it did until then. -/
def Demand.serve (host : Host κ ε) (c : Class κ) (s : Serving κ ε) :
    Demand → Except Abort Served × Serving κ ε
  | .construct args =>
    match (c.construct host args).exec s.world with
    | (.ok (.ok i), w) => (.ok (.constructed i.this), ⟨w, s.instances ++ [i]⟩)
    | (.ok (.error err), w) => (.ok (.refused err), { s with world := w })
    | (.error cause, w) => (.error cause, { s with world := w })
  | .use n u =>
    match s.instances[n]? with
    | some i =>
      let (r, w) := (i.use host u).drive.exec s.world
      (r.map .completed, { s with world := w })
    | none => (.ok .absent, s)
  | .get n key =>
    match s.instances[n]? with
    | some i =>
      let (v, w) := (i.get host key).exec s.world
      (v.map .value, { s with world := w })
    | none => (.ok .absent, s)

/-- A demand that was served. -/
structure Step (κ ε : Type) where
  demand : Demand
  answer : Except Abort Served
  before : Serving κ ε
  after : Serving κ ε

def steps (host : Host κ ε) (c : Class κ) : Serving κ ε → List Demand → List (Step κ ε)
  | _, [] => []
  | s, d :: rest =>
    let (answer, s') := d.serve host c s
    ⟨d, answer, s, s'⟩ :: steps host c s' rest

/-- The member taken over that a demand has reached and run to its end, and whether this was
without an error. -/
def Class.checked? (base : Class κ) : Demand → Except Abort Served → Option (String × Bool)
  | .use _ u, .ok (.completed r) => (base.takenOver? u).map fun m => (m.1.text, r.isOk)
  | _, _ => none

/-- The same step, through the base and through a class derived from it. -/
structure SameStep (base : Class κ) (p q : Step κ ε) : Prop where
  demand : q.demand = p.demand
  answer : q.answer = p.answer
  state : q.after.world.state = p.after.world.state
  objects : q.after.instances.map (·.this) = p.after.instances.map (·.this)
  /-- Both write the same entries; one more comes last if a member taken over was run to its end. -/
  entries : ∃ new added, p.after.world.entries = new ++ p.before.world.entries ∧
    q.after.world.entries = added ++ new ++ q.before.world.entries ∧
    match base.checked? p.demand p.answer with
    | none => added = []
    | some (member, succeeded) => ∃ e, added = [.evaluated base.name member succeeded e]

/-- Two servings that differ in the class of the objects and in the journal. -/
structure Serving.Alike (base derived : Class κ) (s s' : Serving κ ε) : Prop where
  state : s.world.state = s'.world.state
  ofBase : ∀ i ∈ s.instances, i.ofClass = base
  instances : s'.instances = s.instances.map fun i => ⟨derived, i.this⟩

namespace Serving.Alike

variable {base derived : Class κ} {s s' : Serving κ ε}

theorem objects (h : s.Alike base derived s') :
    s'.instances.map (·.this) = s.instances.map (·.this) := by
  rw [h.instances, List.map_map]
  rfl

theorem withWorld (h : s.Alike base derived s') {w w' : World ε} (hw : w.state = w'.state) :
    { s with world := w }.Alike base derived { s' with world := w' } :=
  ⟨hw, h.ofBase, h.instances⟩

/-- An object that one side has the other side has too, and both count it alike. -/
theorem getElem? (h : s.Alike base derived s') (n : Nat) :
    s.instances[n]? = none ∧ s'.instances[n]? = none ∨
      ∃ v, s.instances[n]? = some ⟨base, v⟩ ∧ s'.instances[n]? = some ⟨derived, v⟩ := by
  rw [h.instances, List.getElem?_map]
  cases hn : s.instances[n]? with
  | none => exact .inl ⟨rfl, rfl⟩
  | some i =>
    obtain ⟨_, v⟩ := i
    obtain rfl := h.ofBase _ (List.mem_of_getElem? hn)
    exact .inr ⟨v, rfl, rfl⟩

/-- A step that leaves alike what it found alike. -/
theorem step {s₁ s₁' : Serving κ ε} (h : s₁.Alike base derived s₁') {d : Demand}
    {answer : Except Abort Served} (new added : List Event)
    (hnew : s₁.world.entries = new ++ s.world.entries)
    (hadded : s₁'.world.entries = added ++ new ++ s'.world.entries)
    (hchecked : match base.checked? d answer with
      | none => added = []
      | some (member, succeeded) => ∃ e, added = [.evaluated base.name member succeeded e]) :
    SameStep base ⟨d, answer, s, s₁⟩ ⟨d, answer, s', s₁'⟩ ∧ s₁.Alike base derived s₁' :=
  ⟨⟨rfl, rfl, h.state.symm, h.objects, new, added, hnew, hadded, hchecked⟩, h⟩

end Serving.Alike

section
variable {host : Host κ ε} {base : Class κ} {c : ClassContract κ}

theorem ofClass_of_construct {args : List Value} {w w' : World ε} {i : Instance κ}
    (h : (base.construct host args).exec w = (.ok (.ok i), w')) : i.ofClass = base := by
  rw [Class.exec_construct_eq] at h
  revert h
  rcases (setUpLayers host _ args base.layers.reverse).exec _ with ⟨cause | err | _, w₁⟩
  · rintro ⟨⟩
  · rintro ⟨⟩
  · rintro ⟨⟩
    rfl

section Steps

variable (hblind : host.Blind) (htrace : c.trace = .disabled)
  (htrue : ∀ v w, (host.holds c.invariant v).exec w = (.ok (.ready true), w))
  {s s' : Serving κ ε}

/-- Serving a demand through the derived class is serving it through the base. -/
def SameService (host : Host κ ε) (base derived : Class κ) (s s' : Serving κ ε) (d : Demand) :
    Prop :=
  let p := d.serve host base s
  let q := d.serve host derived s'
  SameStep base ⟨d, p.1, s, p.2⟩ ⟨d, q.1, s', q.2⟩ ∧ p.2.Alike base derived q.2

include hblind htrace htrue in
theorem sameService_construct (hs : s.Alike base (base.underContract c) s') (args : List Value) :
    SameService host base (base.underContract c) s s' (.construct args) := by
  obtain ⟨x, w, w', new, hexec, hexec', hstate, hnew, hnew'⟩ :=
    (hblind.construct base args).exists_exec hs.state
  simp only [SameService, Demand.serve, construct_underContract htrace htrue, hexec, hexec']
  rcases x with cause | err | i
  · exact (hs.withWorld hstate).step new [] hnew hnew' rfl
  · exact (hs.withWorld hstate).step new [] hnew hnew' rfl
  · refine Serving.Alike.step ⟨hstate, ?_, ?_⟩ new [] hnew hnew' rfl
    · exact List.forall_mem_append.mpr
        ⟨hs.ofBase, List.forall_mem_singleton.mpr (ofClass_of_construct hexec)⟩
    · show s'.instances ++ _ = _
      rw [hs.instances, List.map_append]
      rfl

include hblind in
/-- A use that does not reach a member taken over. -/
theorem sameService_unwrapped (hs : s.Alike base (base.underContract c) s') {n : Nat} {u : Use}
    (hm : base.takenOver? u = none) :
    SameService host base (base.underContract c) s s' (.use n u) := by
  rcases hs.getElem? n with ⟨hn, hn'⟩ | ⟨v, hn, hn'⟩
  · simp only [SameService, Demand.serve, hn, hn']
    exact hs.step [] [] rfl rfl rfl
  · obtain ⟨x, w, w', new, hexec, hexec', hstate, hnew, hnew'⟩ :=
      (hblind.use ⟨base, v⟩ u).drive.exists_exec hs.state
    simp only [SameService, Demand.serve, hn, hn', use_of_unwrapped host v hm, hexec, hexec']
    refine (hs.withWorld hstate).step new [] hnew hnew' ?_
    cases x with
    | error cause => rfl
    | ok r => simp only [Except.map, Class.checked?, hm, Option.map_none]

include hblind htrace htrue in
/-- A use that reaches a member taken over leaves one more entry if it is run to its end. -/
theorem sameService_wrapped (hs : s.Alike base (base.underContract c) s') {n : Nat} {u : Use}
    {m : MemberKey × Operation κ} (hm : base.takenOver? u = some m) :
    SameService host base (base.underContract c) s s' (.use n u) := by
  rcases hs.getElem? n with ⟨hn, hn'⟩ | ⟨v, hn, hn'⟩
  · simp only [SameService, Demand.serve, hn, hn']
    exact hs.step [] [] rfl rfl rfl
  · obtain ⟨hbase, hderived⟩ := use_of_wrapped (c := c) host v hm
    obtain ⟨x, w, w', new, hexec, hexec', hstate, hnew, hnew'⟩ :=
      (hblind.call m.2 v u.input).drive.exists_exec hs.state
    have hcall := exec_call_true htrace (htrue v) (memberSite base.name m.1) m.2 u.input s'.world
    simp only [hexec'] at hcall
    simp only [SameService, Demand.serve, hn, hn', hbase, hderived, hexec]
    cases x with
    | error cause =>
      rw [hcall]
      exact (hs.withWorld hstate).step new [] hnew hnew' rfl
    | ok r =>
      obtain ⟨e, hcall⟩ := hcall
      rw [hcall]
      let logged : World ε :=
        { w' with entries := .evaluated base.name m.1.text r.isOk e :: w'.entries }
      have hlogged : w.state = logged.state := hstate
      refine (hs.withWorld hlogged).step new [.evaluated base.name m.1.text r.isOk e] hnew ?_ ?_
      · show _ :: w'.entries = _
        rw [hnew']
        rfl
      · simp only [Except.map, Class.checked?, hm, Option.map_some]
        exact ⟨e, rfl⟩

include hblind in
theorem sameService_get (hs : s.Alike base (base.underContract c) s') (n : Nat)
    (key : MemberKey) : SameService host base (base.underContract c) s s' (.get n key) := by
  rcases hs.getElem? n with ⟨hn, hn'⟩ | ⟨v, hn, hn'⟩
  · simp only [SameService, Demand.serve, hn, hn']
    exact hs.step [] [] rfl rfl rfl
  · obtain ⟨x, w, w', new, hexec, hexec', hstate, hnew, hnew'⟩ :=
      (hblind.get ⟨base, v⟩ key).exists_exec hs.state
    simp only [SameService, Demand.serve, hn, hn', get_underContract, hexec, hexec']
    refine (hs.withWorld hstate).step new [] hnew hnew' ?_
    cases x with
    | error cause => rfl
    | ok value => rfl

include hblind htrace htrue in
theorem sameService (hs : s.Alike base (base.underContract c) s') (d : Demand) :
    SameService host base (base.underContract c) s s' d := by
  cases d with
  | construct args => exact sameService_construct hblind htrace htrue hs args
  | use n u =>
    cases hm : base.takenOver? u with
    | none => exact sameService_unwrapped hblind hs hm
    | some m => exact sameService_wrapped hblind htrace htrue hs hm
  | get n key => exact sameService_get hblind hs n key

include hblind htrace htrue in
theorem sameSteps (hs : s.Alike base (base.underContract c) s') (demands : List Demand) :
    List.Forall₂ (SameStep base) (steps host base s demands)
      (steps host (base.underContract c) s' demands) := by
  induction demands generalizing s s' with
  | nil => exact .nil
  | cons d rest ih =>
    obtain ⟨hstep, hafter⟩ := sameService hblind htrace htrue hs d
    exact .cons hstep (ih hafter)

end Steps

end

/-- A class contract that never fails is not noticed. Take callbacks that do not see the journal,
and a declaration whose invariant is true at once wherever it is asked, changes nothing, and is not
traced. Then a history of constructions, calls, reads and writes through the derived class is the
history through its base: step by step it gives the same values and errors, makes the same objects
under the same class name, and leaves the same state. The journals differ by one entry for every
call or write that has run to its end and has reached a member the base itself has, other than in
the slot for construction. -/
theorem contract_transparent {host : Host κ ε} (hblind : host.Blind) {base derived : Class κ}
    {d : Declaration κ} {notices : List Notice}
    (hd : contractClass base d = (.ok derived, notices)) (htrace : d.resolve.1.trace = .disabled)
    (htrue : ∀ code, d.resolve.1.invariant = some code →
      ∀ v w, (host.holds code v).exec w = (.ok (.ready true), w))
    (w : World ε) (demands : List Demand) :
    derived.name = base.name ∧ List.Forall₂ (SameStep base)
      (steps host base ⟨w, []⟩ demands) (steps host derived ⟨w, []⟩ demands) := by
  obtain ⟨c, hc, rfl⟩ := contractClass_eq hd
  obtain ⟨invariant, hinvariant, rfl⟩ := Option.map_eq_some_iff.mp hc
  refine ⟨rfl, sameSteps hblind htrace (htrue invariant hinvariant) ⟨rfl, ?_, rfl⟩ demands⟩
  exact List.forall_mem_nil _

namespace Jar

open Script

/-- Fills the jar, and answers one poll later. -/
def fill : Callback :=
  { timing := .eager 1, body := [.setField .this "full" (.literal (.constant (.bool true)))] }

def content : Callback := { body := [.give (.field .this "full")] }

def always : Callback := { body := [.give (.literal (.constant (.bool true)))] }

/-- A method, a getter, and a method in the slot for construction. -/
def jar : Class Callback :=
  .extend (.build "Jar" none [(.name "fill", .method fill), (.name "content", .getter content),
    (.name "constructor", .method fill)]) none

def declaration : Declaration Callback :=
  .record { invariant := some always, trace := some .disabled }

def guarded : Class Callback := jar.underContract ⟨always, .disabled, none⟩

def world : World Scope := { mode := .holding .log, own := {} }

def demands : List Demand :=
  [.construct [], .use 0 (.call (.name "fill") []), .use 0 (.call (.name "constructor") []),
    .get 0 (.name "content")]

def journals (served : List (Step Callback Scope)) : List Nat :=
  served.map fun p => p.after.world.entries.length

/-- Only the method under contract leaves an entry. -/
theorem filled_alike : (hostOf 1).Blind ∧
    contractClass jar declaration = (.ok guarded, [.classContracted "Jar" 1 1]) ∧
    List.Forall₂ (SameStep jar) (steps (hostOf 1) jar ⟨world, []⟩ demands)
      (steps (hostOf 1) guarded ⟨world, []⟩ demands) ∧
    journals (steps (hostOf 1) jar ⟨world, []⟩ demands) = [0, 0, 0, 0] ∧
    journals (steps (hostOf 1) guarded ⟨world, []⟩ demands) = [0, 1, 1, 1] := by
  refine ⟨hostOf_blind 1, rfl, ?_, rfl, rfl⟩
  refine (contract_transparent (hostOf_blind 1) (d := declaration) rfl rfl ?_ world demands).2
  rintro _ ⟨⟩ v w
  rfl

end Jar

end Contracts
