import Contracts.Proofs.Checkpoints

/-!
# Contracts.Proofs.Rings

Calls under any number of contracts, layer by layer.

* `Operation.layers`, `code` — the contracts around an operation, the outermost first, and the code
  inside.
* `Operation.Rings` — what happens in each layer of a call that comes to its end.
* `Operation.onion` — the callbacks of a call in which all goes well.
* `Operation.Nested` — how the layers of a call go with each other: in order, silent about the
  errors of those inside, and checking `undefined` where one inside has refused the call.
* `Rings.nested`    — the layers of every call do.
-/

namespace Contracts

variable {κ ε : Type}

namespace Operation

/-- The contracts around the code, the outermost first. -/
def layers : Operation κ → List (CallSite × Spec κ)
  | .plain _ => []
  | .checked site spec inner => (site, spec) :: inner.layers

def code : Operation κ → κ
  | .plain code => code
  | .checked _ _ inner => inner.code

end Operation

/-! ## Single checks and their modes -/

namespace Frame

variable {R : World ε → World ε → Prop} {host : Host κ ε} {f : Frame κ}
  {operation : Action (World ε) (Completion ε)} {w w' : World ε} {x : Finding κ ε}

theorem Examined.eq_of_throw {verdict : Except ContractError Bool}
    (h : f.Examined R host x verdict w') (hx : x.held = false)
    (hmode : f.modeIn x.traced = .throw) : verdict = .error (.violation (f.violation x)) := by
  rcases h with ⟨_, hheld⟩ | ⟨_, _, hr⟩
  · rw [hx] at hheld
    cases hheld
  · cases hr with
    | raised => rfl
    | written hlog => cases hlog.symm.trans hmode

theorem Examined.eq_of_written {verdict : Except ContractError Bool}
    (h : f.Examined R host x verdict w') (hx : x.held = false)
    (hmode : f.modeIn x.traced = .log) : verdict = .ok false := by
  rcases h with ⟨_, hheld⟩ | ⟨_, _, hr⟩
  · rw [hx] at hheld
    cases hheld
  · cases hr with
    | raised hthrow => cases hthrow.symm.trans hmode
    | written => rfl

/-- Only the last check before the operation may fail. -/
theorem Enters.examined {checks : List (Guard × κ)} {xs : List (Finding κ ε)}
    {verdict : Except ContractError Bool} (h : f.Enters R host checks w xs verdict w')
    (hx : x ∈ xs) (hheld : x.held = false) : f.Examined R host x verdict w' := by
  induction h with
  | nil => simp at hx
  | onward _ hy _ ih =>
    rcases List.mem_cons.mp hx with rfl | hx
    · rw [hy.held_of_eq] at hheld
      cases hheld
    · exact ih hx
  | stopped _ _ hy _ =>
    obtain rfl := List.mem_singleton.mp hx
    exact hy

theorem Enters.held {checks : List (Guard × κ)} {xs : List (Finding κ ε)}
    (h : f.Enters R host checks w xs (.ok true) w') : ∀ x ∈ xs, x.held = true := by
  intro x hx
  cases hheld : x.held with
  | true => rfl
  | false =>
    rw [(h.examined hx hheld).held_of_eq] at hheld
    cases hheld

theorem Enters.result {checks : List (Guard × κ)} {xs : List (Finding κ ε)}
    {verdict : Except ContractError Bool} (h : f.Enters R host checks w xs verdict w') :
    ∀ x ∈ xs, x.result = none := by
  induction h with
  | nil => simp
  | onward hn _ _ ih => exact List.forall_mem_cons.mpr ⟨hn, ih⟩
  | stopped _ hn _ _ => simpa using hn

theorem Enters.checks_eq {checks : List (Guard × κ)} {xs : List (Finding κ ε)}
    (h : f.Enters R host checks w xs (.ok true) w') :
    xs.map (fun x => (x.guard, x.code)) = checks := by
  generalize hv : (Except.ok true : Except ContractError Bool) = verdict at h
  induction h with
  | nil => rfl
  | onward _ _ _ ih => rw [List.map_cons, ih hv]
  | stopped _ _ _ hne => exact absurd hv.symm hne

/-- The checks after the operation are about its value. -/
theorem Leaves.result {value : Value} {checks : List (Guard × κ)} {ys : List (Finding κ ε)}
    {verdict : Except ContractError Unit} (h : f.Leaves R host value checks w ys verdict w') :
    ∀ y ∈ ys, y.result = some value := by
  induction h with
  | nil => simp
  | onward hn _ _ ih => exact List.forall_mem_cons.mpr ⟨hn, ih⟩
  | stopped _ hn _ => simpa using hn

/-- All of them are made unless a violation is raised. -/
theorem Leaves.checks_eq {value : Value} {checks : List (Guard × κ)} {ys : List (Finding κ ε)}
    (h : f.Leaves R host value checks w ys (.ok ()) w') :
    ys.map (fun y => (y.guard, y.code)) = checks := by
  generalize hv : (Except.ok () : Except ContractError Unit) = verdict at h
  induction h with
  | nil => rfl
  | onward _ _ _ ih => rw [List.map_cons, ih hv]
  | stopped => cases hv

theorem Leaves.eq_of_throw {value : Value} {checks : List (Guard × κ)} {ys : List (Finding κ ε)}
    {verdict : Except ContractError Unit} (h : f.Leaves R host value checks w ys verdict w')
    (hx : x ∈ ys) (hheld : x.held = false) (hmode : f.modeIn x.traced = .throw) :
    verdict = .error (.violation (f.violation x)) := by
  induction h with
  | nil => simp at hx
  | onward _ hy _ ih =>
    rcases List.mem_cons.mp hx with rfl | hx
    · cases hy.eq_of_throw hheld hmode
    · exact ih hx
  | stopped _ _ hy =>
    obtain rfl := List.mem_singleton.mp hx
    exact congrArg (Except.map fun _ => ()) (hy.eq_of_throw hheld hmode)

/-- If all checks after the operation hold, nothing is raised. -/
theorem Leaves.eq_of_held {value : Value} {checks : List (Guard × κ)} {ys : List (Finding κ ε)}
    {verdict : Except ContractError Unit} (h : f.Leaves R host value checks w ys verdict w')
    (hheld : ∀ y ∈ ys, y.held = true) : verdict = .ok () := by
  induction h with
  | nil => rfl
  | onward _ _ _ ih => exact ih fun y hy => hheld y (by simp [hy])
  | stopped _ _ hy => cases hy.eq_of_held (hheld _ (by simp))

/-! ### The ways in which a layer ends -/

variable {a : Account κ ε} {r : Except ContractError Value} {o : Run ε}

theorem Course.of_not_run (h : f.Course R host operation w a r w') (hrun : a.run = none) :
    a.exit = [] ∧ ∃ verdict, verdict ≠ .ok true ∧
      f.Enters R host f.spec.entry w a.entry verdict w' ∧ r = verdict.map fun _ => .undefined := by
  cases h with
  | refused h => exact ⟨rfl, _, by simp, h, rfl⟩
  | refusedRaised h => exact ⟨rfl, _, by simp, h, rfl⟩
  | failed | completed => cases hrun

theorem Course.of_run (h : f.Course R host operation w a r w') (hrun : a.run = some o) :
    f.Enters R host f.spec.entry w a.entry (.ok true) o.begun := by
  cases h with
  | refused | refusedRaised => cases hrun
  | failed h _ _ | completed h _ _ _ =>
    cases hrun
    exact h

theorem Course.of_run_error {err : ContractError} (h : f.Course R host operation w a r w')
    (hrun : a.run = some o) (ho : o.result = .error err) :
    r = .error err ∧ a.exit = [] ∧ w' = o.ended := by
  cases h with
  | refused | refusedRaised => cases hrun
  | failed _ _ hr =>
    cases hrun
    cases hr.symm.trans ho
    exact ⟨rfl, rfl, rfl⟩
  | completed _ _ hr _ =>
    cases hrun
    cases hr.symm.trans ho

theorem Course.of_run_ok {value : Value} (h : f.Course R host operation w a r w')
    (hrun : a.run = some o) (ho : o.result = .ok value) :
    ∃ verdict, f.Leaves R host value f.spec.exit o.ended a.exit verdict w' ∧
      r = verdict.map fun () => value := by
  cases h with
  | refused | refusedRaised => cases hrun
  | failed _ _ hr =>
    cases hrun
    cases hr.symm.trans ho
  | completed _ _ hr hs =>
    cases hrun
    cases hr.symm.trans ho
    exact ⟨_, hs, rfl⟩

end Frame

/-! ## Layers -/

/-- What happened in one layer of a call. -/
structure Ring (κ ε : Type) where
  frame : Frame κ
  account : Account κ ε
  result : Except ContractError Value
  /-- The state that the layer left. -/
  ended : World ε

namespace Operation

/-- The layers of a call from its start to its end, the outermost first, and how the code ended, if
it was run. -/
inductive Rings (R : World ε → World ε → Prop) (host : Host κ ε) (v : Value) (i : Input) :
    Operation κ → World ε → List (Ring κ ε) → Option (Except ContractError Value) →
      Except ContractError Value → World ε → Prop where
  | core {code : κ} {w w' : World ε} {r : Except ContractError Value} {waited : Bool}
      (h : (host.operate code v i).Settles R w r waited w') :
      Rings R host v i (.plain code) w [] (some r) r w'
  /-- The operation inside was not called. -/
  | stopped {site : CallSite} {spec : Spec κ} {inner : Operation κ} {a : Account κ ε}
      {w w' : World ε} {r : Except ContractError Value}
      (h : (frame site spec v i w.heap).Course R host (inner.call host v i) w a r w')
      (hrun : a.run = none) :
      Rings R host v i (.checked site spec inner) w
        [⟨frame site spec v i w.heap, a, r, (frame site spec v i w.heap).closing a r w'⟩] none r
        ((frame site spec v i w.heap).closing a r w')
  | through {site : CallSite} {spec : Spec κ} {inner : Operation κ} {a : Account κ ε} {o : Run ε}
      {w w' : World ε} {r : Except ContractError Value} {rings : List (Ring κ ε)}
      {ran : Option (Except ContractError Value)}
      (h : (frame site spec v i w.heap).Course R host (inner.call host v i) w a r w')
      (hrun : a.run = some o) (hinner : Rings R host v i inner o.begun rings ran o.result o.ended) :
      Rings R host v i (.checked site spec inner) w
        (⟨frame site spec v i w.heap, a, r, (frame site spec v i w.heap).closing a r w'⟩ :: rings)
        ran r ((frame site spec v i w.heap).closing a r w')

variable {R : World ε → World ε → Prop} {host : Host κ ε} {v : Value} {i : Input}
  {op : Operation κ} {w w' : World ε} {r : Except ContractError Value} {rings : List (Ring κ ε)}
  {ran : Option (Except ContractError Value)}

/-- Every call that comes to its end has its layers. -/
theorem exists_rings (hR : ∀ w, R w w) (op : Operation κ) {waited : Bool}
    (h : (op.call host v i).Settles R w r waited w') :
    ∃ rings ran, op.Rings R host v i w rings ran r w' := by
  induction op generalizing w w' r waited with
  | plain code => exact ⟨_, _, .core h⟩
  | checked site spec inner ih =>
    obtain ⟨a, w₁, hcourse, rfl⟩ :=
      Frame.exists_course_of_settles hR (settles_call_checked h)
    cases hrun : a.run with
    | none => exact ⟨_, _, .stopped hcourse hrun⟩
    | some o =>
      obtain ⟨rings, ran, hinner⟩ := ih (hcourse.settles hrun)
      exact ⟨_, _, .through hcourse hrun hinner⟩

end Operation

/-! ### One after the other -/

/-- The checks of a layer before and after the operation inside. -/
def Ring.entryDeeds (x : Ring κ ε) : List (Deed κ) := x.account.entry.map x.frame.deed

def Ring.exitDeeds (x : Ring κ ε) : List (Deed κ) := x.account.exit.map x.frame.deed

/-- The layers from the outermost to the innermost, the code, and the layers the other way round. -/
def deedsOf (code : κ) (v : Value) (i : Input) (rings : List (Ring κ ε))
    (ran : Option (Except ContractError Value)) : List (Deed κ) :=
  rings.flatMap Ring.entryDeeds ++ (ran.map (Deed.body code v i)).toList ++
    rings.reverse.flatMap Ring.exitDeeds

theorem deedsOf_nil (code : κ) (v : Value) (i : Input) :
    deedsOf code v i ([] : List (Ring κ ε)) none = [] := rfl

theorem deedsOf_cons (code : κ) (v : Value) (i : Input) (x : Ring κ ε) (rings : List (Ring κ ε))
    (ran : Option (Except ContractError Value)) : deedsOf code v i (x :: rings) ran =
      x.entryDeeds ++ deedsOf code v i rings ran ++ x.exitDeeds := by
  simp [deedsOf]

namespace Operation

variable {R : World ε → World ε → Prop} {host : Host κ ε} {v : Value} {i : Input}
  {op : Operation κ} {w w' : World ε} {r : Except ContractError Value} {rings : List (Ring κ ε)}
  {ran : Option (Except ContractError Value)}

/-- What is done in a call is what its layers do, those inside between the two halves of those
around them. -/
theorem Rings.does (h : op.Rings R host v i w rings ran r w') :
    op.Does R host v i w (deedsOf op.code v i rings ran) r w' := by
  induction h with
  | core h => exact .plain h
  | @stopped site spec inner a w w' r h hrun =>
    have hdoes := Does.stopped h hrun
    rw [Account.findings, List.map_append] at hdoes
    rw [deedsOf_cons, deedsOf_nil, List.append_nil]
    exact hdoes
  | through h hrun _ ih =>
    rw [deedsOf_cons]
    exact .through h hrun ih

end Operation

/-- Who is started by a deed. -/
def Deed.callee : Deed κ → Callee κ
  | .check callee _ => callee
  | .body _ v i _ => .operation v i

/-- The predicates of a contract before the operation. -/
def Spec.before (s : Spec κ) (v : Value) (i : Input) : List (Callee κ) :=
  (s.invariant.map (Callee.holds · v)).toList ++
    (s.precondition.map (Callee.accepts · i.values)).toList

/-- The predicates of a contract after the operation. -/
def Spec.after (s : Spec κ) (v : Value) (i : Input) (value : Value) : List (Callee κ) :=
  (s.postcondition.map (Callee.accepts · (value :: i.values))).toList ++
    (s.invariant.map (Callee.holds · v)).toList

/-- The callbacks of a call in which all goes well. -/
def Operation.onion (op : Operation κ) (v : Value) (i : Input) (value : Value) :
    List (Callee κ) :=
  op.layers.flatMap (fun l => l.2.before v i) ++ [.operation v i] ++
    op.layers.reverse.flatMap (fun l => l.2.after v i value)

theorem Operation.onion_checked (site : CallSite) (spec : Spec κ) (inner : Operation κ) (v : Value)
    (i : Input) (value : Value) : (Operation.checked site spec inner).onion v i value =
      spec.before v i ++ inner.onion v i value ++ spec.after v i value := by
  simp [onion, layers]

namespace Frame

variable {R : World ε → World ε → Prop} {host : Host κ ε} {f : Frame κ} {w w' : World ε}

theorem map_checkCallee_entry (f : Frame κ) :
    f.spec.entry.map (f.checkCallee none) = f.spec.before f.receiver f.input := by
  rw [Spec.entry, Spec.before]
  cases f.spec.invariant <;> cases f.spec.precondition <;> rfl

theorem map_checkCallee_exit (f : Frame κ) (value : Value) :
    f.spec.exit.map (f.checkCallee (some value)) = f.spec.after f.receiver f.input value := by
  rw [Spec.exit, Spec.after]
  cases f.spec.invariant <;> cases f.spec.postcondition <;> rfl

theorem callees_eq {xs : List (Finding κ ε)} {result : Option Value}
    (h : ∀ x ∈ xs, x.result = result) : (xs.map f.deed).map Deed.callee =
      (xs.map fun x => (x.guard, x.code)).map (f.checkCallee result) := by
  rw [List.map_map, List.map_map]
  refine List.map_congr_left fun x hx => ?_
  rw [← h x hx]
  rfl

end Frame

/-! ## How layers go with each other -/

/-- The layer passes an error of the operation inside on: its own checks before the operation held,
it makes none after it, and all that it adds to the state is its evaluation. -/
structure Ring.Silent (x : Ring κ ε) (err : ContractError) : Prop where
  result : x.result = .error err
  exit : x.account.exit = []
  held : ∀ y ∈ x.account.findings, y.held = true
  ended : ∃ o, x.account.run = some o ∧
    x.ended = x.frame.closing x.account (.error err) o.ended

namespace Operation

structure Nested (op : Operation κ) (v : Value) (i : Input) (rings : List (Ring κ ε))
    (ran : Option (Except ContractError Value)) (r : Except ContractError Value) : Prop where
  /-- The layers are entered from the outermost on. -/
  frames : rings.map (fun x => (x.frame.site, x.frame.spec)) <+: op.layers
  /-- The code is run inside of all of them. -/
  reached : ran.isSome → rings.length = op.layers.length
  /-- All goes well: the callbacks are started in order, and the result is that of the code. -/
  well : (∀ x ∈ rings, ∀ y ∈ x.account.findings, y.held = true) → ∀ value,
    ran = some (.ok value) →
      r = .ok value ∧ (deedsOf op.code v i rings ran).map Deed.callee = op.onion v i value
  /-- A check before the operation fails in log mode: its layer gives `undefined`, nothing inside of
  it is called, and what is checked further out is `undefined`; all of the checks there are made
  unless one of them raises its violation. -/
  refused : ∀ outer x inner, rings = outer ++ x :: inner → ∀ y ∈ x.account.entry,
    y.held = false → x.frame.modeIn y.traced = .log →
      x.result = .ok .undefined ∧ inner = [] ∧ ran = none ∧
      (∀ z ∈ outer, ∀ y ∈ z.account.exit, y.result = some .undefined) ∧
      ∀ value, r = .ok value → value = .undefined ∧
        ∀ z ∈ outer, z.account.exit.map (fun y => (y.guard, y.code)) = z.frame.spec.exit
  /-- A check that fails in throw mode raises its violation. -/
  raised : ∀ x ∈ rings, ∀ y ∈ x.account.findings, y.held = false →
    x.frame.modeIn y.traced = .throw → x.result = .error (.violation (x.frame.violation y))
  /-- An error of the code is passed on by all layers. -/
  failed : ∀ err, ran = some (.error err) → r = .error err ∧ ∀ x ∈ rings, x.Silent err
  /-- An error of a layer is passed on by all layers around it. -/
  passed : ∀ outer x inner err, rings = outer ++ x :: inner → x.result = .error err →
    r = .error err ∧ ∀ z ∈ outer, z.Silent err

variable {R : World ε → World ε → Prop} {host : Host κ ε} {v : Value} {i : Input}
  {op : Operation κ} {w w' : World ε} {r : Except ContractError Value} {rings : List (Ring κ ε)}
  {ran : Option (Except ContractError Value)}

theorem nested_core (code : κ) (r : Except ContractError Value) :
    (Operation.plain code).Nested v i ([] : List (Ring κ ε)) (some r) r where
  frames := List.nil_prefix
  reached _ := rfl
  well := by
    rintro _ value ⟨⟩
    exact ⟨rfl, rfl⟩
  refused := by
    rintro outer x inner h
    simp at h
  raised := by simp
  failed := by
    rintro err ⟨⟩
    exact ⟨rfl, by simp⟩
  passed := by
    rintro outer x inner err h
    simp at h

theorem nested_stopped {site : CallSite} {spec : Spec κ} {inner : Operation κ} {a : Account κ ε}
    (h : (frame site spec v i w.heap).Course R host (inner.call host v i) w a r w')
    (hrun : a.run = none) : (Operation.checked site spec inner).Nested v i
      [⟨frame site spec v i w.heap, a, r, (frame site spec v i w.heap).closing a r w'⟩] none r := by
  obtain ⟨hexit, verdict, hne, henter, rfl⟩ := h.of_not_run hrun
  exact {
    frames := by simp [layers, frame]
    reached := by simp
    well := by simp
    refused := by
      rintro outer x rest heq y hy hheld hmode
      rcases List.cons_eq_append_iff.mp heq with ⟨rfl, heq⟩ | ⟨outer', rfl, heq⟩
      · cases heq
        have hverdict := (henter.examined hy hheld).eq_of_written hheld hmode
        rw [hverdict]
        refine ⟨rfl, rfl, rfl, by simp, ?_⟩
        rintro value ⟨⟩
        exact ⟨rfl, by simp⟩
      · simp at heq
    raised := by
      rintro x hx y hy hheld hmode
      obtain rfl := List.mem_singleton.mp hx
      rw [Account.findings, hexit, List.append_nil] at hy
      rw [(henter.examined hy hheld).eq_of_throw hheld hmode]
      rfl
    failed := by simp
    passed := by
      rintro outer x rest err heq hx
      rcases List.cons_eq_append_iff.mp heq with ⟨rfl, heq⟩ | ⟨outer', rfl, heq⟩
      · cases heq
        exact ⟨hx, by simp⟩
      · simp at heq }

/-- A layer around an operation that has ended with an error. -/
theorem silent_of_error {f : Frame κ} {operation : Action (World ε) (Completion ε)}
    {a : Account κ ε} {o : Run ε} {err : ContractError}
    (h : f.Course R host operation w a r w') (hrun : a.run = some o)
    (ho : o.result = .error err) :
    r = .error err ∧ Ring.Silent ⟨f, a, r, f.closing a r w'⟩ err := by
  obtain ⟨rfl, hexit, rfl⟩ := h.of_run_error hrun ho
  refine ⟨rfl, rfl, hexit, ?_, o, hrun, rfl⟩
  rw [Account.findings, hexit, List.append_nil]
  exact (h.of_run hrun).held

theorem nested_through {site : CallSite} {spec : Spec κ} {inner : Operation κ} {a : Account κ ε}
    {o : Run ε} (h : (frame site spec v i w.heap).Course R host (inner.call host v i) w a r w')
    (hrun : a.run = some o) (hinner : inner.Nested v i rings ran o.result) :
    (Operation.checked site spec inner).Nested v i
      (⟨frame site spec v i w.heap, a, r, (frame site spec v i w.heap).closing a r w'⟩ :: rings)
      ran r := by
  have henter := h.of_run hrun
  exact {
    frames := by
      rw [List.map_cons]
      exact List.prefix_cons_inj _ |>.mpr hinner.frames
    reached hran := congrArg (· + 1) (hinner.reached hran)
    well := by
      rintro hheld value rfl
      obtain ⟨hvalue, hcallees⟩ := hinner.well (fun x hx => hheld x (by simp [hx])) value rfl
      obtain ⟨verdict, hleave, rfl⟩ := h.of_run_ok hrun hvalue
      have hexit := fun y hy => hheld _ List.mem_cons_self y (List.mem_append_right _ hy)
      obtain rfl := hleave.eq_of_held hexit
      refine ⟨rfl, ?_⟩
      rw [deedsOf_cons, List.map_append, List.map_append, onion_checked]
      congr 1
      · congr 1
        · rw [Ring.entryDeeds, Frame.callees_eq henter.result, henter.checks_eq]
          exact Frame.map_checkCallee_entry _
      · rw [Ring.exitDeeds, Frame.callees_eq hleave.result, hleave.checks_eq]
        exact Frame.map_checkCallee_exit _ value
    refused := by
      rintro outer x rest heq y hy hheld hmode
      rcases List.cons_eq_append_iff.mp heq with ⟨rfl, heq⟩ | ⟨outer', rfl, rfl⟩
      · cases heq
        rw [henter.held y hy] at hheld
        cases hheld
      · obtain ⟨hx, rfl, rfl, houter, hvalue⟩ :=
          hinner.refused outer' x rest rfl y hy hheld hmode
        refine ⟨hx, rfl, rfl, ?_⟩
        cases ho : o.result with
        | error err =>
          obtain ⟨rfl, hexit, _⟩ := h.of_run_error hrun ho
          exact ⟨List.forall_mem_cons.mpr ⟨by simp [hexit], houter⟩, nofun⟩
        | ok value =>
          obtain ⟨rfl, hchecks⟩ := hvalue value ho
          obtain ⟨verdict, hleave, rfl⟩ := h.of_run_ok hrun ho
          refine ⟨List.forall_mem_cons.mpr ⟨hleave.result, houter⟩, ?_⟩
          rintro value hverdict
          cases verdict with
          | error err => cases hverdict
          | ok _ =>
            cases hverdict
            exact ⟨rfl, List.forall_mem_cons.mpr ⟨hleave.checks_eq, hchecks⟩⟩
    raised := by
      refine List.forall_mem_cons.mpr ⟨?_, hinner.raised⟩
      rintro y hy hheld hmode
      rcases List.mem_append.mp hy with hy | hy
      · rw [henter.held y hy] at hheld
        cases hheld
      · cases ho : o.result with
        | error err =>
          obtain ⟨_, hexit, _⟩ := h.of_run_error hrun ho
          rw [hexit] at hy
          simp at hy
        | ok value =>
          obtain ⟨verdict, hleave, rfl⟩ := h.of_run_ok hrun ho
          rw [hleave.eq_of_throw hy hheld hmode]
          rfl
    failed := by
      rintro err rfl
      obtain ⟨herr, hsilent⟩ := hinner.failed err rfl
      obtain ⟨hr, hring⟩ := silent_of_error h hrun herr
      exact ⟨hr, List.forall_mem_cons.mpr ⟨hring, hsilent⟩⟩
    passed := by
      rintro outer x rest err heq hx
      rcases List.cons_eq_append_iff.mp heq with ⟨rfl, heq⟩ | ⟨outer', rfl, rfl⟩
      · cases heq
        exact ⟨hx, by simp⟩
      · obtain ⟨herr, hsilent⟩ := hinner.passed outer' x rest err rfl hx
        obtain ⟨hr, hring⟩ := silent_of_error h hrun herr
        exact ⟨hr, List.forall_mem_cons.mpr ⟨hring, hsilent⟩⟩ }

/-- The layers of every call that comes to its end go with each other. -/
theorem Rings.nested (h : op.Rings R host v i w rings ran r w') : op.Nested v i rings ran r := by
  induction h with
  | core => exact nested_core _ _
  | stopped h hrun => exact nested_stopped h hrun
  | through h hrun _ ih => exact nested_through h hrun ih

end Operation

end Contracts
