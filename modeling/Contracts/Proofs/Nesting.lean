import Contracts.Proofs.Padding
import Contracts.Proofs.Rings

/-!
# Contracts.Proofs.Nesting

Contracts around contracts.

* `exists_well`   — a call whose predicates come to true and whose code comes to a value goes well
  in all of its layers.
* `Operation.solid` — an operation without its empty contracts.
* `exec_driven_empty` — an empty contract adds its evaluation to the journal and nothing else.
* `layers_nest`   — the layers of any call, and what empty ones among them change.
-/

namespace Contracts

variable {κ ε : Type}

/-! ## Calls that go well -/

namespace Frame

variable {host : Host κ ε} {f : Frame κ} {code : Option κ}

/-- At a checkpoint whose predicate comes to true the call goes on. -/
theorem exists_atGuard (f : Frame κ) (g : Guard) (result : Option Value)
    (h : ∀ c ∈ code, (f.test host result c g).Comes (· = true)) (w : World ε) :
    ∃ x w', f.AtGuard Eq host g result code w x (.ok true) w' ∧ ∀ y ∈ x, y.held = true := by
  cases code with
  | none => exact ⟨none, w, .absent w, by simp⟩
  | some c =>
    obtain ⟨x, hg, hcode, hn, rfl, hheld, hx⟩ := exists_examined g result (h c rfl) w
    subst hcode
    exact ⟨some x, x.traced, .made hg hn hx, by simpa using hheld⟩

theorem exists_enters_ok
    (hinv : ∀ c ∈ f.spec.invariant, (host.holds c f.receiver).Comes (· = true))
    (hpre : ∀ c ∈ f.spec.precondition, (host.accepts c f.input.values).Comes (· = true))
    (w : World ε) : ∃ xs w', f.Enters Eq host f.spec.entry w xs (.ok true) w' := by
  obtain ⟨x, w₁, hx, _⟩ := f.exists_atGuard .invariantBefore none hinv w
  obtain ⟨x', w₂, hx', _⟩ := f.exists_atGuard .precondition none hpre w₁
  exact ⟨_, w₂, enters_entry.mpr ⟨x, _, w₁, hx, .inl ⟨rfl, x', rfl, hx'⟩⟩⟩

theorem exists_leaves_ok {value : Value}
    (hpost : ∀ c ∈ f.spec.postcondition,
      (host.accepts c (value :: f.input.values)).Comes (· = true))
    (hinv : ∀ c ∈ f.spec.invariant, (host.holds c f.receiver).Comes (· = true)) (w : World ε) :
    ∃ ys w', f.Leaves Eq host value f.spec.exit w ys (.ok ()) w' ∧ ∀ y ∈ ys, y.held = true := by
  obtain ⟨y, w₁, hy, hheld⟩ := f.exists_atGuard .postcondition (some value) hpost w
  obtain ⟨y', w₂, hy', hheld'⟩ := f.exists_atGuard .invariantAfter (some value) hinv w₁
  refine ⟨y.toList ++ y'.toList, w₂,
    leaves_exit.mpr ⟨y, _, w₁, hy, .inl ⟨true, rfl, y', _, rfl, rfl, hy'⟩⟩, ?_⟩
  intro z hz
  rcases List.mem_append.mp hz with hz | hz
  · exact hheld z (by simpa using hz)
  · exact hheld' z (by simpa using hz)

end Frame

namespace Operation

/-- The predicates of all contracts come to true, and the code comes to a value. -/
structure Favourable (host : Host κ ε) (op : Operation κ) (v : Value) (i : Input) : Prop where
  invariant : ∀ l ∈ op.layers, ∀ c ∈ l.2.invariant, (host.holds c v).Comes (· = true)
  precondition : ∀ l ∈ op.layers, ∀ c ∈ l.2.precondition,
    (host.accepts c i.values).Comes (· = true)
  postcondition : ∀ l ∈ op.layers, ∀ c ∈ l.2.postcondition, ∀ value,
    (host.accepts c (value :: i.values)).Comes (· = true)
  code : (host.operate op.code v i).Comes (·.isOk = true)

/-- Such a call gives a value, and all goes well in its layers. -/
theorem exists_well {host : Host κ ε} {op : Operation κ} {v : Value} {i : Input}
    (h : op.Favourable host v i) (w : World ε) :
    ∃ value w' rings, (op.call host v i).drive.exec w = (.ok (.ok value), w') ∧
      op.Rings Eq host v i w rings (some (.ok value)) (.ok value) w' ∧
      ∀ x ∈ rings, ∀ y ∈ x.account.findings, y.held = true := by
  induction op generalizing w with
  | plain code =>
    obtain ⟨r, w', hdrive, hr⟩ := h.code w
    cases r with
    | error err => cases hr
    | ok value =>
      obtain ⟨waited, hrun⟩ := Action.settles_eq_iff.mpr hdrive
      exact ⟨value, w', [], hdrive, .core hrun, by simp⟩
  | checked site spec inner ih =>
    have hinner : inner.Favourable host v i := {
      invariant := fun l hl => h.invariant l (List.mem_cons_of_mem _ hl)
      precondition := fun l hl => h.precondition l (List.mem_cons_of_mem _ hl)
      postcondition := fun l hl => h.postcondition l (List.mem_cons_of_mem _ hl)
      code := h.code }
    have hmem : (site, spec) ∈ (checked site spec inner).layers := List.mem_cons_self
    let f := frame site spec v i w.heap
    obtain ⟨xs, w₁, henter⟩ :=
      Frame.exists_enters_ok (f := f) (h.invariant _ hmem) (h.precondition _ hmem) w
    obtain ⟨value, w₂, rings, hdrive, hrings, hheld⟩ := ih hinner w₁
    obtain ⟨waited, hrun⟩ := Action.settles_eq_iff.mpr hdrive
    obtain ⟨ys, w₃, hleave, hys⟩ := Frame.exists_leaves_ok (f := f)
      (fun c hc => h.postcondition _ hmem c hc value) (h.invariant _ hmem) w₂
    have hcourse := Frame.Course.completed (o := ⟨.ok value, waited, w₁, w₂⟩) henter hrun rfl
      hleave
    refine ⟨value, _, _, exec_call_iff.mpr ⟨_, _, hcourse, rfl⟩, .through hcourse rfl hrings, ?_⟩
    refine List.forall_mem_cons.mpr ⟨fun y hy => ?_, hheld⟩
    rcases List.mem_append.mp hy with hy | hy
    · exact henter.held y hy
    · exact hys y hy

/-! ## Empty contracts -/

/-- The operation without its empty contracts. -/
def solid : Operation κ → Operation κ
  | .plain code => .plain code
  | .checked site spec inner =>
    if spec.isEmpty then inner.solid else .checked site spec inner.solid

/-- The evaluation of an empty contract, in which nothing is checked. -/
def Hollow (op : Operation κ) (e : Event) : Prop :=
  ∃ l ∈ op.layers, l.2.isEmpty = true ∧ ∃ className succeeded ev,
    e = .evaluated className l.1.member succeeded ev ∧ ∀ g, ev.slot g = none

theorem entry_of_isEmpty {s : Spec κ} (h : s.isEmpty = true) : s.entry = [] := by
  obtain ⟨pre, post, inv, trace, mode⟩ := s
  cases pre <;> cases post <;> cases inv <;> first | rfl | cases h

theorem exit_of_isEmpty {s : Spec κ} (h : s.isEmpty = true) : s.exit = [] := by
  obtain ⟨pre, post, inv, trace, mode⟩ := s
  cases pre <;> cases post <;> cases inv <;> first | rfl | cases h

theorem exec_driven_call_checked (host : Host κ ε) (site : CallSite) (spec : Spec κ)
    (inner : Operation κ) (v : Value) (i : Input) (w : World ε) :
    ((checked site spec inner).call host v i).driven.exec w =
      (invoke host (frame site spec v i w.heap) (inner.call host v i)).driven.exec w := by
  rw [Action.exec_driven, Action.exec_driven, exec_call_checked]

/-- An empty contract adds its evaluation to the journal and nothing else. -/
theorem exec_driven_empty {host : Host κ ε} {site : CallSite} {spec : Spec κ}
    (hs : spec.isEmpty = true) (inner : Operation κ) (v : Value) (i : Input) (w : World ε) :
    ((checked site spec inner).call host v i).driven.exec w =
      match (inner.call host v i).driven.exec w with
      | (.ok (waited, r), w') => (.ok (waited, r), { w' with
          entries := .evaluated (site.label w.heap v) site.member r.isOk {
            result := r.toOption
            suspendedAt := if waited then some .invocation else none } :: w'.entries })
      | (.error c, w') => (.error c, w') := by
  have hentry : (frame site spec v i w.heap).spec.entry = [] := entry_of_isEmpty hs
  have hexit : (frame site spec v i w.heap).spec.exit = [] := exit_of_isEmpty hs
  rw [exec_driven_call_checked, Frame.exec_driven_invoke, Frame.run_eq, Frame.stages_eq, hentry,
    Frame.enter, Future.pure_eq_done, Future.done_bind, Future.drive_bind, Future.drive_bind,
    Frame.drive_settle_driven]
  rcases (inner.call host v i).driven.exec w with ⟨c | ⟨waited, err | value⟩, w'⟩
  · rfl
  · cases waited <;> rfl
  · simp only [Frame.conclude, hexit, Frame.leave, Future.pure_eq_done, Future.done_bind]
    cases waited <;> rfl

/-- Calls with and without empty contracts come to the same when they are driven. -/
theorem drivesSame_solid {host : Host κ ε} (hb : host.Blind) {P : Event → Prop} (op : Operation κ)
    (hP : ∀ e, op.Hollow e → P e) (v : Value) (i : Input) :
    (padding P ε).DrivesSame () (op.solid.call host v i) (op.call host v i) := by
  induction op with
  | plain code =>
    refine Comparison.drivesSame_of_starts ?_
    rw [outcomeSame_padding]
    exact (hb.operate code v i).coarsen (coarser_padding P ε)
  | checked site spec inner ih =>
    have hinner : ∀ e, inner.Hollow e → P e := by
      rintro e ⟨l, hl, h⟩
      exact hP e ⟨l, List.mem_cons_of_mem _ hl, h⟩
    rw [solid]
    split
    · next hs =>
      intro k₁ hk w w' hw
      obtain ⟨k₂, hw₂, ⟨new, new', hnew, hnew', hpad⟩, hends⟩ := ih hinner k₁ hk w w' hw
      rw [exec_driven_empty hs]
      revert hw₂ hends hnew hnew'
      rcases (inner.solid.call host v i).driven.exec w with ⟨x, w₁⟩
      rcases (inner.call host v i).driven.exec w' with ⟨y, w₁'⟩
      intro hw₂ hends hnew hnew'
      cases hends with
      | error c => exact ⟨k₂, hw₂, ⟨new, new', hnew, hnew', hpad⟩, .error c⟩
      | @ok x y hxy =>
        -- one more entry, which is the evaluation of the empty contract
        have hhollow := hP _ ⟨(site, spec), List.mem_cons_self, hs, site.label w'.heap v, y.2.isOk,
          { result := y.2.toOption, suspendedAt := if y.1 then some .invocation else none }, rfl,
          fun g => by cases g <;> rfl⟩
        exact ⟨k₂, hw₂, ⟨new, _ :: new', hnew, congrArg (_ :: ·) hnew', .more hhollow hpad⟩,
          .ok hxy⟩
    · intro k₁ hk w w' hw
      rw [exec_driven_call_checked, exec_driven_call_checked, World.heap_of_state hw]
      exact Comparison.drivesSame_invoke ((hb.paddedChecks P spec v i).sameFrame
        (.refl (fun _ => rfl) i) site _) (ih hinner) k₁ hk w w' hw

end Operation

/-- Contracts around contracts, in any number. However others act while the call waits, it goes layer
by layer as `Operation.Nested` says: in order if all goes well; with `undefined` from a layer that
refuses the call in log mode, to be checked by those further out; and with errors that all layers
around pass on unchanged, with no check and no report of their own. If all predicates come to true
and the code comes to a value, the call that is driven gives this value, and the callbacks are
started from the outside to the code and back. Empty contracts, wherever they are, change neither
the outcome nor whether it has to be waited for, nor the state; all that they add to the journal
are their own evaluations. -/
theorem layers_nest (host : Host κ ε) (op : Operation κ) (v : Value) (i : Input) :
    (∀ (R : World ε → World ε → Prop) w r waited w', (∀ w, R w w) →
      (op.call host v i).Settles R w r waited w' →
        ∃ rings ran, op.Rings R host v i w rings ran r w' ∧
          op.Does R host v i w (deedsOf op.code v i rings ran) r w' ∧
          op.Nested v i rings ran r) ∧
    (op.Favourable host v i → ∀ w, ∃ value w' ds,
      (op.call host v i).drive.exec w = (.ok (.ok value), w') ∧
      op.Does Eq host v i w ds (.ok value) w' ∧ ds.map Deed.callee = op.onion v i value) ∧
    (host.Blind → ∀ w, ∃ x w₁ w₁' new new',
      (op.solid.call host v i).driven.exec w = (x, w₁) ∧
      (op.call host v i).driven.exec w = (x, w₁') ∧ w₁.state = w₁'.state ∧
      w₁.entries = new ++ w.entries ∧ w₁'.entries = new' ++ w.entries ∧
      Padded op.Hollow new new') := by
  refine ⟨fun R w r waited w' hR h => ?_, fun h w => ?_, fun hb w => ?_⟩
  · obtain ⟨rings, ran, hrings⟩ := Operation.exists_rings hR op h
    exact ⟨rings, ran, hrings, hrings.does, hrings.nested⟩
  · obtain ⟨value, w', rings, hdrive, hrings, hheld⟩ := Operation.exists_well h w
    obtain ⟨_, hcallees⟩ := hrings.nested.well hheld value rfl
    exact ⟨value, w', _, hdrive, hrings.does, hcallees⟩
  · obtain ⟨_, hstate, ⟨new, new', hnew, hnew', hpad⟩, hends⟩ :=
      Operation.drivesSame_solid hb op (fun _ he => he) v i () le_rfl w w rfl
    have hsame := (hends.imp fun _ _ h => Prod.ext h.1 h.2.eq).eq
    exact ⟨((op.solid.call host v i).driven.exec w).1, ((op.solid.call host v i).driven.exec w).2,
      ((op.call host v i).driven.exec w).2, new, new', rfl, Prod.ext hsame.symm rfl, hstate, hnew,
      hnew', hpad⟩

namespace Parcel

/-- Predicates and code that are what their code says. -/
def host : Host Bool Unit where
  accepts code _ := pure (.ready code)
  holds code _ := pure (.pending (.waits 1 (.done code)))
  operate code _ _ := pure (.ready (if code then .ok .null else .error (.operation "lost")))
  read _ _ := pure .undefined
  setUp _ _ _ := pure (.ok ())
  deliver _ _ := pure ()

theorem blind : host.Blind where
  accepts _ _ := Simulation.acts_pure fun _ _ => .ready rfl
  holds _ _ := Simulation.acts_pure fun _ _ =>
    .pending (Simulation.runs_waits 1 (Simulation.runs_done fun _ _ => rfl))
  operate _ _ _ := Simulation.acts_pure fun _ _ => .ready rfl
  read _ _ := Action.blind_pure _
  setUp _ _ _ := Action.blind_pure _
  deliver _ _ := Action.blind_pure _

def site (member : String) : CallSite := ⟨some "Parcel", member⟩

def world : World Unit := { mode := .holding .throw, own := () }

/-- A parcel in three wrappers, of which the one in the middle is empty. -/
def parcel (precondition : Bool) : Operation Bool :=
  .checked (site "outer") { invariant := some true, postcondition := some true }
    (.checked (site "middle") {}
      (.checked (site "inner") { precondition := some precondition, mode := some .log }
        (.plain true)))

theorem favourable : (parcel true).Favourable host .undefined (.args []) where
  invariant l hl c hc w := by
    obtain rfl : c = true := by
      simp only [parcel, Operation.layers, List.mem_cons, List.not_mem_nil, or_false] at hl
      rcases hl with rfl | rfl | rfl <;> simpa using hc.symm
    exact ⟨true, w, rfl, rfl⟩
  precondition l hl c hc w := by
    obtain rfl : c = true := by
      simp only [parcel, Operation.layers, List.mem_cons, List.not_mem_nil, or_false] at hl
      rcases hl with rfl | rfl | rfl <;> simpa using hc.symm
    exact ⟨true, w, rfl, rfl⟩
  postcondition l hl c hc value w := by
    obtain rfl : c = true := by
      simp only [parcel, Operation.layers, List.mem_cons, List.not_mem_nil, or_false] at hl
      rcases hl with rfl | rfl | rfl <;> simpa using hc.symm
    exact ⟨true, w, rfl, rfl⟩
  code w := ⟨_, w, rfl, rfl⟩

/-- The inner wrapper refuses the call, and the outer one checks `undefined`. -/
theorem refused_inside :
    (∃ value w' ds, ((parcel true).call host .undefined (.args [])).drive.exec world =
        (.ok (.ok value), w') ∧
      (parcel true).Does Eq host .undefined (.args []) world ds (.ok value) w' ∧
      ds.map Deed.callee = [.holds true .undefined, .accepts true [],
        .operation .undefined (.args []), .accepts true [value], .holds true .undefined]) ∧
    (((parcel false).call host .undefined (.args [])).drive.exec world).1 =
      .ok (.ok .undefined) ∧
    (∃ rings ran w', (parcel false).Rings Eq host .undefined (.args []) world rings ran
        (.ok .undefined) w' ∧
      (parcel false).Nested .undefined (.args []) rings ran (.ok .undefined)) ∧
    ∃ w₁ w₁' new new', ((parcel false).solid.call host .undefined (.args [])).driven.exec world =
        (.ok (true, .ok .undefined), w₁) ∧
      ((parcel false).call host .undefined (.args [])).driven.exec world =
        (.ok (true, .ok .undefined), w₁') ∧
      w₁.entries = new ∧ w₁'.entries = new' ∧ Padded (parcel false).Hollow new new' := by
  obtain ⟨_, hwell, _⟩ := layers_nest host (parcel true) .undefined (.args [])
  obtain ⟨hnested, _, hempty⟩ := layers_nest host (parcel false) .undefined (.args [])
  obtain ⟨w', hdrive⟩ : ∃ w', ((parcel false).call host .undefined (.args [])).drive.exec world =
      (.ok (.ok .undefined), w') := ⟨_, rfl⟩
  obtain ⟨waited, hsettles⟩ := Action.settles_eq_iff.mpr hdrive
  obtain ⟨rings, ran, hrings, _, hn⟩ := hnested Eq world _ waited w' (fun _ => rfl) hsettles
  obtain ⟨x, w₁, w₁', new, new', hsolid, hcall, _, hnew, hnew', hpad⟩ := hempty blind world
  obtain rfl : x = .ok (true, .ok .undefined) := (congrArg Prod.fst hsolid).symm.trans rfl
  refine ⟨?_, rfl, ⟨rings, ran, w', hrings, hn⟩,
    w₁, w₁', new, new', hsolid, hcall, hnew.trans (List.append_nil _),
    hnew'.trans (List.append_nil _), hpad⟩
  obtain ⟨value, w'', ds, hdrive', hdoes, hcallees⟩ := hwell favourable world
  exact ⟨value, w'', ds, hdrive', hdoes, hcallees⟩

end Parcel

end Contracts
