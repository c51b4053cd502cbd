import Contracts.Demo.Scenario
import Contracts.Proofs.Blindness

/-!
# Contracts.Proofs.Demonstrations

Two runs of one demonstration, of which the second one writes more lines.

* `Interlined`   — the same lines in the same order, with more of some kind in between.
* `interlining`  — two runs with the same records and the same failure mode, whose lines are
  interlined.
* `TracedAlike`  — settings that two such runs may trace to: the second one writes no more than
  lines of that kind.
* `Steady`       — a routine that sees neither the journal nor the lines.
* `starts_checked`, `alike_present` — calls of steady routines under contracts that trace to such
  settings agree, and so do the lines about what came of them.
* `alike_scenario` — and so does every built-in demonstration.
-/

namespace Contracts.Demo

/-! ## Lines -/

/-- The same lines in the same order, with more of some kind in between. -/
inductive Interlined (P : String → Prop) : List String → List String → Prop where
  | nil : Interlined P [] []
  | same (line : String) {l l' : List String} (h : Interlined P l l') :
      Interlined P (line :: l) (line :: l')
  | more {line : String} {l l' : List String} (hline : P line) (h : Interlined P l l') :
      Interlined P l (line :: l')

namespace Interlined

variable {P : String → Prop} {l l' m m' : List String}

theorem append (h : Interlined P l l') (hm : Interlined P m m') :
    Interlined P (l ++ m) (l' ++ m') := by
  induction h with
  | nil => exact hm
  | same line _ ih => exact .same line ih
  | more hline _ ih => exact .more hline ih

theorem eq (h : Interlined (fun _ => False) l l') : l = l' := by
  induction h with
  | nil => rfl
  | same line _ ih => rw [ih]
  | more hline _ _ => exact hline.elim

end Interlined

/-! ## Two runs -/

/-- States that show the same, but for lines of the second one. -/
structure Alongside (P : String → Prop) (w w' : State) : Prop where
  heap : w.heap = w'.heap
  mode : w.mode.current = w'.mode.current
  lines : Interlined P w.own.lines w'.own.lines

def interlining (P : String → Prop) : Comparison Unit Output Output where
  toSimulation := .ofAgreement (Alongside P)
  value _ := Eq
  value_mono _ h := h
  undefined _ := rfl
  render := by
    rintro _ w w' v _ hw rfl
    rw [hw.heap]
  toJson := by
    rintro _ w w' v _ hw rfl
    rw [hw.heap]
  label := by
    rintro _ w w' v _ site hw rfl
    rw [hw.heap]
  log hw _ := ⟨⟨hw.heap, hw.mode, hw.lines⟩, trivial⟩
  readMode {_ w w'} hw := by
    have hmode : w.mode.read.2.current = w'.mode.read.2.current := by
      rw [ModeCell.current_read, ModeCell.current_read, hw.mode]
    exact ⟨hw.mode, ⟨hw.heap, hmode, hw.lines⟩, trivial⟩

/-- Both effects come to the same, and what the second one writes besides is of the kind. -/
abbrev Alike {α : Type} (P : String → Prop) (a b : Effect α) : Prop :=
  (interlining P).Acts (fun _ => Eq) () a b

variable {P : String → Prop} {α β : Type}

theorem sameRecords_interlining : (interlining P).SameRecords where
  value := Iff.rfl
  heap hw := hw.heap
  create rec := by
    intro k _ w w' hw
    simp only [World.exec_newRecord, hw.heap]
    exact ⟨k, ⟨rfl, hw.mode, hw.lines⟩, trivial, .ok rfl⟩
  change f := by
    intro k _ w w' hw
    rw [World.exec_changeHeap, World.exec_changeHeap, hw.heap]
    cases f w'.heap with
    | none => exact ⟨k, hw, trivial, .error _⟩
    | some h => exact ⟨k, ⟨rfl, hw.mode, hw.lines⟩, trivial, .ok rfl⟩

/-- What follows a look at the records is the same for the same records. -/
theorem alike_readHeap {f g : Heap → Effect α} (h : ∀ heap, Alike P (f heap) (g heap)) :
    Alike P (World.readHeap >>= f) (World.readHeap >>= g) :=
  Comparison.acts_readHeap fun _ _ w _ hw => hw.heap ▸ h w.heap

theorem alike_writeLine (line : String) : Alike P (writeLine line) (writeLine line) :=
  fun k _ _ _ hw => ⟨k, ⟨hw.heap, hw.mode, hw.lines.append (.same line .nil)⟩, trivial, .ok rfl⟩

/-! ## Traces -/

/-- The checks of the two runs are traced to these settings. The second one may write lines of the
kind where the first one writes none. -/
def TracedAlike (P : String → Prop) (t t' : TraceSetting Routine) : Prop :=
  ∀ e : TraceEvent, Alike P (t.emit host e) (t'.emit host e)

theorem tracedAlike_default : TracedAlike P .default .default :=
  fun _ => alike_readHeap fun _ => Comparison.acts_log_same _

theorem exec_emit_lineSink (e : TraceEvent) (w : State) :
    (lineSink.emit host e).exec w = (.ok (), { w with
      entries := .traced (e.text w.heap) :: w.entries
      own := ⟨w.own.lines ++ [e.text w.heap]⟩ }) :=
  rfl

theorem tracedAlike_lineSink : TracedAlike P lineSink lineSink := by
  intro e k _ w w' hw
  simp only [exec_emit_lineSink, hw.heap]
  exact ⟨k, ⟨rfl, hw.mode, hw.lines.append (.same _ .nil)⟩, trivial, .ok rfl⟩

/-- The sink writes a line where the default trace writes none. -/
theorem tracedAlike_default_lineSink (hP : ∀ (h : Heap) (e : TraceEvent), P (e.text h)) :
    TracedAlike P .default lineSink := by
  intro e k _ w w' hw
  rw [exec_emit_lineSink]
  have hlines := hw.lines.append (.more (hP w'.heap e) .nil)
  rw [List.append_nil] at hlines
  exact ⟨k, ⟨hw.heap, hw.mode, hlines⟩, trivial, .ok rfl⟩

/-! ## Routines -/

/-- The routine sees neither the journal nor the lines, whatever it is given. -/
def Steady (P : String → Prop) (r : Routine) : Prop :=
  ∀ this inputs, Alike P (r.body this inputs) (r.body this inputs)

theorem steady_ofCondition (p : List Value → Bool) (timing : Timing) :
    Steady P (.ofCondition p timing) :=
  fun _ _ => Simulation.acts_pure fun _ _ => rfl

theorem steady_ofInvariant (p : Heap → Value → Bool) (timing : Timing) :
    Steady P (.ofInvariant p timing) :=
  fun _ _ => alike_readHeap fun _ => Simulation.acts_pure fun _ _ => rfl

theorem alike_assign (field : String) (v result : Value) (complaint : String) (this : Value) :
    Alike P (assign field v result complaint this) (assign field v result complaint this) := by
  cases this with
  | scalar _ | array _ => exact Simulation.acts_pure fun _ _ => rfl
  | object r =>
    refine Simulation.acts_bind (sameRecords_interlining.change _) fun _ _ _ _ _ => ?_
    exact Simulation.acts_pure fun _ _ => rfl

theorem alike_adjust (field : String) (delta : Float) (complaint : String) (this : Value) :
    Alike P (adjust field delta complaint this) (adjust field delta complaint this) :=
  alike_readHeap fun _ => alike_assign field _ _ complaint this

theorem starts_verdict {a : Effect (Except ContractError Value)} (h : Alike P a a)
    (timing : Timing) : (interlining P).Starts (fun _ => Eq) ()
      (timing.start (verdict <$> a)) (timing.start (verdict <$> a)) := by
  refine Simulation.starts_start (fun _ _ _ _ _ heq => heq) ?_ timing
  rw [map_eq_pure_bind]
  refine Simulation.acts_bind h ?_
  rintro _ _ x _ rfl
  exact Simulation.acts_pure fun _ _ => rfl

namespace Steady

variable {r : Routine}

theorem holds (h : Steady P r) (this : Value) :
    (interlining P).Starts (fun _ => Eq) () (host.holds r this) (host.holds r this) :=
  starts_verdict (h this []) r.timing

theorem accepts (h : Steady P r) (inputs : List Value) :
    (interlining P).Starts (fun _ => Eq) () (host.accepts r inputs) (host.accepts r inputs) :=
  starts_verdict (h .undefined inputs) r.timing

theorem operate (h : Steady P r) (this : Value) (input : Input) :
    (interlining P).Starts (fun _ => Eq) () (host.operate r this input)
      (host.operate r this input) :=
  Simulation.starts_start (fun _ _ _ _ _ heq => heq) (h this input.values) r.timing

theorem read (h : Steady P r) (this : Value) : Alike P (host.read r this) (host.read r this) := by
  refine Simulation.acts_bind (h this []) ?_
  rintro _ _ x _ rfl
  cases x <;> exact Simulation.acts_pure fun _ _ => rfl

theorem setUp (h : Steady P r) (this : Value) (args : List Value) :
    Alike P (host.setUp r this args) (host.setUp r this args) := by
  refine Simulation.acts_bind (h this args) ?_
  rintro _ _ x _ rfl
  cases x <;> exact Simulation.acts_pure fun _ _ => rfl

end Steady

/-! ## Calls under contracts -/

/-- The checks of a contract are steady. -/
structure SteadyChecks (P : String → Prop) (spec : Spec Routine) : Prop where
  precondition : ∀ code, spec.precondition = some code → Steady P code
  postcondition : ∀ code, spec.postcondition = some code → Steady P code
  invariant : ∀ code, spec.invariant = some code → Steady P code

theorem sameFrame {spec spec' : Spec Routine} (h : spec.Retraced (TracedAlike P) spec')
    (hs : SteadyChecks P spec) (site : CallSite) (v : Value) (i : Input) (className : String) :
    (interlining P).SameFrame () host host ⟨site, spec, v, i, className⟩
      ⟨site, spec', v, i, className⟩ where
  site := rfl
  className := rfl
  mode := h.mode
  invariant := h.invariant
  precondition := h.precondition
  postcondition := h.postcondition
  input := .refl (fun _ => rfl) i
  holds code hc := (hs.invariant code hc).holds v
  before code hc := (hs.precondition code hc).accepts i.values
  after code hc := by
    rintro _ _ r _ rfl
    exact (hs.postcondition code hc).accepts (r :: i.values)
  emit := by
    rintro _ _ r r' hr g held
    obtain rfl : r = r' := by
      cases hr with
      | none => rfl
      | some heq => exact congrArg some heq
    exact h.trace _

/-- Calls of one routine under contracts that differ in where they trace to agree. -/
theorem starts_checked {spec spec' : Spec Routine} (h : spec.Retraced (TracedAlike P) spec')
    (hs : SteadyChecks P spec) {code : Routine} (hcode : Steady P code) (site : CallSite)
    (v : Value) (i : Input) :
    (interlining P).Starts (fun _ => Eq) ()
      ((Operation.checked site spec (.plain code)).call host v i)
      ((Operation.checked site spec' (.plain code)).call host v i) := by
  refine Comparison.acts_readHeap fun _ _ w w' hw => ?_
  have hop := hcode.operate v i
  rw [← sameRecords_interlining.outcomeSame_eq] at hop ⊢
  rw [Operation.frame, Operation.frame, hw.heap]
  exact Comparison.starts_invoke (sameFrame h hs site v i _) hop

/-! ## Constructions -/

section

variable {this : Value} {args : List Value}

theorem alike_check {c c' : ClassContract Routine} (h : c.Retraced (TracedAlike P) c')
    (hc : Steady P c.invariant) (className : String) :
    Alike P (c.check host className this args) (c'.check host className this args) := by
  unfold ClassContract.check
  rw [← h.invariant, ← h.mode]
  refine Simulation.acts_bind (hc.holds this) fun _ _ x y hxy => ?_
  cases hxy with
  | pending => exact Simulation.acts_pure fun _ _ => rfl
  | @ready held _ heq =>
    obtain rfl := heq
    refine Simulation.acts_bind (h.trace _) fun _ _ _ _ _ => ?_
    cases held with
    | true => exact Simulation.acts_pure fun _ _ => rfl
    | false => exact Comparison.acts_report _ _

/-- Layers set a new object up alike if each of them does. -/
theorem alike_setUpLayers {ls ls' : List (Layer Routine)}
    (h : List.Forall₂
      (fun l l' => Alike P (l.setUp host this args) (l'.setUp host this args)) ls ls') :
    Alike P (setUpLayers host this args ls) (setUpLayers host this args ls') := by
  induction h with
  | nil => exact Simulation.acts_pure fun _ _ => rfl
  | cons hl _ ih =>
    refine Simulation.acts_bind hl ?_
    rintro _ _ r _ rfl
    cases r with
    | ok _ => exact ih
    | error e => exact Simulation.acts_pure fun _ _ => rfl

/-- Constructions of such classes give the same object, each of its own class. -/
theorem acts_construct {c c' : Class Routine} (hname : c.name = c'.name)
    (h : ∀ this, List.Forall₂
      (fun l l' => Alike P (l.setUp host this args) (l'.setUp host this args)) c.layers c'.layers) :
    (interlining P).Acts
      (fun _ => Ends fun i i' => ∃ this, i = ⟨c, this⟩ ∧ i' = ⟨c', this⟩) ()
      (c.construct host args) (c'.construct host args) := by
  unfold Class.construct
  rw [hname]
  refine Simulation.acts_bind (sameRecords_interlining.create _) ?_
  rintro _ _ r _ rfl
  refine Simulation.acts_bind (alike_setUpLayers (List.rel_reverse (h (.object r)))) ?_
  rintro _ _ x _ rfl
  cases x with
  | ok _ => exact Simulation.acts_pure fun _ _ => .ok ⟨.object r, rfl, rfl⟩
  | error e => exact Simulation.acts_pure fun _ _ => .error e

end

/-! ## Demonstrations -/

theorem acts_play_bind {α' : Type} {R : α → α' → Prop} {p : Play α} {q : Play α'} {f : α → Play β}
    {g : α' → Play β} (h : (interlining P).Acts (fun _ => Ends R) () p.run q.run)
    (hf : ∀ x y, R x y → Alike P (f x).run (g y).run) : Alike P (p >>= f).run (q >>= g).run := by
  rw [ExceptT.run_bind, ExceptT.run_bind]
  refine Simulation.acts_bind h fun _ _ x y hxy => ?_
  cases hxy with
  | ok hab => exact hf _ _ hab
  | error e => exact Simulation.acts_pure fun _ _ => rfl

theorem alike_bind {p q : Play α} {f g : α → Play β} (h : Alike P p.run q.run)
    (hf : ∀ x, Alike P (f x).run (g x).run) : Alike P (p >>= f).run (q >>= g).run := by
  have hends : (interlining P).Acts (fun _ => Ends Eq) () p.run q.run :=
    h.imp fun _ x _ heq => heq ▸ .refl (fun _ => rfl) x
  refine acts_play_bind hends ?_
  rintro x _ rfl
  exact hf x

theorem alike_lift {a b : Effect α} (h : Alike P a b) :
    Alike P (liftM a : Play α).run (liftM b : Play α).run := by
  refine Simulation.acts_bind h ?_
  rintro _ _ x _ rfl
  exact Simulation.acts_pure fun _ _ => rfl

theorem alike_newObject (className : String) (fields : List (String × Value)) :
    Alike P (newObject className fields) (newObject className fields) := by
  refine Simulation.acts_bind (sameRecords_interlining.create _) ?_
  rintro _ _ r _ rfl
  exact Simulation.acts_pure fun _ _ => rfl

theorem alike_present (label : String) {start start' : Effect (Completion Output)}
    (h : (interlining P).Starts (fun _ => Eq) () start start') :
    Alike P (present label start).run (present label start').run := by
  refine Simulation.acts_bind h fun _ _ x y hxy => ?_
  have hfinish : x.isPending = y.isPending ∧ Alike P x.finish y.finish := by
    cases hxy with
    | ready heq => exact ⟨rfl, Simulation.runs_drive (Simulation.runs_done fun _ _ => heq)⟩
    | pending hruns => exact ⟨rfl, Simulation.runs_drive hruns⟩
  obtain ⟨hpending, hfinish⟩ := hfinish
  rw [hpending]
  refine Simulation.acts_bind hfinish ?_
  rintro _ _ outcome _ rfl
  refine alike_readHeap fun heap => ?_
  cases outcome with
  | ok v =>
    refine Simulation.acts_bind (alike_writeLine _) fun _ _ _ _ _ => ?_
    exact Simulation.acts_pure fun _ _ => rfl
  | error e =>
    refine Simulation.acts_bind (alike_writeLine _) fun _ _ _ _ _ => ?_
    exact Simulation.acts_pure fun _ _ => rfl

theorem alike_thenDo {p q : Play Value} {more more' : Effect Unit} (h : Alike P p.run q.run)
    (hmore : Alike P more more') : Alike P (thenDo p more).run (thenDo q more').run := by
  refine Simulation.acts_bind h ?_
  rintro _ _ outcome _ rfl
  exact Simulation.acts_bind hmore fun _ _ _ _ _ => Simulation.acts_pure fun _ _ => rfl

/-! ## The built-in demonstrations -/

section

variable {t t' : TraceSetting Routine} (ht : TracedAlike P t t')

theorem steady_decrement : Steady P decrement := fun this _ => alike_adjust _ _ _ this

theorem alike_countDown {r r' : ContractRecord Routine}
    (h : (specOf r).Retraced (TracedAlike P) (specOf r')) (hs : SteadyChecks P (specOf r)) :
    Alike P (countDown r).run (countDown r').run := by
  refine alike_bind (alike_lift (alike_newObject _ _)) fun this => ?_
  exact alike_present _ (starts_checked h hs steady_decrement _ this _)

include ht

theorem alike_counter : Alike P (counter t).run (counter t').run :=
  alike_countDown ⟨rfl, rfl, rfl, rfl, ht⟩
    { precondition := by rintro _ ⟨⟩
      postcondition := by rintro _ ⟨⟩
      invariant := by
        rintro _ ⟨⟩
        exact steady_ofInvariant _ _ }

theorem alike_deferred : Alike P (deferred t).run (deferred t').run :=
  alike_countDown ⟨rfl, rfl, rfl, rfl, ht⟩
    { precondition := by
        rintro _ ⟨⟩
        exact steady_ofCondition _ _
      postcondition := by rintro _ ⟨⟩
      invariant := by
        rintro _ ⟨⟩
        exact steady_ofInvariant _ _ }

theorem alike_person : Alike P (person t).run (person t').run := by
  let r (t : TraceSetting Routine) : ContractRecord Routine :=
    { before := some (.ofCondition isAge), trace := some t }
  have hchecks : SteadyChecks P (specOf (r t)) :=
    { precondition := by
        rintro _ ⟨⟩
        exact steady_ofCondition _ _
      postcondition := by rintro _ ⟨⟩
      invariant := by rintro _ ⟨⟩ }
  have hassign : Steady P assignAge := fun this _ => alike_assign _ _ _ _ this
  have hretraced : (specOf (r t)).Retraced (TracedAlike P) (specOf (r t')) :=
    ⟨rfl, rfl, rfl, rfl, ht⟩
  have hcall := starts_checked hretraced hchecks hassign (site "Person" "age")
  refine alike_bind (alike_lift (alike_newObject _ _)) fun this => ?_
  refine alike_bind (alike_present _ (hcall this _)) fun _ => ?_
  refine alike_thenDo (alike_present _ (hcall this _)) ?_
  exact alike_readHeap fun _ => alike_writeLine _

theorem alike_calculator : Alike P (calculator t).run (calculator t').run := by
  let r (t : TraceSetting Routine) : ContractRecord Routine :=
    { requires := some (.ofCondition fun inputs =>
        inputs.all fun v => v.toNumber?.any Float.isFinite)
      ensures := some (.ofCondition startsWithNumber)
      trace := some t }
  have hchecks : SteadyChecks P (specOf (r t)) :=
    { precondition := by
        rintro _ ⟨⟩
        exact steady_ofCondition _ _
      postcondition := by
        rintro _ ⟨⟩
        exact steady_ofCondition _ _
      invariant := by rintro _ ⟨⟩ }
  have hadd : Steady P addAll := fun _ _ => Simulation.acts_pure fun _ _ => rfl
  have hretraced : (specOf (r t)).Retraced (TracedAlike P) (specOf (r t')) :=
    ⟨rfl, rfl, rfl, rfl, ht⟩
  have hcall := starts_checked hretraced hchecks hadd (site "Calculator" "add") .undefined
  refine alike_bind (alike_present _ (hcall _)) fun _ => ?_
  exact alike_present _ (hcall _)

/-- The class of the accounts under a contract. -/
def checkedAccount (c : ClassContract Routine) : Class Routine :=
  .extend (accountClass.own.underContract c) (some accountClass)

theorem alike_account : Alike P (account t).run (account t').run := by
  let c (t : TraceSetting Routine) : ClassContract Routine :=
    { invariant := .ofInvariant (notNegative "balance"), trace := t, mode := none }
  have hretraced : (c t).Retraced (TracedAlike P) (c t') := ⟨rfl, rfl, ht⟩
  have hinvariant : Steady P (c t).invariant := steady_ofInvariant _ _
  have hchecks : SteadyChecks P (c t).spec :=
    { precondition := by rintro _ ⟨⟩
      postcondition := by rintro _ ⟨⟩
      invariant := by
        rintro _ ⟨⟩
        exact hinvariant }
  have hlayers (this : Value) : List.Forall₂
      (fun l l' => Alike P (l.setUp host this []) (l'.setUp host this []))
      (checkedAccount (c t)).layers (checkedAccount (c t')).layers :=
    .cons (alike_check hretraced hinvariant _)
      (.cons (Steady.setUp (fun this _ => alike_assign _ _ _ _ this) this []) .nil)
  have hadjust (f : List Value → Float) : Steady P ⟨.sync, fun this inputs =>
      adjust "balance" (f inputs) noReceiver this⟩ := fun this inputs => alike_adjust _ _ _ this
  have hbalance : Steady P ⟨.sync, fun this _ =>
      return .ok ((← World.readHeap).getField this "balance")⟩ :=
    fun _ _ => alike_readHeap fun _ => Simulation.acts_pure fun _ _ => rfl
  have hcall (f : List Value → Float) (member : String) (this : Value) (i : Input) :=
    starts_checked hretraced.spec hchecks (hadjust f) (memberSite "Account" (.name member)) this i
  refine acts_play_bind (R := fun x y => x = checkedAccount (c t) ∧ y = checkedAccount (c t'))
    (Simulation.acts_pure fun _ _ => .ok ⟨rfl, rfl⟩) ?_
  rintro _ _ ⟨rfl, rfl⟩
  refine acts_play_bind (acts_construct rfl hlayers) ?_
  rintro _ _ ⟨this, rfl, rfl⟩
  refine alike_bind (alike_present _ (hcall amount "deposit" this _)) fun _ => ?_
  refine alike_thenDo (alike_present _ (hcall (fun inputs => -amount inputs) "withdraw" this _)) ?_
  refine Simulation.acts_bind (hbalance.read this) ?_
  rintro _ _ balance _ rfl
  exact alike_readHeap fun _ => alike_writeLine _

/-- The demonstrations go the same way wherever their contracts trace to, but for lines of the
kind. -/
theorem alike_scenario {s : Scenario} (hs : s ∈ scenarios) :
    Alike P (s.run t).run (s.run t').run := by
  simp only [scenarios, List.mem_cons, List.not_mem_nil, or_false] at hs
  rcases hs with rfl | rfl | rfl | rfl | rfl
  · exact alike_counter ht
  · exact alike_person ht
  · exact alike_calculator ht
  · exact alike_account ht
  · exact alike_deferred ht

end

end Contracts.Demo
