import Contracts.Proofs.Construction
import Contracts.Proofs.Reports

/-!
# Contracts.Proofs.Modes

Who sets the process-wide failure mode.

* `Frame.SetsMode`, `Operation.SetsMode` — a callback or a sink of a call has set it.
* `Operation.modeAccounted` — a call, with all calls inside it, never sets it otherwise.
* `Layer.SetsMode`, `Visited.exists_setsMode` — the same for constructions.
* `exists_reported` — a false invariant in a construction is reported, and the report decides.
-/

namespace Contracts

variable {κ ε α β : Type}

/-! ## Who sets the mode -/

/-- The sink that an event is delivered to sets the process-wide failure mode. -/
def TraceSetting.SetsMode (host : Host κ ε) (e : TraceEvent) (t : TraceSetting κ) (w : World ε) :
    Prop :=
  ∃ code, t = .sink code ∧ ((host.deliver code e).exec
    { w with entries := .traced (e.text w.heap) :: w.entries }).2.mode.current ≠ w.mode.current

theorem Traced.current_eq {host : Host κ ε} {e : TraceEvent} {t : TraceSetting κ} {w w' : World ε}
    (h : Traced host e t w w') (ht : ¬ t.SetsMode host e w) :
    w'.mode.current = w.mode.current := by
  cases h with
  | off | written => rfl
  | delivered h | ignored h =>
    by_contra hne
    refine ht ⟨_, rfl, ?_⟩
    rw [h]
    exact hne

/-- A report only looks at the mode, and a first look changes nothing that is seen. -/
theorem Reported.current_eq {override : Option FailureMode} {v : Violation} {w w' : World ε}
    {verdict : Except ContractError Unit} (h : Reported override v w verdict w') :
    w'.mode.current = w.mode.current := by
  have hlook : (w.consulted override).mode.current = w.mode.current := by
    cases override with
    | none => exact ModeCell.current_read w.mode
    | some m => rfl
  cases h with
  | raised | written => exact hlook

namespace Frame

variable {R : World ε → World ε → Prop} {host : Host κ ε} {f : Frame κ}
  {operation : Action (World ε) (Completion ε)} {w w' : World ε}

/-- The failure mode was set while the predicate of a check ran or was waited for, or by the sink
that the check was traced to. -/
def SetsMode (host : Host κ ε) (f : Frame κ) (x : Finding κ ε) : Prop :=
  x.answered.mode.current ≠ x.begun.mode.current ∨
    f.spec.trace.SetsMode host (f.traceEvent x.result x.guard x.held) x.answered

theorem Examined.current_eq {x : Finding κ ε} {verdict : Except ContractError Bool}
    (h : f.Examined R host x verdict w') (hx : ¬ f.SetsMode host x) :
    w'.mode.current = x.begun.mode.current := by
  rw [SetsMode, not_or, not_not] at hx
  cases h with
  | held hm _ => rw [hm.traces.current_eq hx.2, hx.1]
  | failed hm _ hr => rw [hr.current_eq, hm.traces.current_eq hx.2, hx.1]

theorem Chain.current_eq {xs : List (Finding κ ε)} (h : f.Chain R host xs w w')
    (hxs : ∀ x ∈ xs, ¬ f.SetsMode host x) : w'.mode.current = w.mode.current := by
  induction h with
  | nil => rfl
  | cons hx _ ih =>
    obtain ⟨hfirst, hrest⟩ := List.forall_mem_cons.mp hxs
    rw [ih hrest, hx.current_eq hfirst]

/-- The process-wide failure mode at the end of a call is the one of its start, unless one of its
callbacks or sinks, or others while a callback was waited for, have set it. -/
theorem Course.current_eq {a : Account κ ε} {r : Except ContractError Value}
    (h : f.Course R host operation w a r w') (hxs : ∀ x ∈ a.findings, ¬ f.SetsMode host x)
    (ho : ∀ o ∈ a.run, o.ended.mode.current = o.begun.mode.current) :
    w'.mode.current = w.mode.current := by
  have hentry := fun x hx => hxs x (List.mem_append_left _ hx)
  have hexit := fun x hx => hxs x (List.mem_append_right _ hx)
  cases h with
  | refused h | refusedRaised h => exact h.chain.current_eq hentry
  | failed h _ _ => exact (ho _ rfl).trans (h.chain.current_eq hentry)
  | completed h _ _ hs =>
    exact (hs.chain.current_eq hexit).trans ((ho _ rfl).trans (h.chain.current_eq hentry))

/-- So it is where the callback was started that a call has halted in. -/
theorem Halted.current_eq {a : Account κ ε} {stage : Stage} {w₁ : World ε} {c : Option Abort}
    (h : f.Halted R host operation w a stage w₁ c w')
    (hxs : ∀ x ∈ a.findings, ¬ f.SetsMode host x)
    (ho : ∀ o ∈ a.run, o.ended.mode.current = o.begun.mode.current) :
    w₁.mode.current = w.mode.current := by
  have hentry := fun x hx => hxs x (List.mem_append_left _ hx)
  have hexit := fun x hx => hxs x (List.mem_append_right _ hx)
  cases h with
  | entering _ h _ | operating h _ => exact h.chain.current_eq hentry
  | leaving h _ _ _ hs _ =>
    exact (hs.chain.current_eq hexit).trans ((ho _ rfl).trans (h.chain.current_eq hentry))

end Frame

namespace Operation

variable {R : World ε → World ε → Prop} {host : Host κ ε} {v : Value} {i : Input}
  {w w' : World ε}

/-- In a call that went from the one state to the other a callback or a sink has set the failure
mode: the code that the contracts are around, a check of one of them, or the callback that the call
has halted in. -/
inductive SetsMode (R : World ε → World ε → Prop) (host : Host κ ε) (v : Value) (i : Input) :
    Operation κ → World ε → World ε → Prop where
  | code {code : κ} {w w' : World ε} (hset : w'.mode.current ≠ w.mode.current) :
      SetsMode R host v i (.plain code) w w'
  | check {site : CallSite} {spec : Spec κ} {inner : Operation κ} {a : Account κ ε}
      {outcome : Option (Except ContractError Value)} {x : Finding κ ε} {w w' : World ε}
      (h : (frame site spec v i w.heap).Standing R host (inner.call host v i) w a outcome w')
      (hx : x ∈ a.findings) (hset : (frame site spec v i w.heap).SetsMode host x) :
      SetsMode R host v i (.checked site spec inner) w w'
  | inside {site : CallSite} {spec : Spec κ} {inner : Operation κ} {a : Account κ ε}
      {outcome : Option (Except ContractError Value)} {o : Run ε} {w w' : World ε}
      (h : (frame site spec v i w.heap).Standing R host (inner.call host v i) w a outcome w')
      (ho : a.run = some o) (hset : SetsMode R host v i inner o.begun o.ended) :
      SetsMode R host v i (.checked site spec inner) w w'
  | haltedCheck {site : CallSite} {spec : Spec κ} {inner : Operation κ} {a : Account κ ε}
      {g : Guard} {c : Option Abort} {w w₁ w' : World ε}
      (h : (frame site spec v i w.heap).Halted R host (inner.call host v i) w a (.check g) w₁ c w')
      (hset : w'.mode.current ≠ w₁.mode.current) :
      SetsMode R host v i (.checked site spec inner) w w'
  | haltedInside {site : CallSite} {spec : Spec κ} {inner : Operation κ} {a : Account κ ε}
      {c : Option Abort} {w w₁ w' : World ε}
      (h : (frame site spec v i w.heap).Halted R host (inner.call host v i) w a .invocation w₁ c w')
      (hset : SetsMode R host v i inner w₁ w') :
      SetsMode R host v i (.checked site spec inner) w w'

/-- The calls of an operation leave the failure mode as it is, wherever they stand, unless a
callback or a sink sets it. -/
structure ModeAccounted (R : World ε → World ε → Prop) (host : Host κ ε) (v : Value) (i : Input)
    (op : Operation κ) : Prop where
  settles : ∀ {w r waited w'}, (op.call host v i).Settles R w r waited w' →
    w'.mode.current ≠ w.mode.current → op.SetsMode R host v i w w'
  stalls : ∀ {w c w'}, (op.call host v i).Stalls R w c w' →
    w'.mode.current ≠ w.mode.current → op.SetsMode R host v i w w'

theorem setsMode_of_standing {site : CallSite} {spec : Spec κ} {inner : Operation κ}
    (hinner : inner.ModeAccounted R host v i) {a : Account κ ε}
    {outcome : Option (Except ContractError Value)}
    (h : (frame site spec v i w.heap).Standing R host (inner.call host v i) w a outcome w')
    (hne : w'.mode.current ≠ w.mode.current) :
    (checked site spec inner).SetsMode R host v i w w' := by
  by_cases hxs : ∃ x ∈ a.findings, (frame site spec v i w.heap).SetsMode host x
  · obtain ⟨x, hx, hset⟩ := hxs
    exact .check h hx hset
  by_cases ho : ∃ o ∈ a.run, o.ended.mode.current ≠ o.begun.mode.current
  · obtain ⟨o, ho, hset⟩ := ho
    exact .inside h ho (hinner.settles (h.settles ho) hset)
  have hxs' := fun x hx hset => hxs ⟨x, hx, hset⟩
  have ho' := fun o hmem => by_contra fun hset => ho ⟨o, hmem, hset⟩
  cases h with
  | ended h => exact absurd (h.current_eq hxs' ho') hne
  | @halted stage c w₁ _ h =>
    rw [← h.current_eq hxs' ho'] at hne
    cases stage with
    | check g => exact .haltedCheck h hne
    | invocation => exact .haltedInside h (hinner.stalls h.stalls hne)

/-- The failure mode is never set by the protocol. -/
theorem modeAccounted (hR : ∀ w, R w w) (op : Operation κ) : op.ModeAccounted R host v i := by
  induction op with
  | plain code => exact ⟨fun _ => .code, fun _ => .code⟩
  | checked site spec inner ih =>
    constructor
    · intro w r waited w' h
      obtain ⟨a, w₁, hcourse, rfl⟩ :=
        Frame.exists_course_of_settles hR (settles_call_checked h)
      exact setsMode_of_standing ih (.ended hcourse)
    · intro w c w' h
      obtain ⟨a, stage, w₁, hhalted⟩ :=
        Frame.exists_halted_of_stalls hR (stalls_call_checked h)
      exact setsMode_of_standing ih (.halted hhalted)

end Operation

/-! ## Constructions -/

section Constructions

variable {host : Host κ ε} {this : Value} {args : List Value} {w w' : World ε}

/-- The violation of the invariant of a class on a new object. -/
def Layer.violation (l : Layer κ) : Violation := .about .constantConstructor l.name none l.name

/-- A layer sets the process-wide failure mode: its initializer does, its invariant, or the sink
that the check is traced to. -/
def Layer.SetsMode (host : Host κ ε) (this : Value) (args : List Value) (l : Layer κ)
    (w : World ε) : Prop :=
  match l.construction with
  | .initializer none => False
  | .initializer (some code) =>
    ((host.setUp code this args).exec w).2.mode.current ≠ w.mode.current
  | .contract c =>
    ((host.holds c.invariant this).exec w).2.mode.current ≠ w.mode.current ∨
      ∃ held w₁, (host.holds c.invariant this).exec w = (.ok (.ready held), w₁) ∧
        c.trace.SetsMode host (ClassContract.traceEvent l.name args held) w₁

theorem Layer.SetsUp.current_eq {l : Layer κ} {r : Except Abort (Except ContractError Unit)}
    (h : l.SetsUp host this args w r w') (hl : ¬ l.SetsMode host this args w) :
    w'.mode.current = w.mode.current := by
  rw [SetsMode] at hl
  cases h with
  | bare => rfl
  | initialized hc hexec =>
    simp only [hc, hexec, not_not] at hl
    exact hl
  | held hc hexec ht =>
    simp only [hc, hexec, not_or, not_not] at hl
    exact (ht.current_eq fun hset => hl.2 ⟨true, _, rfl, hset⟩).trans hl.1
  | failed hc hexec ht hr =>
    simp only [hc, hexec, not_or, not_not] at hl
    have htrace := ht.current_eq fun hset => hl.2 ⟨false, _, rfl, hset⟩
    exact hr.current_eq.trans (htrace.trans hl.1)
  | pending hc hexec | gaveUp hc hexec =>
    simp only [hc, hexec, not_or, not_not] at hl
    exact hl.1

theorem Agreed.exists_setsMode {layers : List (Layer κ)} (h : Agreed host this args layers w w')
    (hne : w'.mode.current ≠ w.mode.current) : ∃ before l after w₁,
      layers = before ++ l :: after ∧ Agreed host this args before w w₁ ∧
        l.SetsMode host this args w₁ := by
  induction h with
  | nil => exact absurd rfl hne
  | @cons l rest w w₁ w' hl hs ih =>
    by_cases hset : l.SetsMode host this args w
    · exact ⟨[], l, rest, w, rfl, .nil w, hset⟩
    · rw [← hl.current_eq hset] at hne
      obtain ⟨before, l', after, w₂, rfl, hbefore, hset'⟩ := ih hne
      exact ⟨l :: before, l', after, w₂, rfl, .cons hl hbefore, hset'⟩

/-- The process-wide failure mode after a construction is the one before, unless one of the layers
that were visited has set it. -/
theorem Visited.exists_setsMode {layers : List (Layer κ)}
    {r : Except Abort (Except ContractError Unit)} (h : Visited host this args layers w r w')
    (hne : w'.mode.current ≠ w.mode.current) : ∃ before l after w₁,
      layers = before ++ l :: after ∧ Agreed host this args before w w₁ ∧
        l.SetsMode host this args w₁ := by
  cases h with
  | all h => exact h.exists_setsMode hne
  | @upTo before after l _ w₁ _ _ h hl _ =>
    by_cases hset : l.SetsMode host this args w₁
    · exact ⟨before, l, after, w₁, rfl, h, hset⟩
    · rw [hl.current_eq hset] at hne
      obtain ⟨before', l', after', w₂, rfl, hbefore, hset'⟩ := h.exists_setsMode hne
      exact ⟨before', l', after' ++ l :: after, w₂, by simp, hbefore, hset'⟩

theorem Agreed.concat {before : List (Layer κ)} {l : Layer κ} {w₁ : World ε}
    (h : Agreed host this args before w w₁) (hl : l.SetsUp host this args w₁ (.ok (.ok ())) w') :
    Agreed host this args (before ++ [l]) w w' := by
  induction h with
  | nil => exact .cons hl (.nil _)
  | cons hfirst _ ih => exact .cons hfirst (ih hl)

/-- A false invariant of a layer is traced and reported, and the report decides whether the
construction ends there. -/
theorem exists_reported {before : List (Layer κ)} {l : Layer κ} {c : ClassContract κ}
    {w₁ w₂ : World ε} (after : List (Layer κ)) (h : Agreed host this args before w w₁)
    (hl : l.construction = .contract c)
    (hfalse : (host.holds c.invariant this).exec w₁ = (.ok (.ready false), w₂)) :
    ∃ w₃ verdict w₄, Traced host (ClassContract.traceEvent l.name args false) c.trace w₂ w₃ ∧
      Reported c.mode l.violation w₃ verdict w₄ ∧
      match c.mode.getD w₃.mode.current with
      | .throw => (setUpLayers host this args (before ++ l :: after)).exec w =
          (.ok (.error (.violation l.violation)), w₄)
      | .log => Agreed host this args (before ++ [l]) w w₄ := by
  obtain ⟨w₃, htrace, _⟩ :=
    exec_emit host c.trace (ClassContract.traceEvent l.name args false) w₂
  obtain ⟨verdict, w₄, hreport, _⟩ := exec_report c.mode l.violation w₃
  have ht := exec_emit_iff.mp htrace
  have hr := exec_report_iff.mp hreport
  have hset : l.SetsUp host this args w₁ (.ok verdict) w₄ := .failed hl hfalse ht hr
  refine ⟨w₃, verdict, w₄, ht, hr, ?_⟩
  cases hr with
  | raised hmode =>
    rw [hmode, exec_setUpLayers_of_agreed h, exec_setUpLayers_cons,
      Layer.exec_setUp_iff.mpr hset]
  | written hmode =>
    rw [hmode]
    exact h.concat hset

end Constructions

end Contracts
