import Contracts.Protocol

/-!
# Contracts.Proofs.Observing

Traces and reports of checks.

* `World.state`  — the state without its journal.
* `exec_emit`    — a trace is never in the way; it changes no more than its sink does.
* `exec_report`  — a violation is raised in throw mode alone.
* `exec_observe` — what becomes of a check that was made.
-/

namespace Contracts

variable {κ ε : Type}

/-- The state without its journal. -/
def World.state (w : World ε) : World ε := { w with entries := [] }

/-- The sink of a contract changes nothing but the journal. -/
def TraceSetting.Quiet (host : Host κ ε) (t : TraceSetting κ) : Prop :=
  ∀ code e w, t = .sink code → ((host.deliver code e).exec w).2.state = w.state

theorem exec_emit (host : Host κ ε) (t : TraceSetting κ) (e : TraceEvent) (w : World ε) :
    ∃ w', (t.emit host e).exec w = (.ok (), w') ∧ (t.Quiet host → w'.state = w.state) := by
  cases t with
  | disabled => exact ⟨w, rfl, fun _ => rfl⟩
  | default => exact ⟨_, rfl, fun _ => rfl⟩
  | sink code =>
    simp only [TraceSetting.emit, Action.exec_bind, World.exec_readHeap, World.exec_log,
      Action.exec_tryCatch]
    have hquiet := fun h : (TraceSetting.sink code).Quiet host =>
      h code e { w with entries := .traced (e.text w.heap) :: w.entries } rfl
    revert hquiet
    rcases (host.deliver code e).exec _ with ⟨c | _, w'⟩
    · intro hquiet
      exact ⟨_, rfl, hquiet⟩
    · intro hquiet
      exact ⟨_, rfl, hquiet⟩

/-- Reporting raises the violation in throw mode, and only writes it down in the other one. -/
theorem exec_report (override : Option FailureMode) (v : Violation) (w : World ε) :
    ∃ verdict w', (report override v).exec w = (.ok verdict, w') ∧
      (verdict = .ok () ∨
        verdict = .error (.violation v) ∧ override.getD w'.mode.current = .throw) := by
  rcases override with _ | m
  · simp only [report, effectiveMode, Action.exec_bind, World.exec_failureMode,
      ModeCell.read_fst]
    cases hmode : w.mode.current with
    | throw => exact ⟨_, _, rfl, .inr ⟨rfl, by simp [hmode]⟩⟩
    | log => exact ⟨_, _, rfl, .inl rfl⟩
  · cases m with
    | throw => exact ⟨_, _, rfl, .inr ⟨rfl, rfl⟩⟩
    | log => exact ⟨_, _, rfl, .inl rfl⟩

namespace Frame

/-- The failure mode that decides in a state. -/
def modeIn (f : Frame κ) (w : World ε) : FailureMode := f.spec.mode.getD w.mode.current

variable (host : Host κ ε) (f : Frame κ) (result : Option Value) (g : Guard) (w : World ε)

/-- A check that was made lets the call go on, or it failed and its violation was raised. -/
theorem exec_observe (held : Bool) :
    ∃ verdict w', (f.observe host result g held).exec w = (.ok verdict, w') ∧
      (verdict = .ok () ∨
        held = false ∧ ∃ v, verdict = .error (.violation v) ∧ f.modeIn w' = .throw) := by
  obtain ⟨w₁, htrace, _⟩ := exec_emit host f.spec.trace (f.traceEvent result g held) w
  simp only [observe, Action.exec_bind, htrace]
  cases held with
  | true => exact ⟨.ok (), w₁, rfl, .inl rfl⟩
  | false =>
    rw [if_neg Bool.false_ne_true, Action.exec_bind, World.exec_readHeap]
    obtain ⟨verdict, w₂, hreport, hv⟩ := exec_report f.spec.mode
      (.about (f.input.failure g) f.className (some f.site.member) (f.subject w₁.heap result)) w₁
    refine ⟨verdict, w₂, hreport, ?_⟩
    rcases hv with hv | ⟨hv, hmode⟩
    · exact .inl hv
    · exact .inr ⟨rfl, _, hv, hmode⟩

/-- With a quiet trace a check that held leaves the state as it is. -/
theorem exec_observe_true (hquiet : f.spec.trace.Quiet host) :
    ∃ w', (f.observe host result g true).exec w = (.ok (.ok ()), w') ∧ w'.state = w.state := by
  obtain ⟨w', htrace, hw'⟩ := exec_emit host f.spec.trace (f.traceEvent result g true) w
  simp only [observe, Action.exec_bind, htrace]
  exact ⟨w', rfl, hw' hquiet⟩

/-- So does one that failed, if the contract itself throws; its violation is raised. -/
theorem exec_observe_false (hquiet : f.spec.trace.Quiet host) (hmode : f.spec.mode = some .throw) :
    ∃ w', (f.observe host result g false).exec w = (.ok (.error (.violation
      (.about (f.input.failure g) f.className (some f.site.member) (f.subject w.heap result)))),
        w') ∧ w'.state = w.state := by
  obtain ⟨w', htrace, hw'⟩ := exec_emit host f.spec.trace (f.traceEvent result g false) w
  have hheap : w'.state.heap = w.state.heap := by rw [hw' hquiet]
  simp only [observe, Action.exec_bind, htrace]
  rw [if_neg Bool.false_ne_true, Action.exec_bind, World.exec_readHeap, hmode]
  refine ⟨w', ?_, hw' hquiet⟩
  change w'.heap = w.heap at hheap
  rw [← hheap]
  rfl

end Frame

end Contracts
