import Contracts.Proofs.Journals
import Contracts.Proofs.Notes

/-!
# Contracts.Proofs.Sinks

What trace sinks may do without being noticed.

* `TraceSetting.Harmless` — a setting whose sink writes nothing but notes, however it ends.
* `TracedAs`         — what the trace of a check leaves in the journal.
* `Interchangeable`, `sameHosts_harmless` — scripts run alike under any two harmless settings.
* `Host.returning`   — the host whose sinks return where they would have given up.
* `sameHosts_returning` — scripts run alike whether their sinks give up or return.
-/

namespace Contracts

open Script

variable {κ ε δ α β : Type} {ρ : Ref ≃. Ref}
  {T : TraceSetting Callback → TraceSetting Callback → Prop}

/-! ## What a check leaves in the journal -/

/-- A check as traces show it. -/
structure CheckText where
  kind : CheckKind
  className : String
  member : String
  input : String
  result : Option String
  passed : Bool
  failure : Option FailureKind
  json : String

def TraceEvent.shown (h : Heap) (e : TraceEvent) : CheckText where
  kind := e.kind
  className := e.className
  member := e.member
  input := e.input.render h
  result := e.result.map h.render
  passed := e.passed
  failure := e.failure
  json := e.text h

/-- What the trace of a check leaves in the journal: nothing, the default trace, or the text of the
event and the notes that a run of the sink makes of it, with the remark that it gave up if it
did. -/
inductive TracedAs (host : Host κ ε) (c : CheckText) : TraceSetting κ → List Event → Prop where
  | disabled : TracedAs host c .disabled []
  | default : TracedAs host c .default
      [.defaultTrace c.kind c.className c.member c.input c.result c.passed c.failure]
  | returned {code : κ} {e : TraceEvent} {w w' : World ε} {notes : List Event}
      (hshown : e.shown w.heap = c) (hrun : (host.deliver code e).exec w = (.ok (), w'))
      (hjournal : w'.journal = w.journal ++ notes) (hnotes : Notes notes) :
      TracedAs host c (.sink code) (.traced c.json :: notes)
  | gaveUp {code : κ} {e : TraceEvent} {cause : Abort} {w w' : World ε} {notes : List Event}
      (hshown : e.shown w.heap = c) (hrun : (host.deliver code e).exec w = (.error cause, w'))
      (hjournal : w'.journal = w.journal ++ notes) (hnotes : Notes notes) :
      TracedAs host c (.sink code) (.traced c.json :: (notes ++ [.sinkPanicked c.kind]))

/-- The setting has no sink, or one that writes nothing but notes. -/
def TraceSetting.Harmless (host : Host κ ε) (t : TraceSetting κ) : Prop :=
  ∀ code, t = .sink code → ∀ e, (host.deliver code e).OnlyNotes

/-- A trace to a harmless setting leaves its check in the journal, and nothing else. -/
theorem exec_emit_harmless {host : Host κ ε} {t : TraceSetting κ} (ht : t.Harmless host)
    (e : TraceEvent) (w : World ε) : ∃ w' b, (t.emit host e).exec w = (.ok (), w') ∧ w.Kept w' ∧
      w'.journal = w.journal ++ b ∧ TracedAs host (e.shown w.heap) t b := by
  cases t with
  | disabled => exact ⟨w, [], rfl, .refl w, (List.append_nil _).symm, .disabled⟩
  | default => exact ⟨_, _, rfl, ⟨fun _ _ h => h, rfl, rfl, rfl⟩, World.journal_log _ w, .default⟩
  | sink code =>
    have htraced := World.journal_log (.traced (e.text w.heap)) w
    simp only [World.exec_log] at htraced
    simp only [TraceSetting.emit, Action.exec_bind, World.exec_readHeap, World.exec_log,
      Action.exec_tryCatch]
    have hshown : e.shown { w with entries := .traced (e.text w.heap) :: w.entries }.heap =
        e.shown w.heap := rfl
    generalize hw₁ : { w with entries := .traced (e.text w.heap) :: w.entries } = w₁
      at htraced hshown ⊢
    have hkept₁ : w.Kept w₁ := hw₁ ▸ ⟨fun _ _ h => h, rfl, rfl, rfl⟩
    obtain ⟨hkept, notes, hjournal, hnotes⟩ := ht code rfl e w₁
    revert hkept hjournal
    rcases hrun : (host.deliver code e).exec w₁ with ⟨cause | _, w₂⟩
    · intro hkept hjournal
      have hgaveUp := World.journal_log (.sinkPanicked e.kind) w₂
      simp only [World.exec_log] at hgaveUp ⊢
      refine ⟨_, _, rfl, (hkept₁.trans hkept).trans ⟨fun _ _ h => h, rfl, rfl, rfl⟩, ?_,
        .gaveUp hshown hrun hjournal hnotes⟩
      rw [hgaveUp, hjournal, htraced, List.append_assoc, List.append_assoc, List.singleton_append]
      rfl
    · intro hkept hjournal
      refine ⟨_, _, rfl, hkept₁.trans hkept, ?_, .returned hshown hrun hjournal hnotes⟩
      rw [hjournal, htraced, List.append_assoc, List.singleton_append]
      rfl

/-! ## Harmless settings -/

/-- States that are alike stay so when both sides leave alone what was there. -/
theorem World.Alike.of_kept {w v w' v' : State} (h : World.Alike T ρ w v) (hw : w.Kept w')
    (hv : v.Kept v') : World.Alike T ρ w' v' where
  heap r r' hr := by
    obtain ⟨rec, rec', hrec, hrec', halike⟩ := h.heap r r' hr
    exact ⟨rec, rec', hw.records r rec hrec, hv.records r' rec' hrec', halike⟩
  mode := by rw [hw.mode, hv.mode, h.mode]
  nextSymbol := by rw [hw.nextSymbol, hv.nextSymbol, h.nextSymbol]
  scope := by
    rw [hw.own, hv.own]
    exact h.scope

theorem shown_eq {B : List Event → List Event → Prop} {w v : State}
    (hw : (retracing B T).agree ρ w v) {e e' : TraceEvent} (he : SameCheck (Value.Alike ρ) e e') :
    e.shown w.heap = e'.shown v.heap := by
  simp only [TraceEvent.shown, he.kind, he.className, he.member, he.passed, he.failure,
    Comparison.renderInput_eq hw he.input, Comparison.renderResult_eq hw he.result,
    Comparison.traceText_eq hw he]

theorem acts_emit_harmless {B : List Event → List Event → Prop} {host host' : Host Callback Scope}
    {t t' : TraceSetting Callback} (ht : t.Harmless host) (ht' : t'.Harmless host')
    (hB : ∀ c b b', TracedAs host c t b → TracedAs host' c t' b' → B b b') {e e' : TraceEvent}
    (he : SameCheck (Value.Alike ρ) e e') :
    (retracing B T).Acts (fun _ => Eq) ρ (t.emit host e) (t'.emit host' e') := by
  intro ρ' hρ w v hw
  obtain ⟨w', b, hexec, hkept, hjournal, hb⟩ := exec_emit_harmless ht e w
  obtain ⟨v', b', hexec', hkept', hjournal', hb'⟩ := exec_emit_harmless ht' e' v
  rw [← shown_eq hw (he.mono fun _ _ => Value.Alike.mono hρ)] at hb'
  have hsame := SameBut.block (V := Value.Alike ρ') (hB _ b b' hb hb') .nil
  rw [List.append_nil, List.append_nil] at hsame
  rw [hexec, hexec']
  exact ⟨ρ', hw.of_kept hkept hkept', ⟨le_rfl, b, b', hjournal, hjournal', hsame⟩, .ok rfl⟩

namespace Script

/-- The setting has no sink, or one whose body is harmless. -/
def isHarmless : TraceSetting Callback → Bool
  | .disabled | .default => true
  | .sink c => Stmt.areHarmless c.body

theorem harmless_of_isHarmless {t : TraceSetting Callback} (h : isHarmless t) (depth : Nat) :
    t.Harmless (hostOf depth) := by
  rintro c rfl
  exact onlyNotes_deliver h depth

/-- Settings that can stand for each other: the same one, or two that are harmless for calls that
are nested up to a depth. -/
def Interchangeable (depth : Nat) (t t' : TraceSetting Callback) : Prop :=
  t = t' ∨ ∀ d ≤ depth, t.Harmless (hostOf d) ∧ t'.Harmless (hostOf d)

/-- One check, traced to two settings that are related. -/
def TracedTwice (depth : Nat) (T : TraceSetting Callback → TraceSetting Callback → Prop)
    (b b' : List Event) : Prop :=
  ∃ d ≤ depth, ∃ c t t', T t t' ∧ TracedAs (hostOf d) c t b ∧ TracedAs (hostOf d) c t' b'

section

variable {depth d : Nat} (hT : ∀ t t', T t t' → Interchangeable depth t t') (hd : d ≤ depth)

include hT hd

/-- Traces to settings that are related agree, if every sink agrees with itself. -/
theorem acts_emit_related {t t' : TraceSetting Callback} (ht : T t t')
    {e e' : TraceEvent} (hdeliver : ∀ code, (retracing (TracedTwice depth T) T).Acts (fun _ => Eq) ρ
      ((hostOf d).deliver code e) ((hostOf d).deliver code e'))
    (he : SameCheck (Value.Alike ρ) e e') :
    (retracing (TracedTwice depth T) T).Acts (fun _ => Eq) ρ (t.emit (hostOf d) e)
      (t'.emit (hostOf d) e') := by
  rcases hT t t' ht with rfl | hharmless
  · exact Comparison.acts_emit (fun code _ => hdeliver code) he
  · obtain ⟨h, h'⟩ := hharmless d hd
    exact acts_emit_harmless h h' (fun c b b' hb hb' => ⟨d, hd, c, t, t', ht, hb, hb'⟩) he

/-- Scripts run alike whatever harmless settings their contracts trace to. -/
theorem sameHosts_harmless :
    (retracing (TracedTwice depth T) T).SameHosts T (hostOf d) (hostOf d) := by
  induction d with
  | zero => exact {
      toSameAnswers := Comparison.Scripts.sameAnswers_exhausted
      emit := fun ht _ _ he => acts_emit_related hT hd ht (fun _ => Simulation.acts_throw _) he }
  | succ d ih =>
    have hinner := ih (Nat.le_of_succ_le hd)
    exact {
      toSameAnswers := scripts_retracing.sameAnswers_meaning hinner
      emit := fun ht _ _ he =>
        acts_emit_related hT hd ht (fun c => scripts_retracing.acts_deliver hinner c he) he }

end

end Script

/-! ## Sinks that return -/

/-- The same host, but for sinks that return where they would have given up. -/
def Host.returning (host : Host κ ε) : Host κ ε :=
  { host with deliver := fun code e => tryCatch (host.deliver code e) fun _ => pure () }

/-- The remark that a sink gave up, on one side. -/
def GaveUp (b b' : List Event) : Prop := ∃ kind, b = [.sinkPanicked kind] ∧ b' = []

theorem acts_emit_returning {host host' : Host Callback Scope} {e e' : TraceEvent}
    (hdeliver : ∀ code, (retracing GaveUp T).Acts (fun _ => Eq) ρ (host.deliver code e)
      (host'.deliver code e')) (t : TraceSetting Callback)
    (he : SameCheck (Value.Alike ρ) e e') :
    (retracing GaveUp T).Acts (fun _ => Eq) ρ (t.emit host e) (t.emit host'.returning e') := by
  cases t with
  | disabled => exact Comparison.acts_emit (fun _ h => by cases h) he
  | default => exact Comparison.acts_emit (fun _ h => by cases h) he
  | sink code =>
    refine Comparison.acts_readHeap fun ρ' hρ w v hw => ?_
    have htext := Comparison.traceText_eq hw (he.mono fun _ _ => Value.Alike.mono hρ)
    simp only [htext]
    refine Simulation.acts_bind (Comparison.acts_log_same _) fun ρ₁ hρ₁ _ _ _ => ?_
    intro ρ₂ hρ₂ w₁ v₁ hw₁
    obtain ⟨ρ₃, hw₃, hm, hends⟩ :=
      hdeliver code ρ₂ ((hρ.trans hρ₁).trans hρ₂) w₁ v₁ hw₁
    simp only [Host.returning, Action.exec_tryCatch]
    revert hw₃ hm hends
    rcases (host.deliver code e).exec w₁ with ⟨x, w₃⟩
    rcases (host'.deliver code e').exec v₁ with ⟨y, v₃⟩
    intro hw₃ hm hends
    cases hends with
    | ok _ => exact ⟨ρ₃, hw₃, hm, .ok rfl⟩
    | error c =>
      -- one side remarks that the sink gave up, where the other side goes on
      have hgave : SameBut GaveUp (Value.Alike ρ₃) ([.sinkPanicked e.kind] ++ []) ([] ++ []) :=
        .block ⟨e.kind, rfl, rfl⟩ .nil
      have hlog : World.Went GaveUp ρ₃ w₃ v₃ ρ₃
          { w₃ with entries := .sinkPanicked e.kind :: w₃.entries } v₃ :=
        ⟨le_rfl, _, _, World.journal_log _ w₃, (List.append_nil _).symm, hgave⟩
      exact ⟨ρ₃, ⟨hw₃.heap, hw₃.mode, hw₃.nextSymbol, hw₃.scope⟩,
        (retracing GaveUp T).move_trans hm hlog, .ok rfl⟩

namespace Script

/-- The host for calls nested up to a depth, with sinks that return. -/
def returningHost : Nat → Host Callback Scope
  | 0 => exhausted.returning
  | depth + 1 => (meaning fun () => returningHost depth).returning

/-- Scripts run alike whether their sinks give up or return. -/
theorem sameHosts_returning (depth : Nat) :
    (retracing GaveUp Eq).SameHosts Eq (hostOf depth) (returningHost depth) := by
  induction depth with
  | zero =>
    have h : (retracing GaveUp Eq).SameAnswers exhausted exhausted :=
      Comparison.Scripts.sameAnswers_exhausted
    exact {
      toSameAnswers := { h with }
      emit := fun {_ t _} ht _ _ he => ht ▸ acts_emit_returning
        (fun _ => Simulation.acts_throw _) t he }
  | succ depth ih =>
    have h : (retracing GaveUp Eq).SameAnswers (meaning fun () => hostOf depth)
        (meaning fun () => returningHost depth) := scripts_retracing.sameAnswers_meaning ih
    exact {
      toSameAnswers := { h with }
      emit := fun {_ t _} ht _ _ he => ht ▸ acts_emit_returning
        (fun c => scripts_retracing.acts_deliver ih c he) t he }

end Script

end Contracts
