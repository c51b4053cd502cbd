import Contracts.Proofs.Isolation
import Contracts.Proofs.Reports

/-!
# Contracts.Proofs.Messages

What a violation says.

* `Guard.headline`, `Heap.checkText` — the message of a check that failed, as a heap shows it.
* `Heap.classNameOf?`   — the class that a receiver shows.
* `Frame.violation_eq`  — what is reported of a check, in these words.
* `violations_described` — the violations of a call, raised or written down.
-/

namespace Contracts

variable {κ ε : Type}

/-! ## Messages -/

/-- The words in front of the message about a check. -/
def Guard.headline : Guard → String
  | .invariantBefore => "Constant failed before"
  | .precondition => "Before failed"
  | .postcondition => "After failed"
  | .invariantAfter => "Constant failed after"

/-- The message about a check of a call: the call with its input, and the result if there is one,
all values as the heap shows them. -/
def Heap.checkText (h : Heap) (className member : String) (i : Input) (g : Guard)
    (result : Option Value) : String :=
  g.headline ++ ": " ++
    ((match i with
      | .args vs => className ++ "." ++ member ++ "(" ++ h.renderArgs vs ++ ")"
      | .value v => className ++ ".set " ++ member ++ "(" ++ h.render v ++ ")") ++
    match result with
    | some v => " -> " ++ h.render v
    | none => "")

/-- The class that a value shows: the one of its record, if nobody writes the record. -/
def Heap.classNameOf? (h : Heap) : Value → Option String
  | .object r => h.className? r
  | _ => none

theorem CallSite.label_eq (site : CallSite) (h : Heap) (v : Value) :
    site.label h v = (site.className <|> h.classNameOf? v).getD "<anonymous>" := by
  obtain ⟨className, member⟩ := site
  cases className with
  | some c => rfl
  | none => cases v <;> rfl

theorem Input.headline_failure (i : Input) (g : Guard) : (i.failure g).headline = g.headline := by
  cases i <;> cases g <;> rfl

theorem Frame.violation_eq (f : Frame κ) (x : Finding κ ε) : f.violation x = {
    failure := f.input.failure x.guard
    className := f.className
    member := some f.site.member
    message := x.traced.heap.checkText f.className f.site.member f.input x.guard x.result } := by
  have hsubject : f.subject x.traced.heap x.result =
      (match f.input with
        | .args vs => f.className ++ "." ++ f.site.member ++ "(" ++
          x.traced.heap.renderArgs vs ++ ")"
        | .value v => f.className ++ ".set " ++ f.site.member ++ "(" ++
          x.traced.heap.render v ++ ")") ++
      match x.result with
      | some v => " -> " ++ x.traced.heap.render v
      | none => "" := by
    unfold subject
    cases f.input <;> rfl
  rw [Frame.violation, Violation.about, Input.headline_failure, hsubject]
  rfl

/-! ## All violations of a call -/

/-- The violations of a call. The class is that of the site, else the one that the receiver showed
when the call started, else a placeholder; the member is that of the site; and the message shows the
input, and the result for a check after the operation, as they were in the state of the report.
Wherever a call stands, each of its checks that failed has been reported with such a violation,
raised or written down, and an error of the call that is not the one of its operation is one of
them. What a run in log mode writes down first is what the run in throw mode raises. -/
theorem violations_described (host : Host κ ε) (site : CallSite) (spec : Spec κ)
    (inner : Operation κ) (v : Value) (i : Input) (changes : List (World ε → World ε))
    (w : World ε) :
    let operation := inner.call host v i
    let call := (Operation.checked site spec inner).call host v i
    let f := Operation.frame site spec v i w.heap
    let className := (site.className <|> w.heap.classNameOf? v).getD "<anonymous>"
    (∀ form receiver args, v = form.receiver receiver → i = form.input args →
      (Wrapped.mk form (.checked site spec inner)).call host receiver args = call) ∧
    (∀ x : Finding κ ε, f.violation x = {
      failure := i.failure x.guard
      className
      member := some site.member
      message := x.traced.heap.checkText className site.member i x.guard x.result }) ∧
    (∃ a outcome w₁, f.Standing (Operation.Among changes) host operation w a outcome w₁ ∧
      (∀ r, (call.polls changes w).1.result? = some (.ok r) → outcome = some r) ∧
      Operation.Among changes w₁ (call.polls changes w).2 ∧
      (∀ x ∈ a.findings, x.result = a.resultFor x.guard ∧
        (x.result.isSome ↔ x.guard = .postcondition ∨ x.guard = .invariantAfter) ∧
        (x.held = false → ∃ verdict w₂,
          Reported spec.mode (f.violation x) x.traced verdict w₂ ∧
          f.GoesOn (Operation.Among changes) host operation w a x w₂ outcome w₁ ∧
          (verdict = .error (.violation (f.violation x)) ∨ verdict = .ok () ∧ w₂.entries =
            .violated (i.failure x.guard) className (f.violation x).message ::
              x.traced.entries))) ∧
      ∀ err, outcome = some (.error err) → (∃ o, a.run = some o ∧ o.result = .error err) ∨
        ∃ x ∈ a.findings, x.held = false ∧ err = .violation (f.violation x)) ∧
    ∀ R a r w₁, (f.withMode .log).Course R host operation w a r w₁ →
      ∀ x rest, a.failures = x :: rest →
        (∃ w₂, Reported (some .log) (f.violation x) x.traced (.ok ()) w₂ ∧
          (f.withMode .log).GoesOn R host operation w a x w₂ (some r)
            ((f.withMode .log).closing a r w₁)) ∧
        (f.withMode .throw).Course R host operation w a.upToFailure
          (.error (.violation (f.violation x))) x.traced := by
  intro operation call f className
  have hclass : f.className = className := site.label_eq w.heap v
  refine ⟨fun form receiver args hv hi => ?forms, fun x => ?shape, ?reports,
    fun R a r w₁ h x rest hfailures => ?modes⟩
  case forms => rw [Wrapped.call_eq, ← hv, ← hi]
  case shape =>
    rw [Frame.violation_eq, hclass]
    rfl
  case reports =>
    obtain ⟨a, outcome, w₁, h, hshown, hstate⟩ :=
      Operation.exists_standing host site spec inner v i changes w
    refine ⟨a, outcome, w₁, h, hshown, hstate, fun x hx => ?_, fun err herr => ?_⟩
    · obtain ⟨hresult, hsome⟩ := h.result_eq hx
      refine ⟨hresult, hsome, fun hf => ?_⟩
      obtain ⟨_, verdict, w₂, hr, hnext⟩ := h.reported hx hf
      refine ⟨verdict, w₂, hr, hnext, ?_⟩
      rw [← hclass]
      exact hr.raised_or_written
    · rw [herr] at h
      exact h.raised_of_error
  case modes =>
    have hthrow := Frame.course_throw_of_log h
    rw [hfailures] at hthrow
    have hx : x ∈ a.failures := by simp [hfailures]
    obtain ⟨hmem, hf⟩ := List.mem_filter.mp hx
    obtain ⟨_, verdict, w₂, hr, hnext⟩ :=
      (Frame.Standing.ended h).reported hmem (by simpa using hf)
    cases hr with
    | raised hmode => cases hmode
    | written hmode => exact ⟨⟨_, .written hmode, hnext⟩, hthrow⟩

namespace Casket

/-- A casket, and a lid. -/
def heap (borrow : Borrow) (lid : String) : Heap where
  records := #[{ className := some "Casket", borrow }, { fields := ⟨[("lid", .string lid)]⟩ }]

/-- Opening moves the lid and keeps hold of the casket. It is never opened well. -/
def host : Host Unit Unit where
  accepts _ _ := pure (.ready false)
  holds _ _ := pure (.ready true)
  operate _ _ _ := .ofFun fun w =>
    (.ok (.ready (.ok .null)), { w with heap := heap .held "open" })
  read _ _ := pure .undefined
  setUp _ _ _ := pure (.ok ())
  deliver _ _ := pure ()

/-- The message names the class that the casket had, and shows the lid as it is now. -/
example : (((Operation.checked ⟨none, "open"⟩ { postcondition := some () } (.plain ())).call host
      (.object ⟨0⟩) (.args [.object ⟨1⟩])).polls []
      { heap := heap .free "shut", mode := .holding .throw, own := () }).1.result? =
    some (.ok (.error (.violation ⟨.after, "Casket", some "open",
      "After failed: Casket.open(\x7b\"lid\":\"open\"\x7d) -> null"⟩))) := rfl

end Casket

end Contracts
