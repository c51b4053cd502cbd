import Contracts.Proofs.Overrides

/-!
# Contracts.Proofs.Deciding

Which failure mode decides.

* `Declaration.mode_resolve_eq_some` — the override that a declaration means.
* `Standing.decided` — a check that failed is traced, and then reported in the mode of that moment.
* `Class.visited_of_construct` — a construction as a visit of layers, with a new object.
* `deciding_mode` — which failure mode decides about a check that failed, and who sets it.
-/

namespace Contracts

open List (Forall₂)

variable {κ ε : Type}

/-- A declaration means a failure mode if it holds a text that names one. -/
theorem Declaration.mode_resolve_eq_some {fields : ContractRecord κ} {m : FailureMode} :
    (Declaration.record fields).resolve.1.mode = some m ↔
      ∃ text, fields.mode = some text ∧ FailureMode.parse text = .ok m := by
  change (resolveMode fields.mode).1 = some m ↔ _
  cases fields.mode with
  | none => simp [resolveMode]
  | some text =>
    rw [resolveMode]
    cases h : FailureMode.parse text <;> simp [h]

/-- Every check of a call that failed was traced and then reported, and the report raised it just if
the mode said so in the state that the trace had left. -/
theorem Frame.Standing.decided {R : World ε → World ε → Prop} {host : Host κ ε} {f : Frame κ}
    {operation : Action (World ε) (Completion ε)} {w w' : World ε} {a : Account κ ε}
    {outcome : Option (Except ContractError Value)}
    (h : f.Standing R host operation w a outcome w') {x : Finding κ ε} (hx : x ∈ a.findings)
    (hf : x.held = false) :
    Traced host (f.traceEvent x.result x.guard false) f.spec.trace x.answered x.traced ∧
      (∃ verdict w₁, Reported f.spec.mode (f.violation x) x.traced verdict w₁ ∧
        f.GoesOn R host operation w a x w₁ outcome w') ∧
      (outcome = some (.error (.violation (f.violation x))) ↔
        f.spec.mode.getD x.traced.mode.current = .throw) := by
  obtain ⟨hmade, hreported⟩ := h.reported hx hf
  have ht := hmade.traces
  rw [hf] at ht
  exact ⟨ht, hreported, h.raised_iff hx hf⟩

/-- A construction visits the layers from the root down, with a new object. -/
theorem Class.visited_of_construct (host : Host κ ε) (c : Class κ) (args : List Value)
    (w : World ε) :
    let made : World ε := { w with heap := (w.heap.alloc { className := some c.name }).2 }
    ∃ verdict, Visited host (.object ⟨w.heap.size⟩) args c.layers.reverse made verdict
      ((c.construct host args).exec w).2 := by
  intro made
  rw [exec_construct_eq]
  exact ⟨_, exec_setUpLayers_iff.mp rfl⟩

/-- Which failure mode decides. A contract has an override if its declaration holds a text that
names a mode. A check of a call that failed is traced, then it is reported, and it is raised if and
only if the override is throw, or, without one, the process-wide mode in the state that its trace
and its sink have left. A call under a contract with an override does the same in any process-wide
mode, if its callbacks and its sink do. Wherever a call stands with another process-wide mode than
before, one of its callbacks or sinks has set it. All of this also holds of constructions. -/
theorem deciding_mode (host : Host κ ε) :
    (∀ (fields : ContractRecord κ) m, (Declaration.record fields).resolve.1.mode = some m ↔
      ∃ text, fields.mode = some text ∧ FailureMode.parse text = .ok m) ∧
    (∀ (site : CallSite) (spec : Spec κ) (inner : Operation κ) (v : Value) (i : Input),
      let f := Operation.frame site spec v i
      let operation := inner.call host v i
      let call := (Operation.checked site spec inner).call host v i
      (∀ changes w, ∃ a outcome w₁,
        (f w.heap).Standing (Operation.Among changes) host operation w a outcome w₁ ∧
        (∀ r, (call.polls changes w).1.result? = some (.ok r) → outcome = some r) ∧
        Operation.Among changes w₁ (call.polls changes w).2) ∧
      (∀ R w a outcome w₁, (∀ w, R w w) →
        (f w.heap).Standing R host operation w a outcome w₁ →
        (∀ x ∈ a.findings, x.held = false →
          Traced host ((f w.heap).traceEvent x.result x.guard false) spec.trace x.answered
            x.traced ∧
          (∃ verdict w₂, Reported spec.mode ((f w.heap).violation x) x.traced verdict w₂ ∧
            (f w.heap).GoesOn R host operation w a x w₂ outcome w₁) ∧
          (outcome = some (.error (.violation ((f w.heap).violation x))) ↔
            spec.mode.getD x.traced.mode.current = .throw)) ∧
        (w₁.mode.current ≠ w.mode.current →
          (Operation.checked site spec inner).SetsMode R host v i w w₁)) ∧
      ∀ w, (f w.heap).DecidesAlone host → operation.StartsModeless → call.StartsModeless ∧
        ∀ changes changes' w', w.SameButMode w' →
          Forall₂ (fun c c' => ∀ w w', World.SameButMode w w' → (c w).SameButMode (c' w'))
            changes changes' →
          (call.polls changes w).1.result? = (call.polls changes' w').1.result? ∧
            (call.polls changes w).2.SameButMode (call.polls changes' w').2) ∧
    ∀ (c : Class κ) (args : List Value) (w : World ε),
      let this : Value := .object ⟨w.heap.size⟩
      let made : World ε := { w with heap := (w.heap.alloc { className := some c.name }).2 }
      (∃ verdict, Visited host this args c.layers.reverse made verdict
        ((c.construct host args).exec w).2) ∧
      (∀ before l after contract w₁ w₂, c.layers.reverse = before ++ l :: after →
        l.construction = .contract contract → Agreed host this args before made w₁ →
        (host.holds contract.invariant this).exec w₁ = (.ok (.ready false), w₂) →
        ∃ w₃ verdict w₄,
          Traced host (ClassContract.traceEvent l.name args false) contract.trace w₂ w₃ ∧
          Reported contract.mode l.violation w₃ verdict w₄ ∧
          match contract.mode.getD w₃.mode.current with
          | .throw =>
            (c.construct host args).exec w = (.ok (.error (.violation l.violation)), w₄)
          | .log => Agreed host this args (before ++ [l]) made w₄) ∧
      (((c.construct host args).exec w).2.mode.current ≠ w.mode.current →
        ∃ before l after w₁, c.layers.reverse = before ++ l :: after ∧
          Agreed host this args before made w₁ ∧ l.SetsMode host this args w₁) ∧
      ((∀ l ∈ c.layers, ∀ this, l.DecidesAlone host this args) → ∀ w', w.SameButMode w' →
        ((c.construct host args).exec w).1 = ((c.construct host args).exec w').1 ∧
          ((c.construct host args).exec w).2.SameButMode ((c.construct host args).exec w').2) := by
  refine ⟨fun fields m => Declaration.mode_resolve_eq_some, ?calls, ?constructions⟩
  case calls =>
    intro site spec inner v i f operation call
    refine ⟨fun changes w => Operation.exists_standing host site spec inner v i changes w,
      fun R w a outcome w₁ hR h => ⟨fun x hx hf => h.decided hx hf, fun hne => ?_⟩,
      fun w halone hop => ?_⟩
    · exact Operation.setsMode_of_standing (Operation.modeAccounted hR inner) h hne
    · have hcall := Operation.modeless_call halone hop
      exact ⟨hcall, fun changes changes' w' hw hc => hcall.polls hc hw⟩
  case constructions =>
    intro c args w this made
    obtain ⟨verdict, hvisited⟩ := Class.visited_of_construct host c args w
    refine ⟨⟨verdict, hvisited⟩, fun before l after contract w₁ w₂ hlayers hl h hfalse => ?_,
      fun hne => hvisited.exists_setsMode hne, fun halone w' hw => ?_⟩
    · obtain ⟨w₃, verdict, w₄, ht, hr, hnext⟩ := exists_reported after h hl hfalse
      refine ⟨w₃, verdict, w₄, ht, hr, ?_⟩
      rw [Class.exec_construct_eq, hlayers]
      revert hnext
      cases contract.mode.getD w₃.mode.current with
      | log => exact id
      | throw =>
        intro hnext
        rw [hnext]
        rfl
    · obtain ⟨_, hstate, _, hends⟩ := Class.modeless_construct halone () le_rfl w w' hw
      exact ⟨hends.eq, hstate⟩

namespace Kettle

def isOff : Action (World Bool) Bool :=
  .ofFun fun w => (.ok (!w.own), if w.own then { w with mode := (w.mode.write .throw).2 } else w)

def heat : Action (World Bool) (Except ContractError Value) :=
  .ofFun fun w => (.ok (.ok .null), { w with own := true })

/-- Heating turns the kettle on. No condition holds, and neither does the invariant of a kettle that
is on; and to find this out sets the process-wide mode to throw. -/
def host : Host Unit Bool where
  accepts _ _ := do pure (.ready (← pure false))
  holds _ _ := do pure (.ready (← isOff))
  operate _ _ _ := do pure (.ready (← heat))
  read _ _ := pure .undefined
  setUp _ _ _ := pure (.ok ())
  deliver _ _ := pure ()

theorem modeless_isOff : isOff.Modeless := by
  refine Action.modeless_of_exec fun w mode => ?_
  cases h : w.own with
  | false => exact ⟨mode, by simp [isOff, h]⟩
  | true => exact ⟨(mode.write .throw).2, by simp [isOff, h]⟩

theorem modeless_heat : heat.Modeless := Action.modeless_of_exec fun _ mode => ⟨mode, rfl⟩

def site : CallSite := ⟨some "Kettle", "heat"⟩

def spec (mode : Option FailureMode) : Spec Unit :=
  { invariant := some (), postcondition := some (), trace := .disabled, mode }

def operation (mode : Option FailureMode) : Operation Unit := .checked site (spec mode) (.plain ())

def cold (m : FailureMode) : World Bool := { mode := .holding m, own := false }

def frame (mode : Option FailureMode) : Frame Unit :=
  Operation.frame site (spec mode) .undefined (.args []) {}

/-- The states of the call: heated, with the first failure written down, and with the mode set. -/
def heated : World Bool := { cold .log with own := true }

def first : Finding Unit Bool :=
  ⟨.postcondition, (), some .null, false, false, heated, heated, heated⟩

def noted : World Bool :=
  { heated with entries := [.violated .after "Kettle" ((frame none).violation first).message] }

def strict : World Bool := { noted with mode := (noted.mode.write .throw).2 }

def second : Finding Unit Bool :=
  ⟨.invariantAfter, (), some .null, false, false, noted, strict, strict⟩

def sound : Finding Unit Bool :=
  ⟨.invariantBefore, (), none, true, false, cold .log, cold .log, cold .log⟩

def account : Account Unit Bool :=
  ⟨[sound], some ⟨.ok .null, false, cold .log, heated⟩, [first, second]⟩

theorem course : (frame none).Course Eq host ((Operation.plain ()).call host .undefined (.args []))
    (cold .log) account (.error (.violation ((frame none).violation second))) strict := by
  have hfirst : (frame none).Examined Eq host first (.ok false) noted :=
    .failed ⟨.ready rfl, .off _⟩ rfl (.written rfl)
  have hoff : (host.holds () .undefined).exec noted = (.ok (.ready false), strict) := rfl
  have hsecond : (frame none).Examined Eq host second
      (.error (.violation ((frame none).violation second))) strict :=
    .failed ⟨.ready hoff, .off _⟩ rfl (.raised rfl)
  have hleave : (frame none).Leaves Eq host .null (frame none).spec.exit heated account.exit
      (.error (.violation ((frame none).violation second))) strict :=
    .onward rfl hfirst (.stopped [] rfl hsecond)
  have hsound : (frame none).Examined Eq host sound (.ok true) (cold .log) :=
    .held ⟨.ready rfl, .off _⟩ rfl
  have henter : (frame none).Enters Eq host (frame none).spec.entry (cold .log) account.entry
      (.ok true) (cold .log) := .onward rfl hsound (.nil _)
  exact .completed (o := ⟨.ok .null, false, cold .log, heated⟩) henter (.ready rfl) rfl hleave

theorem startsModeless_test (mode : Option FailureMode) (result : Option Value) (g : Guard) :
    ((frame mode).test host result () g).StartsModeless := by
  cases g with
  | invariantBefore | invariantAfter => exact Action.startsModeless_ready modeless_isOff
  | precondition | postcondition => exact Action.startsModeless_ready (Action.modeless_pure false)

theorem decidesAlone (m : FailureMode) : (frame (some m)).DecidesAlone host where
  mode := rfl
  entry p _ := startsModeless_test (some m) none p.1
  exit p _ v := startsModeless_test (some m) (some v) p.1
  deliver _ _ _ := Action.modeless_pure ()

/-- A class of kettles with a contract. -/
def kettles (mode : Option FailureMode) : Class Unit :=
  ⟨{ name := "Kettle", construction := .contract ⟨(), .disabled, mode⟩ }, []⟩

/-- Of two failures of one call the first is written down and the second raised, because the mode
was set in between. With an override the mode makes no difference. The invariant of a new kettle
fails where another one is on, and is raised in the mode that it has set itself. -/
theorem raised_second :
    (∃ w', (frame none).Standing Eq host ((Operation.plain ()).call host .undefined (.args []))
        (cold .log) account (some (.error (.violation ((frame none).violation second)))) w' ∧
      (none : Option FailureMode).getD first.traced.mode.current ≠ .throw ∧
      (none : Option FailureMode).getD second.traced.mode.current = .throw ∧
      (operation none).SetsMode Eq host .undefined (.args []) (cold .log) w') ∧
    (∀ m, (((operation (some m)).call host .undefined (.args [])).polls [] (cold .log)).1.result? =
      (((operation (some m)).call host .undefined (.args [])).polls [] (cold .throw)).1.result?) ∧
    (((kettles none).construct host []).exec heated).1 =
      .ok (.error (.violation (kettles none).own.violation)) := by
  obtain ⟨_, hcalls, hconstructions⟩ := deciding_mode host
  refine ⟨⟨_, .ended course, ?_⟩, fun m => ?_, ?_⟩
  · obtain ⟨_, hdecides, _⟩ := hcalls site (spec none) (.plain ()) .undefined (.args [])
    obtain ⟨hreports, hsets⟩ := hdecides Eq (cold .log) account _ _ (fun _ => rfl) (.ended course)
    obtain ⟨_, _, hfirst⟩ := hreports first (by simp [account, Account.findings]) rfl
    obtain ⟨_, _, hsecond⟩ := hreports second (by simp [account, Account.findings]) rfl
    refine ⟨fun hthrow => ?_, hsecond.mp rfl, hsets (by decide)⟩
    cases hfirst.mpr hthrow
  · obtain ⟨_, _, hmodeless⟩ := hcalls site (spec (some m)) (.plain ()) .undefined (.args [])
    obtain ⟨_, hsame⟩ := hmodeless (cold .log) (decidesAlone m)
      (Action.startsModeless_ready modeless_heat)
    exact (hsame [] [] (cold .throw) ⟨.holding .throw, rfl⟩ .nil).1
  · obtain ⟨_, hchecks, _⟩ := hconstructions (kettles none) [] heated
    obtain ⟨w₃, verdict, w₄, ht, hr, hnext⟩ :=
      hchecks [] (kettles none).own [] ⟨(), .disabled, none⟩ _ _ rfl rfl (.nil _) rfl
    cases ht
    exact congrArg Prod.fst hnext

end Kettle

end Contracts
