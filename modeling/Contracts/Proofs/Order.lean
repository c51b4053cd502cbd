import Contracts.Proofs.Watching

/-!
# Contracts.Proofs.Order

The order of the callbacks of one call.

* `Position`, `Frame.script` — the order: invariant, precondition, operation, postcondition,
  invariant, as far as the contract has them, and what each reply means for the next position.
* `InOrder`       — marks that keep the order, as far as the call has come.
* `Frame.Closed`  — the ways in which a call comes to its end.
* `calls_in_order` — every call keeps the order however it is polled, and ends in one of these ways.
-/

namespace Contracts

open List (Forall₂)

variable {κ ε : Type}

/-! ## The order -/

/-- A place in the order of a call: who is started there, and after which replies the call goes
on to the next place. -/
structure Position (κ : Type) where
  callee : Callee κ
  onward : Reply → Prop

/-- A callback from its start to its reply. -/
structure Turn (κ ε : Type) where
  callee : Callee κ
  moment : World ε
  reply : Reply

def Position.failed (p : Position κ) (moment : World ε) : Turn κ ε :=
  ⟨p.callee, moment, .verdict false⟩

def Turn.marks (t : Turn κ ε) : List (Mark κ ε) := [.started t.callee t.moment, .settled t.reply]

/-- Marks that keep an order: one position after the other, from the first one, and on to the next
only after a reply that lets the call go on. -/
inductive InOrder : List (Position κ) → List (Mark κ ε) → Prop where
  | outset (ps : List (Position κ)) : InOrder ps []
  | waiting (p : Position κ) (ps : List (Position κ)) (w : World ε) :
      InOrder (p :: ps) [.started p.callee w]
  | settled (p : Position κ) (ps : List (Position κ)) (w : World ε) (reply : Reply) :
      InOrder (p :: ps) [.started p.callee w, .settled reply]
  | onward {p : Position κ} {ps : List (Position κ)} {marks : List (Mark κ ε)} (w : World ε)
      {reply : Reply} (h : p.onward reply) (hs : InOrder ps marks) :
      InOrder (p :: ps) (.started p.callee w :: .settled reply :: marks)

def startedIn : List (Mark κ ε) → List (Callee κ)
  | [] => []
  | .started callee _ :: rest => callee :: startedIn rest
  | .settled _ :: rest => startedIn rest

/-- Each position is started at most once, and none is left out before it. -/
theorem InOrder.started_prefix {ps : List (Position κ)} {marks : List (Mark κ ε)}
    (h : InOrder ps marks) : startedIn marks <+: ps.map Position.callee := by
  induction h with
  | outset ps => exact List.nil_prefix
  | waiting p ps w => exact ⟨ps.map Position.callee, rfl⟩
  | settled p ps w reply => exact ⟨ps.map Position.callee, rfl⟩
  | onward w h hs ih => exact (List.prefix_cons_inj _).mpr ih

/-- Marks in an order are marks in a longer order. -/
theorem InOrder.append {ps : List (Position κ)} {marks : List (Mark κ ε)} (h : InOrder ps marks)
    (qs : List (Position κ)) : InOrder (ps ++ qs) marks := by
  induction h with
  | outset ps => exact .outset _
  | waiting p ps w => exact .waiting p _ w
  | settled p ps w reply => exact .settled p _ w reply
  | onward w h hs ih => exact .onward w h ih

/-- Turns at all of the positions, after each of which the call goes on. -/
def Passed : List (Position κ) → List (Turn κ ε) → Prop :=
  Forall₂ fun p t => t.callee = p.callee ∧ p.onward t.reply

theorem Passed.append {ps qs : List (Position κ)} {ts us : List (Turn κ ε)} (h : Passed ps ts)
    (hu : Passed qs us) : Passed (ps ++ qs) (ts ++ us) :=
  List.rel_append h hu

theorem Passed.inOrder {ps qs : List (Position κ)} {ts : List (Turn κ ε)} (h : Passed ps ts)
    {marks : List (Mark κ ε)} (hm : InOrder qs marks) :
    InOrder (ps ++ qs) (ts.flatMap Turn.marks ++ marks) := by
  induction h with
  | nil => exact hm
  | @cons p t ps ts hpt _ ih =>
    have := InOrder.onward t.moment hpt.2 ih
    rwa [← hpt.1] at this

namespace Frame

/-- Who is started for a check, given the result if there is one. -/
def checkCallee (f : Frame κ) (result : Option Value) (p : Guard × κ) : Callee κ :=
  match p.1 with
  | .invariantBefore | .invariantAfter => .holds p.2 f.receiver
  | .precondition | .postcondition => .accepts p.2 (result.toList ++ f.input.values)

/-- The position of a check before the operation. A call goes on only if the check holds. -/
def entryAt (f : Frame κ) (p : Guard × κ) : Position κ :=
  ⟨f.checkCallee none p, (· = .verdict true)⟩

def core (f : Frame κ) (result : Value) : Position κ :=
  ⟨.operation f.receiver f.input, (· = .outcome (.ok result))⟩

def exitAt (f : Frame κ) (result : Value) (p : Guard × κ) : Position κ :=
  ⟨f.checkCallee (some result) p, fun _ => True⟩

/-- The order of a call whose operation gives `result`. -/
def script (f : Frame κ) (result : Value) : List (Position κ) :=
  f.spec.entry.map f.entryAt ++ f.core result :: f.spec.exit.map (f.exitAt result)

/-- How a call with these turns may have ended, while `mode` was the mode that decides. -/
inductive Closed (f : Frame κ) (mode : FailureMode) :
    List (Turn κ ε) → Except ContractError Value → Prop where
  /-- A false check before the operation. -/
  | refused {ps qs : List (Position κ)} {p : Position κ} {ts : List (Turn κ ε)} (moment : World ε)
      (hp : f.spec.entry.map f.entryAt = ps ++ p :: qs) (hts : Passed ps ts) :
      Closed f mode (ts ++ [p.failed moment]) (.ok .undefined)
  /-- The same, raised. -/
  | refusedRaised {ps qs : List (Position κ)} {p : Position κ} {ts : List (Turn κ ε)}
      (moment : World ε) (v : Violation) (hp : f.spec.entry.map f.entryAt = ps ++ p :: qs)
      (hts : Passed ps ts) (hmode : mode = .throw) :
      Closed f mode (ts ++ [p.failed moment]) (.error (.violation v))
  /-- An error of the operation. -/
  | failed {ts : List (Turn κ ε)} (moment : World ε) (err : ContractError)
      (hts : Passed (f.spec.entry.map f.entryAt) ts) :
      Closed f mode (ts ++ [⟨.operation f.receiver f.input, moment, .outcome (.error err)⟩])
        (.error err)
  /-- A false check after the operation, raised. -/
  | raised {result : Value} {ps qs : List (Position κ)} {p : Position κ} {ts : List (Turn κ ε)}
      (moment : World ε) (v : Violation) (hp : f.spec.exit.map (f.exitAt result) = ps ++ p :: qs)
      (hts : Passed (f.spec.entry.map f.entryAt ++ f.core result :: ps) ts)
      (hmode : mode = .throw) :
      Closed f mode (ts ++ [p.failed moment]) (.error (.violation v))
  /-- The whole order. -/
  | returned {result : Value} {ts : List (Turn κ ε)} (hts : Passed (f.script result) ts) :
      Closed f mode ts (.ok result)

/-! ## Checks -/

section Upholds

variable {I : World (ε × List (Mark κ ε)) → Prop} {α : Type}

theorem upholds_turn {Q : α × Evaluation → World (ε × List (Mark κ ε)) → Prop} (stage : Stage)
    (e : Evaluation) (callee : Callee κ) (reply : α → Reply)
    (start : Action (World ε) (Eventual (World ε) α)) (w : World (ε × List (Mark κ ε)))
    (hI : ∀ w', w'.aside = w.aside ++ [.started callee w.main] → I w')
    (hQ : ∀ a e' w', w'.aside = w.aside ++ Turn.marks ⟨callee, w.main, reply a⟩ → Q (a, e') w') :
    (settle stage e (watch callee reply start)).Upholds Undisturbed I Q w := by
  refine upholds_settle (P := (· = w.aside ++ [.started callee w.main])) ?_ hI stage e callee reply
    start w rfl ?_
  · exact fun _ _ h hw => hw.trans h
  · exact fun a e' w' hw' => hQ a e' _ (by simp [hw', Turn.marks])

theorem test_watched (host : Host κ ε) (f : Frame κ) (result : Option Value) (p : Guard × κ) :
    f.test host.watched result p.2 p.1 =
      watch (f.checkCallee result p) .verdict (f.test host result p.2 p.1) := by
  obtain ⟨g, code⟩ := p
  cases g <;> rfl

/-- The verdict of a check whose predicate answered `held`, and the mode it was decided in. -/
def Verdict (held : Bool) (verdict : Except ContractError Bool) (mode : FailureMode) : Prop :=
  verdict = .ok held ∨ held = false ∧ ∃ v, verdict = .error (.violation v) ∧ mode = .throw

theorem upholds_examine
    {Q : Except ContractError Bool × Evaluation → World (ε × List (Mark κ ε)) → Prop}
    (host : Host κ ε) (f : Frame κ) (result : Option Value) (p : Guard × κ) (e : Evaluation)
    (w : World (ε × List (Mark κ ε)))
    (hI : ∀ w', w'.aside = w.aside ++ [.started (f.checkCallee result p) w.main] → I w')
    (hQ : ∀ held verdict e' w', Verdict held verdict (f.modeIn w'.main) →
      w'.aside = w.aside ++ Turn.marks ⟨f.checkCallee result p, w.main, .verdict held⟩ →
      Q (verdict, e') w') :
    (f.examine host.watched result p.1 p.2 e).Upholds Undisturbed I Q w := by
  simp only [examine, test_watched, Future.bind_eq, Future.upholds_bind]
  refine upholds_turn _ _ _ _ _ _ hI fun held e' w₁ hw₁ => ?_
  obtain ⟨verdict, w₂, hobs, hv⟩ := exec_observe host f result p.1 w₁.main held
  simp only [Future.upholds_lift, exec_observe_watched, Action.exec_widen, hobs]
  refine hQ held _ _ (w₂.beside w₁.aside) ?_ hw₁
  rcases hv with rfl | ⟨rfl, v, rfl, hmode⟩
  · exact .inl rfl
  · exact .inr ⟨rfl, v, rfl, hmode⟩

/-- The checks before the operation keep the order, and the call goes on if all of them hold. -/
theorem upholds_enter
    {Q : Except ContractError Bool × Evaluation → World (ε × List (Mark κ ε)) → Prop}
    (host : Host κ ε) (f : Frame κ) (checks : List (Guard × κ)) (e : Evaluation)
    (w : World (ε × List (Mark κ ε)))
    (hI : ∀ marks w', InOrder (checks.map f.entryAt) marks → w'.aside = w.aside ++ marks → I w')
    (hgo : ∀ ts e' w', Passed (checks.map f.entryAt) ts →
      w'.aside = w.aside ++ ts.flatMap Turn.marks → Q (.ok true, e') w')
    (hstop : ∀ verdict e' w' ps p qs (ts : List (Turn κ ε)) moment,
      checks.map f.entryAt = ps ++ p :: qs → Passed ps ts →
      w'.aside = w.aside ++ (ts ++ [p.failed moment]).flatMap Turn.marks →
      Verdict false verdict (f.modeIn w'.main) → Q (verdict, e') w') :
    (f.enter host.watched checks e).Upholds Undisturbed I Q w := by
  induction checks generalizing e w with
  | nil => exact hgo [] e w .nil (by simp)
  | cons p rest ih =>
    simp only [enter, Future.bind_eq, Future.upholds_bind]
    refine upholds_examine host f none p e w ?_ ?_
    · exact fun w' hw' => hI _ w' (.waiting (f.entryAt p) _ _) hw'
    intro held verdict e' w₁ hv hw₁
    rcases hv with rfl | ⟨rfl, v, rfl, hmode⟩
    · cases held with
      | false =>
        exact hstop _ _ w₁ [] (f.entryAt p) _ [] w.main rfl .nil
          (by simpa [Position.failed, entryAt] using hw₁) (.inl rfl)
      | true =>
        -- the check held, and its turn stands in front of those that follow
        have honward : (f.entryAt p).onward (.verdict true) := rfl
        refine ih e' w₁ ?_ ?_ ?_
        · intro marks w' hm hw'
          refine hI _ w' (.onward w.main honward hm) ?_
          simp [hw', hw₁, Turn.marks, entryAt]
        · intro ts e'' w' hts hw'
          refine hgo (⟨f.checkCallee none p, w.main, .verdict true⟩ :: ts) e'' w'
            (.cons ⟨rfl, rfl⟩ hts) ?_
          simp [hw', hw₁]
        · intro verdict e'' w' ps q qs ts moment hps hts hw'
          refine hstop verdict e'' w' (f.entryAt p :: ps) q qs
            (⟨f.checkCallee none p, w.main, .verdict true⟩ :: ts) moment ?_
            (.cons ⟨rfl, rfl⟩ hts) ?_
          · rw [List.map_cons, hps, List.cons_append]
          · simp [hw', hw₁]
    · exact hstop _ _ w₁ [] (f.entryAt p) _ [] w.main rfl .nil
          (by simpa [Position.failed, entryAt] using hw₁)
        (.inr ⟨rfl, v, rfl, hmode⟩)

/-- The checks after the operation keep the order, and the call goes on after each of them, unless
it raised a violation. -/
theorem upholds_leave
    {Q : Except ContractError Unit × Evaluation → World (ε × List (Mark κ ε)) → Prop}
    (host : Host κ ε) (f : Frame κ) (result : Value) (checks : List (Guard × κ)) (e : Evaluation)
    (w : World (ε × List (Mark κ ε)))
    (hI : ∀ marks w', InOrder (checks.map (f.exitAt result)) marks →
      w'.aside = w.aside ++ marks → I w')
    (hgo : ∀ ts e' w', Passed (checks.map (f.exitAt result)) ts →
      w'.aside = w.aside ++ ts.flatMap Turn.marks → Q (.ok (), e') w')
    (hstop : ∀ v e' w' ps p qs (ts : List (Turn κ ε)) moment,
      checks.map (f.exitAt result) = ps ++ p :: qs → Passed ps ts →
      w'.aside = w.aside ++ (ts ++ [p.failed moment]).flatMap Turn.marks →
      f.modeIn w'.main = .throw → Q (.error (.violation v), e') w') :
    (f.leave host.watched result checks e).Upholds Undisturbed I Q w := by
  induction checks generalizing e w with
  | nil => exact hgo [] e w .nil (by simp)
  | cons p rest ih =>
    simp only [leave, Future.bind_eq, Future.upholds_bind]
    refine upholds_examine host f (some result) p e w ?_ ?_
    · exact fun w' hw' => hI _ w' (.waiting (f.exitAt result p) _ _) hw'
    intro held verdict e' w₁ hv hw₁
    rcases hv with rfl | ⟨rfl, v, rfl, hmode⟩
    · have honward : (f.exitAt result p).onward (.verdict held) := trivial
      refine ih e' w₁ ?_ ?_ ?_
      · intro marks w' hm hw'
        refine hI _ w' (.onward w.main honward hm) ?_
        simp [hw', hw₁, Turn.marks, exitAt]
      · intro ts e'' w' hts hw'
        refine hgo (⟨f.checkCallee (some result) p, w.main, .verdict held⟩ :: ts) e'' w'
          (.cons ⟨rfl, trivial⟩ hts) ?_
        simp [hw', hw₁]
      · intro v e'' w' ps q qs ts moment hps hts hw'
        refine hstop v e'' w' (f.exitAt result p :: ps) q qs
          (⟨f.checkCallee (some result) p, w.main, .verdict held⟩ :: ts) moment ?_
          (.cons ⟨rfl, trivial⟩ hts) ?_
        · rw [List.map_cons, hps, List.cons_append]
        · simp [hw', hw₁]
    · exact hstop v _ w₁ [] (f.exitAt result p) _ [] w.main rfl .nil
        (by simpa [Position.failed, exitAt] using hw₁) hmode

end Upholds

/-! ## Calls -/

/-- The marks of a call keep its order, whatever its operation gives. -/
def Orderly (f : Frame κ) (w : World (ε × List (Mark κ ε))) : Prop :=
  ∃ result, InOrder (f.script result) w.aside

/-- A call has ended in one of its ways, with nothing left open. -/
def Ended (f : Frame κ) (r : Except ContractError Value) (w : World (ε × List (Mark κ ε))) : Prop :=
  ∃ ts, w.aside = ts.flatMap Turn.marks ∧ f.Closed (f.modeIn w.main) ts r

theorem upholds_stages (host : Host κ ε) (f : Frame κ) (operation : Action (World ε) (Completion ε))
    (w : World (ε × List (Mark κ ε))) (hw : w.aside = []) :
    (f.stages host.watched
      (watch (.operation f.receiver f.input) .outcome operation)).Upholds Undisturbed f.Orderly
        (fun r => f.Ended r.1) w := by
  simp only [stages, Future.bind_eq, Future.upholds_bind]
  refine upholds_enter host f f.spec.entry {} w ?_ ?_ ?_
  · intro marks w' hm hw'
    refine ⟨.undefined, ?_⟩
    rw [hw', hw]
    exact hm.append _
  · intro ts e₁ w₁ hts hw₁
    rw [hw, List.nil_append] at hw₁
    simp only [Future.upholds_bind]
    refine upholds_turn _ _ _ _ _ _ ?_ ?_
    · intro w₂ hw₂
      refine ⟨.undefined, ?_⟩
      rw [hw₂, hw₁]
      exact hts.inOrder (.waiting (f.core .undefined) _ _)
    rintro (err | result) e₂ w₂ hw₂
    · refine ⟨ts ++ [_], ?_, .failed w₁.main err hts⟩
      simp [hw₂, hw₁]
    simp only [Future.upholds_bind]
    have hcore : Passed [f.core result]
        [⟨.operation f.receiver f.input, w₁.main, .outcome (.ok result)⟩] :=
      .cons ⟨rfl, rfl⟩ .nil
    refine upholds_leave host f result f.spec.exit _ w₂ ?_ ?_ ?_
    · intro marks w₃ hm hw₃
      refine ⟨result, ?_⟩
      rw [hw₃, hw₂, hw₁, List.append_assoc]
      exact hts.inOrder (hcore.inOrder hm)
    · intro ts' e₃ w₃ hts' hw₃
      refine ⟨_, ?_, .returned (hts.append (hcore.append hts'))⟩
      simp [hw₃, hw₂, hw₁]
    · intro v e₃ w₃ ps p qs ts' moment hps hts' hw₃ hmode
      refine ⟨_, ?_, .raised moment v hps (hts.append (hcore.append hts')) hmode⟩
      simp [hw₃, hw₂, hw₁]
  · intro verdict e₁ w₁ ps p qs ts moment hps hts hw₁ hv
    rw [hw, List.nil_append] at hw₁
    rcases hv with rfl | ⟨-, v, rfl, hmode⟩
    · exact ⟨_, hw₁, .refused moment hps hts⟩
    · exact ⟨_, hw₁, .refusedRaised moment v hps hts hmode⟩

theorem upholds_run (host : Host κ ε) (f : Frame κ) (operation : Action (World ε) (Completion ε))
    (w : World (ε × List (Mark κ ε))) (hw : w.aside = []) :
    (f.run host.watched
      (watch (.operation f.receiver f.input) .outcome operation)).Upholds Undisturbed f.Orderly
        (fun r => f.Ended r.1) w := by
  simp only [run, Future.bind_eq, Future.upholds_bind]
  refine (upholds_stages host f operation w hw).mono ?_
  rintro ⟨r, e⟩ w' ⟨ts, hts, hr⟩
  simp only [Future.upholds_lift, World.exec_log]
  exact ⟨ts, hts, hr⟩

theorem Closed.inOrder {f : Frame κ} {mode : FailureMode} {ts : List (Turn κ ε)}
    {r : Except ContractError Value} (h : f.Closed mode ts r) :
    ∃ result, InOrder (f.script result) (ts.flatMap Turn.marks) := by
  -- the last turn of a call that was stopped may have settled to anything
  have hstop : ∀ {ps qs : List (Position κ)} {ts : List (Turn κ ε)} (p : Position κ)
      (moment : World ε) (reply : Reply), Passed ps ts →
      InOrder (ps ++ p :: qs) ((ts ++ [Turn.mk p.callee moment reply]).flatMap Turn.marks) := by
    intro ps qs ts p moment reply hts
    rw [List.flatMap_append]
    exact hts.inOrder (.settled p qs moment reply)
  cases h with
  | refused moment hp hts =>
    refine ⟨.undefined, ?_⟩
    rw [script, hp, List.append_assoc]
    exact hstop _ moment _ hts
  | refusedRaised moment v hp hts _ =>
    refine ⟨.undefined, ?_⟩
    rw [script, hp, List.append_assoc]
    exact hstop _ moment _ hts
  | failed moment err hts => exact ⟨.undefined, hstop (f.core .undefined) moment _ hts⟩
  | @raised result ps qs p ts moment v hp hts _ =>
    refine ⟨result, ?_⟩
    rw [script, hp, ← List.cons_append, ← List.append_assoc]
    exact hstop p moment (.verdict false) hts
  | @returned result _ hts =>
    refine ⟨result, ?_⟩
    have := Passed.inOrder hts (.outset [])
    simpa using this

end Frame

/-- What a call shows after it was started and polled is what its protocol shows after one poll
more, except that a call whose protocol ended while it was started has to be asked once. -/
theorem invoke_polls (host : Host κ ε) (f : Frame κ) (operation : Action (World ε) (Completion ε))
    (changes : List (World ε → World ε)) (w : World ε) :
    let call := (invoke host f operation).polls changes w
    let protocol := (f.run host operation).polls (id :: changes) w
    (∀ x, call.1.result? = some x → protocol.1.result?.map (·.map Prod.fst) = some x) ∧
      (call.2 = protocol.2 ∨ ∃ change ∈ changes, call.2 = change protocol.2) := by
  simp only [Action.polls, invoke, Action.exec_ofFun, Future.polls, id]
  rcases (f.run host operation).poll w with ⟨⟨r, e⟩ | c | rest, w'⟩
  · by_cases hsus : e.isSuspended
    · simp only [if_pos hsus]
      cases changes with
      | nil => exact ⟨fun _ h => (by simp [Polled.result?, Future.polls] at h), .inl rfl⟩
      | cons change rest => exact ⟨fun _ h => h, .inr ⟨change, by simp, rfl⟩⟩
    · simp only [if_neg hsus]
      exact ⟨fun _ h => h, .inl trivial⟩
  · exact ⟨fun _ h => h, .inl rfl⟩
  · obtain ⟨hresult, hstate⟩ := Future.polls_bind_done Prod.fst rest changes w'
    exact ⟨fun _ h => hresult.symm.trans h, .inl hstate⟩

theorem aside_of_mem_changes {changes : List (World ε → World ε)}
    {change : World (ε × List (Mark κ ε)) → World (ε × List (Mark κ ε))}
    (h : change ∈ changes.map World.changeMain) (w : World (ε × List (Mark κ ε))) :
    (change w).aside = w.aside := by
  obtain ⟨_, _, rfl⟩ := List.mem_map.mp h
  rfl

/-- What a watched protocol has come to keeps the order, and has ended in one of its ways if it has
ended. -/
theorem Frame.orderly_of_pollUpholds {f : Frame κ}
    {x : Polled (World (ε × List (Mark κ ε))) (Except ContractError Value × Evaluation) ×
      World (ε × List (Mark κ ε))}
    (h : Future.PollUpholds Undisturbed f.Orderly (fun r => f.Ended r.1) x) : f.Orderly x.2 := by
  rcases x with ⟨⟨r, e⟩ | c | rest, w⟩
  · obtain ⟨ts, hts, hr⟩ := h
    obtain ⟨result, horder⟩ := hr.inOrder
    exact ⟨result, hts ▸ horder⟩
  · exact h
  · exact h.1

/-- The order of a call. A call is started in any state, with any callbacks, and polled any number
of times while others do what they like to the state. Marking its callbacks does not change what it
shows. They are started in the order of its positions, each position at most once, and after a
position only when the reply there lets the call go on. A call that has come to an answer has no
callback left open, and has been through the whole order unless it was stopped by a false check
before the operation, by an error of the operation, or by a violation raised in throw mode. -/
theorem calls_in_order (host : Host κ ε) (f : Frame κ) (operation : Action (World ε) (Completion ε))
    (changes : List (World ε → World ε)) (w : World ε) :
    let call := (invoke host f operation).polls changes w
    let protocol := (f.run host operation).polls (id :: changes) w
    let seen := (invoke host.watched f (watch (.operation f.receiver f.input) .outcome
      operation)).polls (changes.map World.changeMain) (w.beside [])
    (seen.1.result? = call.1.result? ∧ seen.2.main = call.2) ∧
      (∃ result, InOrder (f.script result) seen.2.aside ∧
        startedIn seen.2.aside <+: (f.script result).map Position.callee) ∧
      ∀ r, call.1.result? = some (.ok r) →
        ∃ ts, seen.2.aside = ts.flatMap Turn.marks ∧ f.Closed (f.modeIn protocol.2) ts r := by
  intro call protocol seen
  let marked := (f.run host.watched (watch (.operation f.receiver f.input) .outcome
    operation)).polls ((id :: changes).map World.changeMain) (w.beside [])
  have hseen : seen.1.result? = call.1.result? ∧ seen.2.main = call.2 :=
    watched_call host f _ operation changes (w.beside [])
  have hmarked : marked.2.main = protocol.2 :=
    (watched_polls host f _ operation (id :: changes) (w.beside [])).2
  obtain ⟨hresult, hstate⟩ := invoke_polls host.watched f
    (watch (.operation f.receiver f.input) .outcome operation) (changes.map World.changeMain)
    (w.beside [])
  have haside : seen.2.aside = marked.2.aside := by
    rcases hstate with hstate | ⟨change, hmem, hstate⟩
    · exact congrArg World.aside hstate
    · exact (congrArg World.aside hstate).trans (aside_of_mem_changes hmem _)
  have hupholds : Future.PollUpholds Undisturbed f.Orderly (fun r => f.Ended r.1) marked := by
    refine Future.upholds_polls ?_ ⟨.undefined, .outset _⟩ fun w' hw' =>
      Frame.upholds_run host f operation w' hw'
    exact fun change hmem w' => aside_of_mem_changes hmem w'
  refine ⟨hseen, ?_, ?_⟩
  · obtain ⟨result, horder⟩ := Frame.orderly_of_pollUpholds hupholds
    rw [← haside] at horder
    exact ⟨result, horder, horder.started_prefix⟩
  · intro r hr
    have hfinished : marked.1.result?.map (·.map Prod.fst) = some (.ok r) :=
      hresult (.ok r) (hseen.1.trans hr)
    rw [haside, ← hmarked]
    rcases marked with ⟨⟨r', e⟩ | c | rest, w'⟩
    · cases hfinished
      exact hupholds
    · cases hfinished
    · cases hfinished

end Contracts
