import Contracts.Proofs.Observing
import Contracts.Proofs.Simulation.Protocol
import Mathlib.Order.CompleteBooleanAlgebra
import Mathlib.Order.CompletePartialOrder

/-!
# Contracts.Proofs.Watching

Calls that are watched from outside.

* `World.beside`, `main`, `aside` — a state with something kept beside it that no callback sees.
* `Mark`         — the start of a callback, or the reply it has settled to.
* `watch`        — a callback that is marked when it starts and when it settles.
* `Host.watched` — a host whose predicates and operations are watched.
* `watched_polls`, `watched_call` — watching changes nothing else: poll by poll a watched call
  shows the same.
-/

namespace Contracts

variable {κ ε γ α : Type}

/-! ## Keeping something beside the state -/

namespace World

/-- The state with something beside it. -/
def beside (w : World ε) (g : γ) : World (ε × γ) where
  heap := w.heap
  nextSymbol := w.nextSymbol
  mode := w.mode
  entries := w.entries
  own := (w.own, g)

def main (w : World (ε × γ)) : World ε where
  heap := w.heap
  nextSymbol := w.nextSymbol
  mode := w.mode
  entries := w.entries
  own := w.own.1

def aside (w : World (ε × γ)) : γ := w.own.2

@[simp] theorem main_beside (w : World ε) (g : γ) : (w.beside g).main = w := rfl

@[simp] theorem aside_beside (w : World ε) (g : γ) : (w.beside g).aside = g := rfl

/-- A change of the state that leaves alone what is kept beside it. -/
def changeMain (change : World ε → World ε) (w : World (ε × γ)) : World (ε × γ) :=
  (change w.main).beside w.aside

end World

/-- The same action on a state with something beside it. -/
def Action.widen (a : Action (World ε) α) : Action (World (ε × γ)) α :=
  .ofFun fun w => ((a.exec w.main).1, (a.exec w.main).2.beside w.aside)

@[simp] theorem Action.exec_widen (a : Action (World ε) α) (w : World (ε × γ)) :
    a.widen.exec w = ((a.exec w.main).1, (a.exec w.main).2.beside w.aside) := rfl

def Future.widen : Future (World ε) α → Future (World (ε × γ)) α
  | .done a => .done a
  | .abort c => .abort c
  | .get next => .get fun w => (next w.main).widen
  | .put s rest => .get fun w => .put (s.beside w.aside) rest.widen
  | .wait rest => .wait rest.widen

theorem Future.poll_widen (t : Future (World ε) α) (w : World (ε × γ)) :
    t.widen.poll w = match t.poll w.main with
      | (.finished a, s) => (.finished a, s.beside w.aside)
      | (.aborted c, s) => (.aborted c, s.beside w.aside)
      | (.waiting rest, s) => (.waiting rest.widen, s.beside w.aside) := by
  induction t generalizing w with
  | done a => rfl
  | abort c => rfl
  | get next ih => exact ih w.main w
  | put s rest ih => exact ih (s.beside w.aside)
  | wait rest _ => rfl

/-! ## Marks -/

/-- Who is started, and with what. -/
inductive Callee (κ : Type) where
  | holds (code : κ) (receiver : Value)
  | accepts (code : κ) (values : List Value)
  | operation (receiver : Value) (input : Input)

inductive Reply where
  | verdict (held : Bool)
  | outcome (r : Except ContractError Value)

/-- What is seen of a callback. -/
inductive Mark (κ ε : Type) where
  /-- It was started, in this state. -/
  | started (callee : Callee κ) (moment : World ε)
  | settled (reply : Reply)

/-- Nobody but the watched callbacks themselves changes the marks. -/
def Undisturbed (w w' : World (ε × List (Mark κ ε))) : Prop := w'.aside = w.aside

def note (m : World ε → Mark κ ε) : Action (World (ε × List (Mark κ ε))) Unit :=
  .ofFun fun w => (.ok (), w.main.beside (w.aside ++ [m w.main]))

@[simp] theorem exec_note (m : World ε → Mark κ ε) (w : World (ε × List (Mark κ ε))) :
    (note m).exec w = (.ok (), w.main.beside (w.aside ++ [m w.main])) := rfl

/-- Notes the reply, and answers it. -/
def settled (reply : α → Reply) (a : α) : Action (World (ε × List (Mark κ ε))) α := do
  note fun _ => .settled (reply a)
  pure a

theorem exec_settled (reply : α → Reply) (a : α) (w : World (ε × List (Mark κ ε))) :
    (settled reply a).exec w = (.ok a, w.main.beside (w.aside ++ [.settled (reply a)])) := rfl

/-- Marks a callback when it is started, and when its answer is there. -/
def watch (callee : Callee κ) (reply : α → Reply)
    (start : Action (World ε) (Eventual (World ε) α)) :
    Action (World (ε × List (Mark κ ε))) (Eventual (World (ε × List (Mark κ ε))) α) := do
  note (.started callee)
  match ← start.widen with
  | .ready a => return .ready (← settled reply a)
  | .pending t => return .pending (t.widen.bind fun a => .lift (settled reply a))

/-- A start is marked at once, and so is an answer that is there. -/
theorem exec_watch (callee : Callee κ) (reply : α → Reply)
    (start : Action (World ε) (Eventual (World ε) α)) (w : World (ε × List (Mark κ ε))) :
    (watch callee reply start).exec w = match start.exec w.main with
      | (.ok (.ready a), s) => (.ok (.ready a),
          s.beside (w.aside ++ [.started callee w.main] ++ [.settled (reply a)]))
      | (.ok (.pending t), s) => (.ok (.pending (t.widen.bind fun a => .lift (settled reply a))),
          s.beside (w.aside ++ [.started callee w.main]))
      | (.error c, s) => (.error c, s.beside (w.aside ++ [.started callee w.main])) := by
  simp only [watch, Action.exec_bind, exec_note, Action.exec_widen, World.main_beside,
    World.aside_beside]
  rcases start.exec w.main with ⟨c | a | t, s⟩ <;> rfl

def Host.watched (host : Host κ ε) : Host κ (ε × List (Mark κ ε)) where
  accepts code vs := watch (.accepts code vs) .verdict (host.accepts code vs)
  holds code v := watch (.holds code v) .verdict (host.holds code v)
  operate code v i := watch (.operation v i) .outcome (host.operate code v i)
  read code v := (host.read code v).widen
  setUp code v vs := (host.setUp code v vs).widen
  deliver code e := (host.deliver code e).widen

/-! ## While a callback is watched -/

/-- A future that does not see what is kept beside the state does not change it either. -/
theorem upholds_widen {R : World (ε × γ) → World (ε × γ) → Prop} {I : World (ε × γ) → Prop}
    {P : γ → Prop} {Q : α → World (ε × γ) → Prop}
    (hR : ∀ w w', P w.aside → R w w' → P w'.aside) (hI : ∀ w, P w.aside → I w)
    (hQ : ∀ a w, P w.aside → Q a w) (t : Future (World ε) α) (w : World (ε × γ))
    (hw : P w.aside) : t.widen.Upholds R I Q w := by
  induction t generalizing w with
  | done a => exact hQ a w hw
  | abort c => exact hI w hw
  | get next ih => exact ih w.main w hw
  | put s rest ih => exact ih (s.beside w.aside) hw
  | wait rest ih => exact ⟨hI w hw, fun w' hw' => ih w' (hR w w' hw hw')⟩

/-- A stage marks its start, and then its reply; in between the marks stay as they are, as far as
others allow it. -/
theorem upholds_settle {R : World (ε × List (Mark κ ε)) → World (ε × List (Mark κ ε)) → Prop}
    {I : World (ε × List (Mark κ ε)) → Prop} {P : List (Mark κ ε) → Prop}
    {Q : α × Evaluation → World (ε × List (Mark κ ε)) → Prop}
    (hR : ∀ w w', P w.aside → R w w' → P w'.aside) (hI : ∀ w, P w.aside → I w) (stage : Stage)
    (e : Evaluation) (callee : Callee κ) (reply : α → Reply)
    (start : Action (World ε) (Eventual (World ε) α)) (w : World (ε × List (Mark κ ε)))
    (hstart : P (w.aside ++ [.started callee w.main]))
    (hQ : ∀ a e' (w' : World (ε × List (Mark κ ε))), P w'.aside →
      Q (a, e') (w'.main.beside (w'.aside ++ [.settled (reply a)]))) :
    (Frame.settle stage e (watch callee reply start)).Upholds R I Q w := by
  simp only [Frame.settle, Future.bind_eq, Future.upholds_bind, Future.upholds_lift, exec_watch]
  rcases start.exec w.main with ⟨c | a | t, s⟩
  · exact hI _ hstart
  · exact hQ a e (s.beside _) hstart
  · simp only [Future.upholds_bind, Future.upholds_lift, exec_settled]
    exact upholds_widen hR hI (fun a w' hw' => hQ a _ w' hw') t _ hstart

/-! ## What is not watched -/

theorem exec_report_beside (override : Option FailureMode) (v : Violation) (w : World (ε × γ)) :
    (report override v).exec w = (report override v).widen.exec w := by
  rcases override with _ | _ | _
  · simp only [report, effectiveMode, Action.exec_bind, World.exec_failureMode, Action.exec_widen]
    have hmode : w.main.mode = w.mode := rfl
    rw [hmode]
    cases w.mode.read.1 <;> rfl
  · rfl
  · rfl

theorem exec_emit_watched (host : Host κ ε) (t : TraceSetting κ) (e : TraceEvent)
    (w : World (ε × List (Mark κ ε))) :
    (t.emit host.watched e).exec w = (t.emit host e).widen.exec w := by
  cases t with
  | disabled => rfl
  | default => rfl
  | sink code =>
    simp only [TraceSetting.emit, Action.exec_bind, World.exec_readHeap, World.exec_log,
      Action.exec_tryCatch, Host.watched, Action.exec_widen, World.main]
    rcases (host.deliver code e).exec _ with ⟨c | _, s⟩
    · rfl
    · rfl

theorem exec_observe_watched (host : Host κ ε) (f : Frame κ) (result : Option Value) (g : Guard)
    (held : Bool) (w : World (ε × List (Mark κ ε))) :
    (f.observe host.watched result g held).exec w =
      (f.observe host result g held).widen.exec w := by
  simp only [Frame.observe, Action.exec_bind, exec_emit_watched, Action.exec_widen]
  rcases (f.spec.trace.emit host (f.traceEvent result g held)).exec w.main with ⟨c | _, s⟩
  · rfl
  · cases held with
    | true => rfl
    | false =>
      rw [if_neg Bool.false_ne_true, if_neg Bool.false_ne_true]
      simp only [Action.exec_bind, World.exec_readHeap, exec_report_beside, Action.exec_widen]
      rfl

/-! ## What watching does not change -/

/-- A run with something kept beside its state, and the same run without it. -/
def leavingAside (ε γ : Type) : Comparison Unit (ε × γ) ε where
  agree _ w w' := w.main = w'
  move _ _ _ _ _ _ := True
  move_refl _ := trivial
  move_trans _ _ := trivial
  le_of_move _ := le_rfl
  value _ := Eq
  value_mono _ h := h
  undefined _ := rfl
  render := by rintro _ w _ v _ rfl rfl; rfl
  toJson := by rintro _ w _ v _ rfl rfl; rfl
  label := by rintro _ w _ v _ site rfl rfl; rfl
  log := by rintro _ w _ e _ rfl he; rw [he.eq]; exact ⟨rfl, trivial⟩
  readMode := by rintro _ w _ rfl; exact ⟨rfl, rfl, trivial⟩

section

variable {R : Unit → α → α → Prop} (hR : ∀ a, R () a a)

include hR

theorem acts_widen (a : Action (World ε) α) : (leavingAside ε γ).Acts R () a.widen a := by
  rintro _ _ w _ rfl
  refine ⟨(), rfl, trivial, ?_⟩
  simp only [Action.exec_widen]
  rcases a.exec w.main with ⟨c | v, s⟩
  · exact .error c
  · exact .ok (hR v)

theorem runs_widen (t : Future (World ε) α) : (leavingAside ε γ).Runs R () t.widen t := by
  refine ⟨fun _ p q => p = q.widen, ?_, rfl⟩
  rintro _ _ t rfl _ _ w _ rfl
  rw [Future.poll_widen]
  rcases t.poll w.main with ⟨a | c | rest, s⟩
  · exact ⟨(), rfl, trivial, .finished (hR a)⟩
  · exact ⟨(), rfl, trivial, .aborted c⟩
  · exact ⟨(), rfl, trivial, .waiting rfl⟩

/-- A watched callback starts as the callback itself. -/
theorem starts_watch (callee : Callee κ) (reply : α → Reply)
    (start : Action (World ε) (Eventual (World ε) α)) :
    (leavingAside ε (List (Mark κ ε))).Starts R () (watch callee reply start) start := by
  rintro _ _ w _ rfl
  refine ⟨(), ?_⟩
  rw [exec_watch]
  rcases start.exec w.main with ⟨c | a | t, s⟩
  · exact ⟨rfl, trivial, .error c⟩
  · exact ⟨rfl, trivial, .ok (.ready (hR a))⟩
  · refine ⟨rfl, trivial, .ok (.pending ?_)⟩
    have hdone : (leavingAside ε (List (Mark κ ε))).Runs R ()
        (t.widen.bind fun a => .lift (settled reply a)) (t.bind .done) := by
      refine Simulation.runs_bind (runs_widen (R := fun _ => Eq) (fun _ => rfl) t) ?_
      rintro _ _ a _ rfl
      refine Simulation.runs_of_pollsTo ?_
      rintro _ _ w _ rfl
      rw [Future.poll_lift, exec_settled]
      exact ⟨(), rfl, trivial, .finished (hR a)⟩
    rwa [Future.bind_done] at hdone

end

theorem sameChecks_watched (host : Host κ ε) (spec : Spec κ) (v : Value) (i : Input) :
    (leavingAside ε (List (Mark κ ε))).SameChecks () host.watched host spec v v i i where
  holds _ _ := starts_watch (fun _ => rfl) _ _ _
  before _ _ := starts_watch (fun _ => rfl) _ _ _
  after := by
    rintro _ _ _ _ r _ rfl
    exact starts_watch (fun _ => rfl) _ _ _
  deliver _ _ _ _ _ _ he := he.eq ▸ acts_widen (fun _ => rfl) _

theorem sameFrame_watched (host : Host κ ε) (f : Frame κ) :
    (leavingAside ε (List (Mark κ ε))).SameFrame () host.watched host f f :=
  (sameChecks_watched host f.spec f.receiver f.input).sameFrame (.refl (fun _ => rfl) f.input)
    f.site f.className

theorem starts_operation (callee : Callee κ) (operation : Action (World ε) (Completion ε)) :
    (leavingAside ε (List (Mark κ ε))).Starts
      (leavingAside ε (List (Mark κ ε))).OutcomeSame () (watch callee .outcome operation)
      operation :=
  starts_watch (fun r => .refl (fun _ => rfl) r) callee .outcome operation

theorem forall₂_changeMain (changes : List (World ε → World ε)) :
    List.Forall₂ (fun c c' => ∀ k s s', (leavingAside ε γ).agree k s s' →
      (leavingAside ε γ).agree k (c s) (c' s')) (changes.map World.changeMain) changes := by
  rw [List.forall₂_map_left_iff]
  exact List.forall₂_same.mpr fun _ _ _ _ _ h => by rw [← h]; rfl

section

variable (host : Host κ ε) (f : Frame κ) (callee : Callee κ)
  (operation : Action (World ε) (Completion ε)) (changes : List (World ε → World ε))
  (w : World (ε × List (Mark κ ε)))

/-- A watched protocol is the protocol itself, poll by poll, whatever others do in between. -/
theorem watched_polls :
    let seen := (f.run host.watched (watch callee .outcome operation)).polls
      (changes.map World.changeMain) w
    let protocol := (f.run host operation).polls changes w.main
    seen.1.result? = protocol.1.result? ∧ seen.2.main = protocol.2 := by
  obtain ⟨_, hs, hshows⟩ := Simulation.runs_polls (forall₂_changeMain changes)
    (Comparison.runs_run (sameFrame_watched host f) (starts_operation callee operation))
    (s := w) rfl
  refine ⟨(hshows.mono ?_ fun _ _ h => h).result?_eq, hs⟩
  exact fun _ _ h => Prod.ext (Ends.eq h.1) (SameEvaluation.eq h.2)

theorem watched_call :
    let seen := (invoke host.watched f (watch callee .outcome operation)).polls
      (changes.map World.changeMain) w
    let call := (invoke host f operation).polls changes w.main
    seen.1.result? = call.1.result? ∧ seen.2.main = call.2 := by
  obtain ⟨_, hs, hshows⟩ := Simulation.starts_polls (forall₂_changeMain changes)
    (Comparison.starts_invoke (sameFrame_watched host f) (starts_operation callee operation))
    (s := w) rfl
  exact ⟨(hshows.mono (fun _ _ h => h.eq) fun _ _ h => h).result?_eq, hs⟩

end

end Contracts
