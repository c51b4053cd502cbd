import Contracts.Proofs.Deeds

/-!
# Contracts.Proofs.Halting

Calls that have not come to their end.

* `Future.Halts`, `Action.Stalls` — a future or a callback gives up, or others leave it waiting.
* `Frame.Halted`   — the ways in which a call comes to such a place, and what it has done so far.
* `Frame.Standing` — a call as it stands: it has ended, or it has halted.
* `Operation.exists_standing` — every call stands somewhere, however often it was polled.
-/

namespace Contracts

variable {σ α β : Type}

/-! ## Futures and callbacks -/

/-- What a poll has come to without an end: the cause, or none while the future waits. -/
def Polled.halt? : Polled σ α → Option (Option Abort)
  | .finished _ => none
  | .aborted c => some (some c)
  | .waiting _ => some none

namespace Future

/-- The future, taken up in a state, does not end: it gives up for a cause, or it is left waiting.
Whenever it has waited before, others have changed the state as `R` allows. -/
inductive Halts (R : σ → σ → Prop) : Future σ α → σ → Option Abort → σ → Prop where
  | abort (c : Abort) (s : σ) : Halts R (.abort c) s (some c) s
  | waiting (rest : Future σ α) (s : σ) : Halts R (.wait rest) s none s
  | get {next : σ → Future σ α} {s s' : σ} {c : Option Abort} (h : Halts R (next s) s c s') :
      Halts R (.get next) s c s'
  | put {rest : Future σ α} {s s₁ s' : σ} {c : Option Abort} (h : Halts R rest s₁ c s') :
      Halts R (.put s₁ rest) s c s'
  | wait {rest : Future σ α} {s s₁ s' : σ} {c : Option Abort} (hs : R s s₁)
      (h : Halts R rest s₁ c s') : Halts R (.wait rest) s c s'

variable {R : σ → σ → Prop} {t : Future σ α} {s s' : σ} {c : Option Abort}

theorem not_halts_done {a : α} : ¬ (Future.done a).Halts R s c s' := by
  rintro ⟨⟩

theorem halts_get {next : σ → Future σ α} :
    (Future.get next).Halts R s c s' ↔ (next s).Halts R s c s' :=
  ⟨fun h => by cases h with | get h => exact h, .get⟩

theorem halts_put {rest : Future σ α} {s₁ : σ} :
    (Future.put s₁ rest).Halts R s c s' ↔ rest.Halts R s₁ c s' :=
  ⟨fun h => by cases h with | put h => exact h, .put⟩

/-- A sequence of futures halts in the first one, or in the second one after the first one ended. -/
theorem halts_bind {f : α → Future σ β} (h : (t.bind f).Halts R s c s') :
    t.Halts R s c s' ∨ ∃ a s₁, t.Ends R s a s₁ ∧ (f a).Halts R s₁ c s' := by
  induction t generalizing s with
  | done a => exact .inr ⟨a, s, .done a s, h⟩
  | abort cause =>
    cases h with
    | abort => exact .inl (.abort cause _)
  | get next ih =>
    rcases ih _ (halts_get.mp h) with h | ⟨a, s₁, ha, h⟩
    · exact .inl (.get h)
    · exact .inr ⟨a, s₁, .get ha, h⟩
  | put s₂ rest ih =>
    rcases ih (halts_put.mp h) with h | ⟨a, s₁, ha, h⟩
    · exact .inl (.put h)
    · exact .inr ⟨a, s₁, .put ha, h⟩
  | wait rest ih =>
    cases h with
    | waiting => exact .inl (.waiting rest _)
    | wait hs h =>
      rcases ih h with h | ⟨a, s₁, ha, h⟩
      · exact .inl (.wait hs h)
      · exact .inr ⟨a, s₁, .wait hs ha, h⟩

/-- An action halts a sequence only if it gives up. -/
theorem halts_lift {act : Action σ α} (h : (lift act).Halts R s c s') :
    ∃ cause, c = some cause ∧ act.exec s = (.error cause, s') := by
  rw [lift, halts_get] at h
  split at h
  · exact absurd (halts_put.mp h) not_halts_done
  · next cause s₁ hexec =>
    cases halts_put.mp h with
    | abort => exact ⟨cause, rfl, hexec⟩

/-- A future halts in its first poll, or it waits and halts later. -/
theorem halts_iff_poll : t.Halts R s c s' ↔ match t.poll s with
    | (.finished _, _) => False
    | (.aborted cause, s₁) => c = some cause ∧ s' = s₁
    | (.waiting rest, s₁) => (c = none ∧ s' = s₁) ∨ ∃ s₂, R s₁ s₂ ∧ rest.Halts R s₂ c s' := by
  induction t generalizing s with
  | done a => exact iff_of_false not_halts_done id
  | abort cause =>
    constructor
    · rintro ⟨⟩
      exact ⟨rfl, rfl⟩
    · rintro ⟨rfl, rfl⟩
      exact .abort cause s'
  | get next ih => rw [halts_get, ih, poll]
  | put s₁ rest ih => rw [halts_put, ih, poll]
  | wait rest _ =>
    constructor
    · intro h
      cases h with
      | waiting => exact .inl ⟨rfl, rfl⟩
      | wait hs h => exact .inr ⟨_, hs, h⟩
    · rintro (⟨rfl, rfl⟩ | ⟨s₂, hs, h⟩)
      · exact .waiting rest s'
      · exact .wait hs h

/-- A future that was polled, with allowed changes in between, and has not ended. -/
theorem halts_of_polls {change : σ → σ} {changes : List (σ → σ)} {p : Polled σ α}
    (hR : ∀ c ∈ changes, ∀ s, R s (c s)) (h : t.polls (change :: changes) s = (p, s'))
    (hp : p.halt? = some c) : t.Halts R (change s) c s' := by
  induction changes generalizing t s change with
  | nil =>
    rw [halts_iff_poll]
    simp only [polls] at h
    rcases hpoll : t.poll (change s) with ⟨a | cause | rest, s₁⟩ <;> rw [hpoll] at h <;> cases h <;>
      cases hp
    · exact ⟨rfl, rfl⟩
    · exact .inl ⟨rfl, rfl⟩
  | cons next others ih =>
    rw [halts_iff_poll]
    rw [polls] at h
    rcases hpoll : t.poll (change s) with ⟨a | cause | rest, s₁⟩ <;> rw [hpoll] at h
    · cases h
      cases hp
    · cases h
      cases hp
      exact ⟨rfl, rfl⟩
    · have hrest := ih (fun c hc => hR c (List.mem_cons_of_mem _ hc)) h
      exact .inr ⟨next s₁, hR next List.mem_cons_self s₁, hrest⟩

end Future

namespace Action

/-- A callback that is started in `s` comes to no answer: it gives up at once, or it is waited for
and halts. -/
inductive Stalls (R : σ → σ → Prop) (start : Action σ (Eventual σ α)) (s : σ) :
    Option Abort → σ → Prop where
  | gaveUp {c : Abort} {s' : σ} (h : start.exec s = (.error c, s')) : Stalls R start s (some c) s'
  | pending {t : Future σ α} {c : Option Abort} {s₁ s' : σ}
      (h : start.exec s = (.ok (.pending t), s₁)) (ht : t.Halts R s₁ c s') : Stalls R start s c s'

end Action

/-! ## Calls -/

namespace Frame

variable {κ ε : Type} {R : World ε → World ε → Prop} {host : Host κ ε} {f : Frame κ}
  {operation : Action (World ε) (Completion ε)} {w w' : World ε} {c : Option Abort}

/-- The checks before the operation that were made are the first ones, in order. -/
theorem Enters.checks_prefix {checks : List (Guard × κ)} {xs : List (Finding κ ε)}
    {verdict : Except ContractError Bool} (h : f.Enters R host checks w xs verdict w') :
    (xs.map fun x => (x.guard, x.code)) <+: checks := by
  induction h with
  | nil => exact List.nil_prefix
  | onward _ _ _ ih => exact (List.prefix_cons_inj _).mpr ih
  | stopped checks => exact ⟨checks, rfl⟩

/-- So are those after it. -/
theorem Leaves.checks_prefix {value : Value} {checks : List (Guard × κ)}
    {ys : List (Finding κ ε)} {verdict : Except ContractError Unit}
    (h : f.Leaves R host value checks w ys verdict w') :
    (ys.map fun y => (y.guard, y.code)) <+: checks := by
  induction h with
  | nil => exact List.nil_prefix
  | onward _ _ _ ih => exact (List.prefix_cons_inj _).mpr ih
  | stopped checks => exact ⟨checks, rfl⟩

/-- How a call comes to a place where it goes no further: the predicate of one of its checks or the
operation was started in a state, and stalls. The account holds what was done before. -/
inductive Halted (R : World ε → World ε → Prop) (host : Host κ ε) (f : Frame κ)
    (operation : Action (World ε) (Completion ε)) (w : World ε) :
    Account κ ε → Stage → World ε → Option Abort → World ε → Prop where
  | entering {p : Guard × κ} {ps qs : List (Guard × κ)} {xs : List (Finding κ ε)}
      {w₁ w' : World ε} {c : Option Abort} (hp : f.spec.entry = ps ++ p :: qs)
      (h : f.Enters R host ps w xs (.ok true) w₁)
      (hc : (f.test host none p.2 p.1).Stalls R w₁ c w') :
      Halted R host f operation w ⟨xs, none, []⟩ (.check p.1) w₁ c w'
  | operating {xs : List (Finding κ ε)} {w₁ w' : World ε} {c : Option Abort}
      (h : f.Enters R host f.spec.entry w xs (.ok true) w₁) (hc : operation.Stalls R w₁ c w') :
      Halted R host f operation w ⟨xs, none, []⟩ .invocation w₁ c w'
  | leaving {p : Guard × κ} {ps qs : List (Guard × κ)} {xs ys : List (Finding κ ε)} {o : Run ε}
      {v : Value} {w₁ w' : World ε} {c : Option Abort}
      (h : f.Enters R host f.spec.entry w xs (.ok true) o.begun)
      (ho : operation.Settles R o.begun o.result o.waited o.ended) (hr : o.result = .ok v)
      (hp : f.spec.exit = ps ++ p :: qs) (hs : f.Leaves R host v ps o.ended ys (.ok ()) w₁)
      (hc : (f.test host (some v) p.2 p.1).Stalls R w₁ c w') :
      Halted R host f operation w ⟨xs, some o, ys⟩ (.check p.1) w₁ c w'

theorem halts_settle {α : Type} {stage : Stage} {e : Evaluation}
    {start : Action (World ε) (Eventual (World ε) α)} (h : (settle stage e start).Halts R w c w') :
    start.Stalls R w c w' := by
  simp only [settle, Future.bind_eq] at h
  rcases Future.halts_bind h with h | ⟨b | t, w₁, hstart, h⟩
  · obtain ⟨cause, rfl, hexec⟩ := Future.halts_lift h
    exact .gaveUp hexec
  · exact absurd h Future.not_halts_done
  · rcases Future.halts_bind h with h | ⟨_, _, _, h⟩
    · exact .pending (Future.ends_lift.mp hstart) h
    · exact absurd h Future.not_halts_done

/-- A check halts in its predicate: traces and reports come to an end. -/
theorem halts_examine {result : Option Value} {g : Guard} {code : κ} {e : Evaluation}
    (h : (f.examine host result g code e).Halts R w c w') :
    (f.test host result code g).Stalls R w c w' := by
  simp only [examine, Future.bind_eq] at h
  rcases Future.halts_bind h with h | ⟨⟨held, e₁⟩, w₁, _, h⟩
  · exact halts_settle h
  rcases Future.halts_bind h with h | ⟨_, _, _, h⟩
  · obtain ⟨cause, _, hexec⟩ := Future.halts_lift h
    obtain ⟨verdict, w₂, hobserve, _⟩ := exec_observe host f result g w₁ held
    rw [hobserve] at hexec
    cases hexec
  · exact absurd h Future.not_halts_done

theorem halts_enter {checks : List (Guard × κ)} {e : Evaluation}
    (h : (f.enter host checks e).Halts R w c w') :
    ∃ ps p qs xs w₁, checks = ps ++ p :: qs ∧ f.Enters R host ps w xs (.ok true) w₁ ∧
      (f.test host none p.2 p.1).Stalls R w₁ c w' := by
  induction checks generalizing e w with
  | nil => exact absurd h Future.not_halts_done
  | cons p rest ih =>
    simp only [enter, Future.bind_eq] at h
    rcases Future.halts_bind h with h | ⟨⟨verdict, e₁⟩, w₁, hexamine, hrest⟩
    · exact ⟨[], p, rest, [], w, rfl, .nil w, halts_examine h⟩
    rcases verdict with err | _ | _
    · exact absurd hrest Future.not_halts_done
    · exact absurd hrest Future.not_halts_done
    · obtain ⟨x, hg, hcode, hn, rfl, hx, _⟩ := ends_examine.mp hexamine
      obtain ⟨ps, q, qs, xs, w₂, rfl, hxs, hstalls⟩ := ih hrest
      refine ⟨p :: ps, q, qs, x :: xs, w₂, rfl, ?_, hstalls⟩
      rw [show p = (x.guard, x.code) by rw [hg, hcode]]
      exact .onward hn hx hxs

theorem halts_leave {result : Value} {checks : List (Guard × κ)} {e : Evaluation}
    (h : (f.leave host result checks e).Halts R w c w') :
    ∃ ps p qs ys w₁, checks = ps ++ p :: qs ∧ f.Leaves R host result ps w ys (.ok ()) w₁ ∧
      (f.test host (some result) p.2 p.1).Stalls R w₁ c w' := by
  induction checks generalizing e w with
  | nil => exact absurd h Future.not_halts_done
  | cons p rest ih =>
    simp only [leave, Future.bind_eq] at h
    rcases Future.halts_bind h with h | ⟨⟨verdict, e₁⟩, w₁, hexamine, hrest⟩
    · exact ⟨[], p, rest, [], w, rfl, .nil w, halts_examine h⟩
    cases verdict with
    | error err => exact absurd hrest Future.not_halts_done
    | ok held =>
      obtain ⟨x, hg, hcode, hn, rfl, hx, _⟩ := ends_examine.mp hexamine
      obtain ⟨ps, q, qs, ys, w₂, rfl, hys, hstalls⟩ := ih hrest
      refine ⟨p :: ps, q, qs, x :: ys, w₂, rfl, ?_, hstalls⟩
      rw [show p = (x.guard, x.code) by rw [hg, hcode]]
      exact .onward hn hx hys

theorem halts_stages (h : (f.stages host operation).Halts R w c w') :
    ∃ a stage w₁, f.Halted R host operation w a stage w₁ c w' := by
  simp only [stages, Future.bind_eq] at h
  rcases Future.halts_bind h with h | ⟨⟨verdict, e₁⟩, w₁, henter, h⟩
  · obtain ⟨ps, p, qs, xs, w₁, hp, hxs, hstalls⟩ := halts_enter h
    exact ⟨_, _, _, .entering hp hxs hstalls⟩
  obtain ⟨xs, hxs, rfl⟩ := ends_enter.mp henter
  rcases verdict with err | _ | _
  · exact absurd h Future.not_halts_done
  · exact absurd h Future.not_halts_done
  rcases Future.halts_bind h with h | ⟨⟨outcome, e₂⟩, w₂, hrun, h⟩
  · exact ⟨_, _, _, .operating hxs (halts_settle h)⟩
  obtain ⟨waited, ho, rfl⟩ := ends_settle.mp hrun
  cases outcome with
  | error err => exact absurd h Future.not_halts_done
  | ok v =>
    rcases Future.halts_bind h with h | ⟨⟨verdict, e₃⟩, w₃, _, h⟩
    · obtain ⟨ps, p, qs, ys, w₃, hp, hys, hstalls⟩ := halts_leave h
      exact ⟨_, _, _, .leaving (o := ⟨.ok v, waited, w₁, w₂⟩) hxs ho rfl hp hys hstalls⟩
    · cases verdict <;> exact absurd h Future.not_halts_done

theorem halts_run (h : (f.run host operation).Halts R w c w') :
    ∃ a stage w₁, f.Halted R host operation w a stage w₁ c w' := by
  simp only [run, Future.bind_eq] at h
  rcases Future.halts_bind h with h | ⟨⟨outcome, e⟩, w₁, _, h⟩
  · exact halts_stages h
  rcases Future.halts_bind h with h | ⟨_, _, _, h⟩
  · obtain ⟨cause, _, hexec⟩ := Future.halts_lift h
    cases hexec
  · exact absurd h Future.not_halts_done

/-- A call inside another one that stalls has halted. -/
theorem exists_halted_of_stalls (hR : ∀ w, R w w)
    (h : (invoke host f operation).Stalls R w c w') :
    ∃ a stage w₁, f.Halted R host operation w a stage w₁ c w' := by
  apply halts_run
  rw [Future.halts_iff_poll]
  rcases hp : (f.run host operation).poll w with ⟨⟨r, e⟩ | cause | rest, w₁⟩
  · by_cases hsus : e.isSuspended
    · rcases h with h | ⟨h, ht⟩ <;> simp only [invoke, Action.exec_ofFun, hp, if_pos hsus] at h
      · cases h
      · cases h
        exact Future.not_halts_done ht
    · rcases h with h | ⟨h, ht⟩ <;> simp only [invoke, Action.exec_ofFun, hp, if_neg hsus] at h <;>
        cases h
  · rcases h with h | ⟨h, ht⟩ <;> simp only [invoke, Action.exec_ofFun, hp] at h <;> cases h
    exact ⟨rfl, rfl⟩
  · rcases h with h | ⟨h, ht⟩ <;> simp only [invoke, Action.exec_ofFun, hp] at h <;> cases h
    rcases Future.halts_bind ht with hrest | ⟨_, _, _, hdone⟩
    · exact .inr ⟨w₁, hR w₁, hrest⟩
    · exact absurd hdone Future.not_halts_done

/-! ## A call as it stands -/

/-- A call as it stands in a state: it has come to its end with an outcome, or it has halted. -/
inductive Standing (R : World ε → World ε → Prop) (host : Host κ ε) (f : Frame κ)
    (operation : Action (World ε) (Completion ε)) (w : World ε) :
    Account κ ε → Option (Except ContractError Value) → World ε → Prop where
  | ended {a : Account κ ε} {r : Except ContractError Value} {w₁ : World ε}
      (h : f.Course R host operation w a r w₁) :
      Standing R host f operation w a (some r) (f.closing a r w₁)
  | halted {a : Account κ ε} {stage : Stage} {c : Option Abort} {w₁ w' : World ε}
      (h : f.Halted R host operation w a stage w₁ c w') : Standing R host f operation w a none w'

theorem Halted.stalls {a : Account κ ε} {w₁ : World ε}
    (h : f.Halted R host operation w a .invocation w₁ c w') : operation.Stalls R w₁ c w' := by
  cases h with
  | operating _ hc => exact hc

/-- Where a call has run its operation, the operation has settled. -/
theorem Standing.settles {a : Account κ ε} {outcome : Option (Except ContractError Value)}
    (h : f.Standing R host operation w a outcome w') {o : Run ε} (ho : a.run = some o) :
    operation.Settles R o.begun o.result o.waited o.ended := by
  cases h with
  | ended h => exact h.settles ho
  | halted h =>
    cases h with
    | entering | operating => cases ho
    | leaving _ hs _ _ _ _ =>
      cases ho
      exact hs

end Frame

namespace Operation

variable {κ ε : Type}

theorem stalls_call_checked {R : World ε → World ε → Prop} {host : Host κ ε} {site : CallSite}
    {spec : Spec κ} {inner : Operation κ} {v : Value} {i : Input} {w w' : World ε}
    {c : Option Abort} (h : ((checked site spec inner).call host v i).Stalls R w c w') :
    (invoke host (frame site spec v i w.heap) (inner.call host v i)).Stalls R w c w' := by
  rcases h with h | ⟨h, ht⟩
  · exact .gaveUp (by rwa [exec_call_checked] at h)
  · exact .pending (by rwa [exec_call_checked] at h) ht

/-- However often a call was polled, and whatever others did in between, it stands somewhere, and
the outcome that it shows is the one that it has come to. Whoever polls it after its end may have
changed the state since. -/
theorem exists_standing (host : Host κ ε) (site : CallSite) (spec : Spec κ) (inner : Operation κ)
    (v : Value) (i : Input) (changes : List (World ε → World ε)) (w : World ε) :
    let call := (checked site spec inner).call host v i
    ∃ a outcome w₁,
      (frame site spec v i w.heap).Standing (Among changes) host (inner.call host v i) w a outcome
        w₁ ∧
      (∀ r, (call.polls changes w).1.result? = some (.ok r) → outcome = some r) ∧
      Among changes w₁ (call.polls changes w).2 := by
  intro call
  have hpolls : call.polls changes w =
      (invoke host (frame site spec v i w.heap) (inner.call host v i)).polls changes w := by
    simp only [call, Action.polls, exec_call_checked]
  obtain ⟨hresult, hstate⟩ := invoke_polls host (frame site spec v i w.heap)
    (inner.call host v i) changes w
  rw [← hpolls] at hresult hstate
  have hR : ∀ change ∈ changes, ∀ w, Among changes w (change w) :=
    fun change hmem w => .inr ⟨change, hmem, rfl⟩
  rcases hp : ((frame site spec v i w.heap).run host (inner.call host v i)).polls
    (id :: changes) w with ⟨⟨r, e⟩ | c | rest, w₁⟩ <;> rw [hp] at hresult hstate
  · obtain ⟨a, w₂, hcourse, _, rfl⟩ := Frame.ends_run.mp (Future.ends_of_polls hR hp)
    refine ⟨a, _, _, .ended hcourse, fun r' hr => ?_, hstate⟩
    cases hresult _ hr
    rfl
  · obtain ⟨a, _, _, hhalted⟩ := Frame.halts_run (Future.halts_of_polls hR hp rfl)
    refine ⟨a, _, w₁, .halted hhalted, fun r hr => ?_, hstate⟩
    cases hresult _ hr
  · obtain ⟨a, _, _, hhalted⟩ := Frame.halts_run (Future.halts_of_polls hR hp rfl)
    refine ⟨a, _, w₁, .halted hhalted, fun r hr => ?_, hstate⟩
    cases hresult _ hr

end Operation

end Contracts
