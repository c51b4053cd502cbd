import Contracts.Proofs.Modes

/-!
# Contracts.Proofs.Overrides

Contracts with a failure mode of their own.

* `World.SameButMode`  — states that differ in the process-wide failure mode alone.
* `Action.Modeless`, `Action.StartsModeless`, `Future.Modeless` — what does not depend on that mode,
  except that it may leave different modes.
* `Frame.DecidesAlone` — a call whose contract has an override, and whose predicates and sink are
  such.
* `modeless_call`, `modeless_construct` — then so are calls under it and constructions.
* `StartsModeless.polls` — and they show the same however often they are polled.
-/

namespace Contracts

open List (Forall₂)

variable {κ ε α β : Type}

/-! ## What does not depend on the mode -/

/-- The states differ in the process-wide failure mode alone, if at all. -/
def World.SameButMode (w w' : World ε) : Prop := ∃ mode, w' = { w with mode }

/-- Two runs whose states differ in the failure mode alone. Nothing is said of how they go on. -/
def modeless (ε : Type) : Simulation Unit (World ε) (World ε) where
  agree _ := World.SameButMode
  move _ _ _ _ _ _ := True
  move_refl _ := trivial
  move_trans _ _ := trivial
  le_of_move _ := le_rfl

/-- The action does and answers the same in any failure mode, but for the mode that it leaves. -/
abbrev Action.Modeless (a : Action (World ε) α) : Prop := (modeless ε).Acts (fun _ => Eq) () a a

/-- So does the callback, and what it answers later. -/
abbrev Action.StartsModeless (a : Action (World ε) (Eventual (World ε) α)) : Prop :=
  (modeless ε).Starts (fun _ => Eq) () a a

abbrev Future.Modeless (t : Future (World ε) α) : Prop := (modeless ε).Runs (fun _ => Eq) () t t

namespace Action

theorem modeless_pure (a : α) : (pure a : Action (World ε) α).Modeless :=
  Simulation.acts_pure fun _ _ => rfl

theorem modeless_bind {a : Action (World ε) α} {f : α → Action (World ε) β} (h : a.Modeless)
    (hf : ∀ x, (f x).Modeless) : (a >>= f).Modeless := by
  refine Simulation.acts_bind h fun k _ x y hxy => ?_
  obtain rfl := hxy
  exact hf x

/-- An action that changes the state without a look at the mode. -/
theorem modeless_of_exec {a : Action (World ε) α}
    (h : ∀ w mode, ∃ mode', a.exec { w with mode } = ((a.exec w).1,
      { (a.exec w).2 with mode := mode' })) : a.Modeless := by
  intro k _ w w' hw
  obtain ⟨mode, rfl⟩ := hw
  obtain ⟨mode', hexec⟩ := h w mode
  rw [hexec]
  exact ⟨k, ⟨mode', rfl⟩, trivial, .refl (fun _ => rfl) _⟩

/-- A callback with its answer there at once. -/
theorem startsModeless_ready {a : Action (World ε) α} (h : a.Modeless) :
    (a >>= fun x => pure (.ready x)).StartsModeless := by
  refine Simulation.acts_bind h fun k _ x y hxy => ?_
  obtain rfl := hxy
  exact Simulation.acts_pure fun _ _ => .ready rfl

theorem modeless_log (e : Event) : (World.log e : Action (World ε) Unit).Modeless :=
  modeless_of_exec fun _ mode => ⟨mode, rfl⟩

theorem modeless_readHeap : (World.readHeap : Action (World ε) Heap).Modeless :=
  modeless_of_exec fun _ mode => ⟨mode, rfl⟩

theorem modeless_newRecord (rec : Record) :
    (World.newRecord rec : Action (World ε) Ref).Modeless :=
  modeless_of_exec fun _ mode => ⟨mode, rfl⟩

/-- Where there is an override the process-wide mode is not asked for. -/
theorem modeless_report (m : FailureMode) (v : Violation) :
    (report (some m) v : Action (World ε) (Except ContractError Unit)).Modeless := by
  refine modeless_bind (modeless_pure m) fun m => ?_
  cases m with
  | throw => exact modeless_pure _
  | log => exact modeless_bind (modeless_log _) fun _ => modeless_pure _

theorem modeless_emit {host : Host κ ε} {t : TraceSetting κ} (e : TraceEvent)
    (h : ∀ code, t = .sink code → ∀ e, (host.deliver code e).Modeless) :
    (t.emit host e).Modeless := by
  cases t with
  | disabled => exact modeless_pure _
  | default => exact modeless_bind modeless_readHeap fun _ => modeless_log _
  | sink code =>
    refine modeless_bind modeless_readHeap fun heap => ?_
    refine modeless_bind (modeless_log _) fun _ => ?_
    exact Simulation.acts_tryCatch (h code rfl _) fun _ => modeless_log _

end Action

namespace Future

theorem modeless_done (a : α) : (.done a : Future (World ε) α).Modeless :=
  Simulation.runs_done fun _ _ => rfl

theorem modeless_bind {t : Future (World ε) α} {f : α → Future (World ε) β} (h : t.Modeless)
    (hf : ∀ x, (f x).Modeless) : (t.bind f).Modeless := by
  refine Simulation.runs_bind h fun k _ x y hxy => ?_
  obtain rfl := hxy
  exact hf x

end Future

/-! ## Calls -/

namespace Frame

variable {host : Host κ ε} {f : Frame κ} {operation : Action (World ε) (Completion ε)}

theorem modeless_settle (stage : Stage) (e : Evaluation)
    {start : Action (World ε) (Eventual (World ε) α)} (h : start.StartsModeless) :
    (settle stage e start).Modeless := by
  refine Simulation.runs_bind (Simulation.runs_lift h) fun k _ x y hxy => ?_
  cases hxy with
  | ready hab =>
    obtain rfl := hab
    exact Future.modeless_done _
  | pending ht =>
    refine Simulation.runs_bind ht fun k _ a b hab => ?_
    obtain rfl := hab
    exact Future.modeless_done _

/-- A contract with an override, whose predicates and sink do not depend on the process-wide
mode. -/
structure DecidesAlone (host : Host κ ε) (f : Frame κ) : Prop where
  mode : f.spec.mode.isSome = true
  entry : ∀ p ∈ f.spec.entry, (f.test host none p.2 p.1).StartsModeless
  exit : ∀ p ∈ f.spec.exit, ∀ v, (f.test host (some v) p.2 p.1).StartsModeless
  deliver : ∀ code, f.spec.trace = .sink code → ∀ e, (host.deliver code e).Modeless

theorem DecidesAlone.observe (h : f.DecidesAlone host) (result : Option Value) (g : Guard)
    (held : Bool) : (f.observe host result g held).Modeless := by
  obtain ⟨m, hm⟩ := Option.isSome_iff_exists.mp h.mode
  refine Action.modeless_bind (Action.modeless_emit _ h.deliver) fun _ => ?_
  cases held with
  | true => exact Action.modeless_pure _
  | false =>
    refine Action.modeless_bind Action.modeless_readHeap fun heap => ?_
    rw [hm]
    exact Action.modeless_report m _

theorem DecidesAlone.examine (h : f.DecidesAlone host) {p : Guard × κ} {result : Option Value}
    (htest : (f.test host result p.2 p.1).StartsModeless) (e : Evaluation) :
    (f.examine host result p.1 p.2 e).Modeless := by
  refine Future.modeless_bind (modeless_settle _ e htest) fun x => ?_
  exact Future.modeless_bind (Simulation.runs_lift (h.observe result p.1 x.1))
    fun _ => Future.modeless_done _

theorem DecidesAlone.enter (h : f.DecidesAlone host) {checks : List (Guard × κ)}
    (hc : ∀ p ∈ checks, (f.test host none p.2 p.1).StartsModeless) (e : Evaluation) :
    (f.enter host checks e).Modeless := by
  induction checks generalizing e with
  | nil => exact Future.modeless_done _
  | cons p rest ih =>
    obtain ⟨hp, hrest⟩ := List.forall_mem_cons.mp hc
    refine Future.modeless_bind (h.examine hp e) fun x => ?_
    obtain ⟨err | _ | _, e₁⟩ := x
    · exact Future.modeless_done _
    · exact Future.modeless_done _
    · exact ih hrest e₁

theorem DecidesAlone.leave (h : f.DecidesAlone host) (result : Value) {checks : List (Guard × κ)}
    (hc : ∀ p ∈ checks, (f.test host (some result) p.2 p.1).StartsModeless) (e : Evaluation) :
    (f.leave host result checks e).Modeless := by
  induction checks generalizing e with
  | nil => exact Future.modeless_done _
  | cons p rest ih =>
    obtain ⟨hp, hrest⟩ := List.forall_mem_cons.mp hc
    refine Future.modeless_bind (h.examine hp e) fun x => ?_
    obtain ⟨err | _, e₁⟩ := x
    · exact Future.modeless_done _
    · exact ih hrest e₁

theorem DecidesAlone.run (h : f.DecidesAlone host) (ho : operation.StartsModeless) :
    (f.run host operation).Modeless := by
  have hconclude : ∀ r e, (f.conclude host r e).Modeless := by
    intro r e
    cases r with
    | error err => exact Future.modeless_done _
    | ok v =>
      refine Future.modeless_bind (h.leave v (fun p hp => h.exit p hp v) _) fun x => ?_
      obtain ⟨err | _, e₁⟩ := x
      · exact Future.modeless_done _
      · exact Future.modeless_done _
  have hstages : (f.stages host operation).Modeless := by
    rw [stages_eq]
    refine Future.modeless_bind (h.enter h.entry {}) fun x => ?_
    obtain ⟨err | _ | _, e⟩ := x
    · exact Future.modeless_done _
    · exact Future.modeless_done _
    · exact Future.modeless_bind (modeless_settle _ e ho) fun x => hconclude x.1 x.2
  rw [run_eq]
  refine Future.modeless_bind hstages fun x => ?_
  exact Future.modeless_bind (Simulation.runs_lift (Action.modeless_log _))
    fun _ => Future.modeless_done _

/-- A call is started as its protocol is polled. -/
theorem modeless_invoke (h : (f.run host operation).Modeless) :
    (invoke host f operation).StartsModeless := by
  intro k₁ hk w w' hw
  obtain ⟨k₂, hw₂, _, hp⟩ := h.pollsTo k₁ hk w w' hw
  simp only [invoke, Action.exec_ofFun]
  revert hw₂ hp
  rcases (f.run host operation).poll w with ⟨x, w₂⟩
  rcases (f.run host operation).poll w' with ⟨y, w₂'⟩
  intro hw₂ hp
  cases hp with
  | aborted c => exact ⟨k₂, hw₂, trivial, .error c⟩
  | waiting ht =>
    refine ⟨k₂, hw₂, trivial, .ok (.pending (Simulation.runs_bind ht fun k _ x y hxy => ?_))⟩
    obtain rfl := hxy
    exact Future.modeless_done _
  | @finished x y hxy =>
    obtain rfl := hxy
    by_cases hsus : x.2.isSuspended
    · simp only [if_pos hsus]
      exact ⟨k₂, hw₂, trivial, .ok (.pending (Future.modeless_done _))⟩
    · simp only [if_neg hsus]
      exact ⟨k₂, hw₂, trivial, .ok (.ready rfl)⟩

end Frame

/-- A call under a contract with an override does not depend on the process-wide failure mode if its
callbacks do not. -/
theorem Operation.modeless_call {host : Host κ ε} {site : CallSite} {spec : Spec κ}
    {inner : Operation κ} {v : Value} {i : Input} {heap : Heap}
    (h : (frame site spec v i heap).DecidesAlone host)
    (ho : (inner.call host v i).StartsModeless) :
    ((checked site spec inner).call host v i).StartsModeless := by
  intro k hk w w' hw
  -- the class label is not read by the callbacks
  have hw' : (frame site spec v i w.heap).DecidesAlone host := ⟨h.mode, h.entry, h.exit, h.deliver⟩
  have hinvoke := Frame.modeless_invoke (hw'.run ho) k hk w w' hw
  obtain ⟨mode, rfl⟩ := hw
  rwa [exec_call_checked, exec_call_checked]

/-- What does not depend on the mode shows the same however often it is polled, if what others do in
between is the same but for the mode. -/
theorem Action.StartsModeless.polls {a : Action (World ε) (Eventual (World ε) α)}
    (h : a.StartsModeless) {changes changes' : List (World ε → World ε)}
    (hc : Forall₂ (fun c c' => ∀ w w', World.SameButMode w w' → (c w).SameButMode (c' w'))
      changes changes') {w w' : World ε} (hw : w.SameButMode w') :
    (a.polls changes w).1.result? = (a.polls changes' w').1.result? ∧
      (a.polls changes w).2.SameButMode (a.polls changes' w').2 := by
  obtain ⟨_, hstate, hshows⟩ :=
    Simulation.starts_polls (hc.imp fun _ _ h _ => h) h (k := ()) hw
  exact ⟨hshows.result?_eq, hstate⟩

/-! ## Constructions -/

section Constructions

variable {host : Host κ ε} {this : Value} {args : List Value}

/-- A layer whose callbacks do not depend on the process-wide mode. If it has a contract, then the
contract has an override. -/
def Layer.DecidesAlone (host : Host κ ε) (this : Value) (args : List Value) (l : Layer κ) : Prop :=
  match l.construction with
  | .initializer none => True
  | .initializer (some code) => (host.setUp code this args).Modeless
  | .contract c => c.mode.isSome = true ∧ (host.holds c.invariant this).StartsModeless ∧
      ∀ code, c.trace = .sink code → ∀ e, (host.deliver code e).Modeless

theorem Layer.DecidesAlone.setUp {l : Layer κ} (h : l.DecidesAlone host this args) :
    (l.setUp host this args).Modeless := by
  rw [DecidesAlone] at h
  rw [Layer.setUp]
  revert h
  rcases l.construction with (_ | code) | c
  · exact fun _ => Action.modeless_pure _
  · exact id
  · intro h
    obtain ⟨hmode, hholds, hdeliver⟩ := h
    obtain ⟨m, hm⟩ := Option.isSome_iff_exists.mp hmode
    refine Simulation.acts_bind hholds fun k _ x y hxy => ?_
    cases hxy with
    | pending ht => exact Action.modeless_pure _
    | @ready held _ hheld =>
      obtain rfl := hheld
      refine Action.modeless_bind (Action.modeless_emit _ hdeliver) fun _ => ?_
      cases held with
      | true => exact Action.modeless_pure _
      | false =>
        rw [hm]
        exact Action.modeless_report m _

/-- A construction does not depend on the process-wide failure mode if all contracts along the chain
have overrides and their callbacks do not. -/
theorem Class.modeless_construct {c : Class κ}
    (h : ∀ l ∈ c.layers, ∀ this, l.DecidesAlone host this args) :
    (c.construct host args).Modeless := by
  have hlayers : ∀ this layers, (∀ l ∈ layers, l ∈ c.layers) →
      (setUpLayers host this args layers).Modeless := by
    intro this layers hsub
    induction layers with
    | nil => exact Action.modeless_pure _
    | cons l rest ih =>
      obtain ⟨hl, hrest⟩ := List.forall_mem_cons.mp hsub
      refine Action.modeless_bind (h l hl this).setUp fun r => ?_
      cases r with
      | error err => exact Action.modeless_pure _
      | ok _ => exact ih hrest
  refine Action.modeless_bind (Action.modeless_newRecord _) fun r => ?_
  refine Action.modeless_bind (hlayers _ _ fun l hl => List.mem_reverse.mp hl) fun r => ?_
  cases r with
  | error err => exact Action.modeless_pure _
  | ok _ => exact Action.modeless_pure _

end Constructions

end Contracts
