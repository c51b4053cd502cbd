import Contracts.Proofs.Blindness

/-!
# Contracts.Proofs.Padding

Two runs of which one writes more into the journal.

* `Simulation.Refines`, `Simulation.Coarser` — what agrees in a comparison agrees in one that asks
  for more, or lets both runs do more.
* `Padded`   — the same entries, with more of some kind in between.
* `padding`  — two runs whose states differ in the journal alone, and whose new entries are the same
  but for those of some kind.
* `Action.driven` — a callback driven to its end, with the note whether it had to be waited for.
* `Frame.Honest`, `exec_driven_invoke` — a call is pending just if its evaluation says so.
* `acts_driven_invoke` — calls whose operations agree when they are driven agree when they are.
-/

namespace Contracts

variable {κ ε σ τ α β : Type}

/-! ## Other comparisons -/

namespace Simulation

variable {K : Type} [Preorder K] {S T : Simulation K σ τ} {R : K → α → β → Prop} {k : K}

/-- What agrees in the second comparison agrees in the first one, and what both runs do in the first
one keeps agreement in the second one. -/
structure Refines (S T : Simulation K σ τ) : Prop where
  agree : ∀ {k s t}, T.agree k s t → S.agree k s t
  move : ∀ {k s t k' s' t'}, T.agree k s t → S.agree k' s' t' → S.move k s t k' s' t' →
    T.agree k' s' t' ∧ T.move k s t k' s' t'

theorem Acts.refine (hST : Refines S T) {a : Action σ α} {b : Action τ β}
    (h : S.Acts R k a b) : T.Acts R k a b := by
  intro k₁ hk s t hs
  obtain ⟨k₂, hs₂, hm, he⟩ := h k₁ hk s t (hST.agree hs)
  obtain ⟨hs₂', hm'⟩ := hST.move hs hs₂ hm
  exact ⟨k₂, hs₂', hm', he⟩

theorem Runs.refine (hST : Refines S T) {t : Future σ α} {u : Future τ β}
    (h : S.Runs R k t u) : T.Runs R k t u := by
  refine ⟨S.Runs R, fun k t u htu k₁ hk s s' hs => ?_, h⟩
  obtain ⟨k₂, hs₂, hm, hp⟩ := htu.pollsTo k₁ hk s s' (hST.agree hs)
  obtain ⟨hs₂', hm'⟩ := hST.move hs hs₂ hm
  exact ⟨k₂, hs₂', hm', hp⟩

theorem Starts.refine (hST : Refines S T) {a : Action σ (Eventual σ α)}
    {b : Action τ (Eventual τ β)} (h : S.Starts R k a b) : T.Starts R k a b := by
  refine Acts.imp (fun k e e' he => ?_) (Acts.refine hST h)
  cases he with
  | ready hab => exact .ready hab
  | pending htu => exact .pending (htu.refine hST)

/-- The same states agree, and whatever both runs do in the one they may do in the other. -/
structure Coarser (S T : Simulation K σ τ) : Prop where
  agree : ∀ {k s t}, T.agree k s t ↔ S.agree k s t
  move : ∀ {k s t k' s' t'}, S.move k s t k' s' t' → T.move k s t k' s' t'

theorem Coarser.refines (hST : Coarser S T) : Refines S T where
  agree := hST.agree.mp
  move _ hs hm := ⟨hST.agree.mpr hs, hST.move hm⟩

theorem Acts.coarsen (hST : Coarser S T) {a : Action σ α} {b : Action τ β}
    (h : S.Acts R k a b) : T.Acts R k a b :=
  h.refine hST.refines

theorem Starts.coarsen (hST : Coarser S T) {a : Action σ (Eventual σ α)}
    {b : Action τ (Eventual τ β)} (h : S.Starts R k a b) : T.Starts R k a b :=
  h.refine hST.refines

end Simulation

/-! ## Padded journals -/

/-- The second list has the entries of the first one, and more of some kind in between. -/
inductive Padded (P : Event → Prop) : List Event → List Event → Prop where
  | nil : Padded P [] []
  | same (e : Event) {l l' : List Event} (h : Padded P l l') : Padded P (e :: l) (e :: l')
  | more {e : Event} {l l' : List Event} (he : P e) (h : Padded P l l') : Padded P l (e :: l')

namespace Padded

variable {P : Event → Prop} {l l' m m' : List Event}

theorem refl (l : List Event) : Padded P l l := by
  induction l with
  | nil => exact .nil
  | cons e rest ih => exact .same e ih

theorem append (h : Padded P l l') (hm : Padded P m m') : Padded P (l ++ m) (l' ++ m') := by
  induction h with
  | nil => exact hm
  | same e _ ih => exact .same e ih
  | more he _ ih => exact .more he ih

end Padded

/-- Two runs whose states differ in the journal alone. The second one writes what the first one
writes, and more entries of some kind. -/
def padding (P : Event → Prop) (ε : Type) : Comparison Unit ε ε :=
  { journalless ε with
    move := fun _ w w' _ w₁ w₁' => ∃ new new', w₁.entries = new ++ w.entries ∧
      w₁'.entries = new' ++ w'.entries ∧ Padded P new new'
    move_refl := fun _ => ⟨[], [], rfl, rfl, .nil⟩
    move_trans := by
      rintro _ _ _ _ _ _ _ _ _ ⟨new, new', h, h', hpad⟩ ⟨more, more', hm, hm', hpad'⟩
      exact ⟨more ++ new, more' ++ new', by rw [hm, h, List.append_assoc],
        by rw [hm', h', List.append_assoc], hpad'.append hpad⟩
    le_of_move := fun _ => le_rfl
    log := fun hw he => by
      obtain ⟨hstate, new, h, h'⟩ := (journalless ε).log hw he
      exact ⟨hstate, new, new, h, h', .refl new⟩
    readMode := fun hw => by
      obtain ⟨hmode, hstate, new, h, h'⟩ := (journalless ε).readMode hw
      exact ⟨hmode, hstate, new, new, h, h', .refl new⟩ }

theorem coarser_padding (P : Event → Prop) (ε : Type) :
    Simulation.Coarser (journalless ε).toSimulation (padding P ε).toSimulation where
  agree := Iff.rfl
  move := fun ⟨new, h, h'⟩ => ⟨new, new, h, h', .refl new⟩

theorem outcomeSame_padding (P : Event → Prop) : (padding P ε).OutcomeSame = fun _ => Eq :=
  (sameRecords_journalless.outcomeSame_eq : (journalless ε).OutcomeSame = _)

theorem Host.Blind.paddedChecks {host : Host κ ε} (h : host.Blind) (P : Event → Prop)
    (spec : Spec κ) (v : Value) (i : Input) :
    (padding P ε).SameChecks () host host spec v v i i where
  holds code _ := (h.holds code v).coarsen (coarser_padding P ε)
  before code _ := (h.accepts code _).coarsen (coarser_padding P ε)
  after code _ _ _ _ _ hr := hr ▸ (h.accepts code _).coarsen (coarser_padding P ε)
  deliver code _ _ _ e _ he := he.eq ▸ (h.deliver code e).coarsen (coarser_padding P ε)

/-! ## Driving calls -/

/-- Starts a callback and waits for it. The flag says whether its answer had to be waited for. -/
def Action.driven (start : Action σ (Eventual σ α)) : Action σ (Bool × α) := do
  let e ← start
  let a ← e.finish
  pure (e.isPending, a)

theorem Action.exec_driven (start : Action σ (Eventual σ α)) (s : σ) :
    start.driven.exec s = match start.exec s with
      | (.error c, s₁) => (.error c, s₁)
      | (.ok e, s₁) => match e.toFuture.drive s₁ with
        | (.ok a, s₂) => (.ok (e.isPending, a), s₂)
        | (.error c, s₂) => (.error c, s₂) := by
  simp only [driven, exec_bind, Eventual.exec_finish, exec_pure]
  rcases start.exec s with ⟨c | e, s₁⟩
  · rfl
  · rfl

namespace Frame

variable {host : Host κ ε} {f : Frame κ} {e₀ e : Evaluation}

/-- A stage notes that it had to be waited for. -/
theorem drive_settle_driven (stage : Stage) (e : Evaluation)
    (start : Action (World ε) (Eventual (World ε) α)) (w : World ε) :
    (settle stage e start).drive w = match start.driven.exec w with
      | (.ok (waited, a), w') => (.ok (a, if waited then e.suspend stage else e), w')
      | (.error c, w') => (.error c, w') := by
  simp only [settle, Future.bind_eq, Future.drive_bind, Future.drive_lift, Action.exec_driven]
  rcases start.exec w with ⟨c | a | t, w₁⟩
  · rfl
  · rfl
  · simp only [Future.drive_bind, Eventual.toFuture]
    rcases t.drive w₁ with ⟨c | a, w₂⟩ <;> rfl

/-! ### Evaluations of calls that wait -/

/-- An evaluation that was suspended before stays so, and a future that has to wait ends with one
that is. -/
structure Honest (e₀ : Evaluation) (t : Future (World ε) (α × Evaluation)) : Prop where
  keeps : e₀.isSuspended = true → ∀ w a e w', t.drive w = (.ok (a, e), w') → e.isSuspended = true
  waits : ∀ w rest w₁, t.poll w = (.waiting rest, w₁) →
    ∀ w₂ a e w', rest.drive w₂ = (.ok (a, e), w') → e.isSuspended = true

theorem honest_done (a : α) (h : e₀.isSuspended = true → e.isSuspended = true) :
    Honest e₀ (Future.done (a, e) : Future (World ε) (α × Evaluation)) where
  keeps := by
    rintro he w a e w' ⟨⟩
    exact h he
  waits := by
    rintro w rest w₁ ⟨⟩

theorem honest_bind {t : Future (World ε) (α × Evaluation)}
    {g : α × Evaluation → Future (World ε) (β × Evaluation)} (h : Honest e₀ t)
    (hg : ∀ a e, Honest e (g (a, e))) : Honest e₀ (t.bind g) where
  keeps := by
    intro he w b e' w' hdrive
    rw [Future.drive_bind] at hdrive
    split at hdrive
    · next x w₁ ht => exact (hg x.1 x.2).keeps (h.keeps he w x.1 x.2 w₁ ht) w₁ b e' w' hdrive
    · cases hdrive
  waits := by
    intro w rest w₁ hpoll w₂ b e' w' hdrive
    rw [Future.poll_bind] at hpoll
    split at hpoll
    · next x w₃ _ => exact (hg x.1 x.2).waits w₃ rest w₁ hpoll w₂ b e' w' hdrive
    · cases hpoll
    · next rest' w₃ ht =>
      cases hpoll
      rw [Future.drive_bind] at hdrive
      split at hdrive
      · next x w₄ hrest =>
        have hx := h.waits w rest' w₁ ht w₂ x.1 x.2 w₄ hrest
        exact (hg x.1 x.2).keeps hx w₄ b e' w' hdrive
      · cases hdrive

theorem honest_lift_bind (act : Action (World ε) α)
    {g : α → Future (World ε) (β × Evaluation)} (hg : ∀ a, Honest e₀ (g a)) :
    Honest e₀ ((Future.lift act).bind g) where
  keeps := by
    intro he w b e' w' hdrive
    rw [Future.drive_bind, Future.drive_lift] at hdrive
    split at hdrive
    · next a w₁ _ => exact (hg a).keeps he w₁ b e' w' hdrive
    · cases hdrive
  waits := by
    intro w rest w₁ hpoll w₂ b e' w' hdrive
    rw [Future.poll_bind, Future.poll_lift] at hpoll
    rcases hexec : act.exec w with ⟨c | a, w₃⟩ <;> simp only [hexec] at hpoll
    · cases hpoll
    · exact (hg a).waits w₃ rest w₁ hpoll w₂ b e' w' hdrive

theorem isSuspended_suspend (e : Evaluation) (stage : Stage) :
    (e.suspend stage).isSuspended = true := by
  rw [Evaluation.isSuspended, Evaluation.suspend]
  cases e.suspendedAt <;> rfl

theorem honest_settle (stage : Stage) (e : Evaluation)
    (start : Action (World ε) (Eventual (World ε) α)) : Honest e (settle stage e start) := by
  refine honest_lift_bind start fun x => ?_
  cases x with
  | ready a => exact honest_done a id
  | pending t =>
    -- whatever is waited for, the note is made at the end
    have hend : ∀ (t : Future (World ε) α) w b e' w',
        (t.bind fun a => .done (a, e.suspend stage)).drive w = (.ok (b, e'), w') →
          e'.isSuspended = true := by
      intro t w b e' w' hdrive
      rw [Future.drive_bind] at hdrive
      split at hdrive
      · cases hdrive
        exact isSuspended_suspend e stage
      · cases hdrive
    refine ⟨fun _ w => hend t w, fun w rest w₁ hpoll => ?_⟩
    change (t.bind fun a => .done (a, e.suspend stage)).poll w = _ at hpoll
    rw [Future.poll_bind] at hpoll
    split at hpoll
    · cases hpoll
    · cases hpoll
    · cases hpoll
      exact hend _

theorem isSuspended_record (e : Evaluation) (g : Guard) (held : Bool) :
    (e.record g held).isSuspended = e.isSuspended := by
  cases g <;> rfl

theorem honest_examine (result : Option Value) (g : Guard) (code : κ) (e : Evaluation) :
    Honest e (f.examine host result g code e) :=
  honest_bind (honest_settle _ e _) fun _ e' => honest_lift_bind _ fun _ =>
    honest_done _ fun he => by rw [isSuspended_record, he]

theorem honest_enter (checks : List (Guard × κ)) (e : Evaluation) :
    Honest e (f.enter host checks e) := by
  induction checks generalizing e with
  | nil => exact honest_done _ id
  | cons p rest ih =>
    refine honest_bind (honest_examine none p.1 p.2 e) fun verdict e' => ?_
    rcases verdict with err | _ | _
    · exact honest_done _ id
    · exact honest_done _ id
    · exact ih e'

theorem honest_leave (host : Host κ ε) (f : Frame κ) (result : Value)
    (checks : List (Guard × κ)) (e : Evaluation) : Honest e (f.leave host result checks e) := by
  induction checks generalizing e with
  | nil => exact honest_done _ id
  | cons p rest ih =>
    refine honest_bind (honest_examine (some result) p.1 p.2 e) fun verdict e' => ?_
    cases verdict with
    | error err => exact honest_done _ id
    | ok _ => exact ih e'

theorem honest_run (operation : Action (World ε) (Completion ε)) :
    Honest {} (f.run host operation) := by
  have hstages : Honest {} (f.stages host operation) := by
    refine honest_bind (honest_enter f.spec.entry {}) fun verdict e => ?_
    rcases verdict with err | _ | _
    · exact honest_done _ id
    · exact honest_done _ id
    refine honest_bind (honest_settle .invocation e operation) fun r e => ?_
    cases r with
    | error err => exact honest_done _ id
    | ok v =>
      have hleave := honest_leave host f v f.spec.exit (e.recordResult v)
      refine honest_bind ⟨hleave.keeps, hleave.waits⟩ fun verdict e => ?_
      cases verdict <;> exact honest_done _ id
  exact honest_bind hstages fun r e => honest_lift_bind _ fun _ => honest_done _ id

/-- A call is pending just if its evaluation says that it had to wait. -/
theorem exec_driven_invoke (operation : Action (World ε) (Completion ε)) (w : World ε) :
    (invoke host f operation).driven.exec w = match (f.run host operation).drive w with
      | (.ok (r, e), w') => (.ok (e.isSuspended, r), w')
      | (.error c, w') => (.error c, w') := by
  have hhonest : Honest {} (f.run host operation) := honest_run operation
  rw [Action.exec_driven, Future.drive_eq_poll]
  simp only [invoke, Action.exec_ofFun]
  rcases hpoll : (f.run host operation).poll w with ⟨⟨r, e⟩ | c | rest, w₁⟩
  · cases hsus : e.isSuspended with
    | true =>
      simp only [hsus]
      rfl
    | false =>
      simp only [hsus]
      rfl
  · rfl
  · simp only [Eventual.toFuture, Future.drive_bind]
    rcases hdrive : rest.drive w₁ with ⟨c | ⟨r, e⟩, w₂⟩
    · rfl
    · have hsus := hhonest.waits w rest w₁ hpoll w₁ r e w₂ hdrive
      change (Except.ok (true, r), w₂) = (Except.ok (e.isSuspended, r), w₂)
      rw [hsus]

end Frame

/-! ### Driving what agrees when it is driven -/

namespace Comparison

variable {K δ : Type} [Preorder K] {C : Comparison K ε δ} {k : K}

/-- Both callbacks come to outcomes that agree when they are driven, both at once or both later. -/
abbrev DrivesSame (C : Comparison K ε δ) (k : K) (op : Action (World ε) (Completion ε))
    (op' : Action (World δ) (Completion δ)) : Prop :=
  C.Acts (fun k x y => x.1 = y.1 ∧ C.OutcomeSame k x.2 y.2) k op.driven op'.driven

theorem drivesSame_of_starts {op : Action (World ε) (Completion ε)}
    {op' : Action (World δ) (Completion δ)} (h : C.Starts C.OutcomeSame k op op') :
    C.DrivesSame k op op' := by
  refine Simulation.acts_bind h fun k₁ hk₁ x y hxy => ?_
  have hfinish : x.isPending = y.isPending ∧ C.Acts C.OutcomeSame k₁ x.finish y.finish := by
    cases hxy with
    | ready hr => exact ⟨rfl, Simulation.acts_pure fun _ hk => hr.mono hk⟩
    | pending htu => exact ⟨rfl, Simulation.runs_drive htu⟩
  refine Simulation.acts_bind hfinish.2 fun k₂ _ r r' hr => ?_
  exact Simulation.acts_pure fun _ hk => ⟨hfinish.1, hr.mono hk⟩

theorem drives_bind {α β α' β' : Type} {R : K → α → β → Prop} {R' : K → α' → β' → Prop}
    {t : Future (World ε) α} {u : Future (World δ) β} {f : α → Future (World ε) α'}
    {g : β → Future (World δ) β'} (h : C.Acts R k (.ofFun t.drive) (.ofFun u.drive))
    (hf : ∀ k', k ≤ k' → ∀ x y, R k' x y →
      C.Acts R' k' (.ofFun (f x).drive) (.ofFun (g y).drive)) :
    C.Acts R' k (.ofFun (t.bind f).drive) (.ofFun (u.bind g).drive) := by
  have hbind : ∀ {σ α β : Type} (t : Future σ α) (f : α → Future σ β) (s : σ),
      (Action.ofFun (t.bind f).drive).exec s =
        (Action.ofFun t.drive >>= fun a => Action.ofFun (f a).drive).exec s := by
    intro σ α β t f s
    rw [Action.exec_ofFun, Future.drive_bind, Action.exec_bind, Action.exec_ofFun]
    rcases t.drive s with ⟨c | a, s₁⟩ <;> rfl
  intro k₁ hk w w' hw
  rw [hbind, hbind]
  exact Simulation.acts_bind h hf k₁ hk w w' hw

variable {host : Host κ ε} {host' : Host κ δ} {f f' : Frame κ}
  {op : Action (World ε) (Completion ε)} {op' : Action (World δ) (Completion δ)}

theorem drives_settle {stage : Stage} {e e' : Evaluation} (he : SameEvaluation (C.value k) e e')
    (h : C.DrivesSame k op op') :
    C.Acts (C.StageSame C.OutcomeSame) k (.ofFun (Frame.settle stage e op).drive)
      (.ofFun (Frame.settle stage e' op').drive) := by
  intro k₁ hk w w' hw
  obtain ⟨k₂, hw₂, hm, hends⟩ := h k₁ hk w w' hw
  simp only [Action.exec_ofFun, Frame.drive_settle_driven]
  revert hw₂ hm hends
  rcases op.driven.exec w with ⟨x, w₂⟩
  rcases op'.driven.exec w' with ⟨y, w₂'⟩
  intro hw₂ hm hends
  cases hends with
  | error c => exact ⟨k₂, hw₂, hm, .error c⟩
  | @ok x y hxy =>
    obtain ⟨waited, r⟩ := x
    obtain ⟨_, r'⟩ := y
    obtain ⟨rfl, hr⟩ := hxy
    have he' := he.mono fun _ _ => C.value_mono (le_trans hk (C.le_of_move hm))
    refine ⟨k₂, hw₂, hm, .ok ⟨hr, ?_⟩⟩
    cases waited with
    | true => exact he'.suspend stage
    | false => exact he'

theorem drives_run (hf : C.SameFrame k host host' f f') (hop : C.DrivesSame k op op') :
    C.Acts (C.StageSame C.OutcomeSame) k (.ofFun (f.run host op).drive)
      (.ofFun (f'.run host' op').drive) := by
  have hstages : C.Acts (C.StageSame C.OutcomeSame) k (.ofFun (f.stages host op).drive)
      (.ofFun (f'.stages host' op').drive) := by
    rw [Frame.stages_eq, Frame.stages_eq, ← hf.entry_eq]
    refine drives_bind (Simulation.runs_drive
      (runs_enter hf .empty f.spec.entry hf.test_entry)) ?_
    rintro k₁ hk₁ ⟨verdict, e₁⟩ ⟨_, e₂⟩ ⟨rfl, he₁⟩
    rcases verdict with err | _ | _
    · exact Simulation.runs_drive (runs_stage_done ⟨.error err, he₁⟩)
    · exact Simulation.runs_drive (runs_stage_done ⟨.ok (C.undefined k₁), he₁⟩)
    refine drives_bind (drives_settle he₁ (hop.mono hk₁)) ?_
    rintro k₂ hk₂ ⟨r, e₃⟩ ⟨r', e₄⟩ ⟨hr, he₂⟩
    exact Simulation.runs_drive (runs_conclude (hf.mono (le_trans hk₁ hk₂)) hr he₂)
  rw [Frame.run_eq, Frame.run_eq]
  refine drives_bind hstages ?_
  rintro k₁ hk₁ ⟨r, e₁⟩ ⟨r', e₂⟩ ⟨hr, he⟩
  exact Simulation.runs_drive (runs_close (hf.mono hk₁) hr he)

/-- Calls whose operations agree when they are driven agree when they are. -/
theorem drivesSame_invoke (hf : C.SameFrame k host host' f f') (hop : C.DrivesSame k op op') :
    C.DrivesSame k (invoke host f op) (invoke host' f' op') := by
  intro k₁ hk w w' hw
  obtain ⟨k₂, hw₂, hm, hends⟩ := drives_run hf hop k₁ hk w w' hw
  simp only [Action.exec_ofFun] at hw₂ hm hends
  simp only [Frame.exec_driven_invoke]
  revert hw₂ hm hends
  rcases (f.run host op).drive w with ⟨x, w₂⟩
  rcases (f'.run host' op').drive w' with ⟨y, w₂'⟩
  intro hw₂ hm hends
  cases hends with
  | error c => exact ⟨k₂, hw₂, hm, .error c⟩
  | ok hxy => exact ⟨k₂, hw₂, hm, .ok ⟨hxy.2.isSuspended, hxy.1⟩⟩

end Comparison

end Contracts
