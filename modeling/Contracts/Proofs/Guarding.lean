import Contracts.Proofs.Dispatch
import Contracts.Proofs.Watching

/-!
# Contracts.Proofs.Guarding

What a throwing contract on a class does to one call and to one construction.

* `ReadOnly`, `Throwing` — an invariant that only reads, and a contract that raises its failure.
* `poll_examine`       — a check of such an invariant, to its end.
* `Sound`              — marks in which no operation was started on an invalid receiver.
* `begun_use`          — a guarded use has ended with its guarantee, or it stays guarded.
* `exec_use_refused`   — a guarded use of an instance that is not valid.
* `valid_of_construct` — an object that was constructed is valid.
-/

namespace Contracts

variable {κ ε : Type}

/-! ## Contracts that throw -/

/-- The invariant answers at once, as the state without the journal has it, and leaves that state
as it is. -/
def ReadOnly (host : Host κ ε) (invariant : κ) (valid : World ε → Value → Bool) : Prop :=
  ∀ w v, ∃ w', (host.holds invariant v).exec w = (.ok (.ready (valid w.state v)), w') ∧
    w'.state = w.state

structure Throwing (host : Host κ ε) (c : ClassContract κ) (valid : World ε → Value → Bool) :
    Prop where
  mode : c.mode = some .throw
  readOnly : ReadOnly host c.invariant valid
  quiet : c.trace.Quiet host

def checkMarks (code : κ) (v : Value) (w : World ε) (held : Bool) : List (Mark κ ε) :=
  [.started (.holds code v) w, .settled (.verdict held)]

theorem exec_holds_watched {host : Host κ ε} {code : κ} {valid : World ε → Value → Bool}
    (h : ReadOnly host code valid) (v : Value) (w : World (ε × List (Mark κ ε))) :
    ∃ s : World ε, (host.watched.holds code v).exec w = (.ok (.ready (valid w.main.state v)),
        s.beside (w.aside ++ checkMarks code v w.main (valid w.main.state v))) ∧
      s.state = w.main.state := by
  obtain ⟨s, hexec, hs⟩ := h w.main v
  refine ⟨s, ?_, hs⟩
  rw [Host.watched, exec_watch, hexec]
  simp [checkMarks]

/-! ## A check of the invariant -/

namespace Frame

variable {host : Host κ ε} {c : ClassContract κ} {valid : World ε → Value → Bool}
  (hc : Throwing host c valid) (f : Frame κ) (hf : f.spec = c.spec)

include hc hf

/-- A check of the invariant ends in its first poll. It raises a violation if the receiver is not
valid, and leaves the state as it was. -/
theorem poll_examine (result : Option Value) (g : Guard)
    (hg : g = .invariantBefore ∨ g = .invariantAfter) (e : Evaluation)
    (w : World (ε × List (Mark κ ε))) :
    ∃ s : World ε, (f.examine host.watched result g c.invariant e).poll w =
        (.finished (if valid w.main.state f.receiver then .ok true else .error (.violation
            (.about (f.input.failure g) f.className (some f.site.member)
              (f.subject w.main.heap result))),
          e.record g (valid w.main.state f.receiver)),
        s.beside (w.aside ++
          checkMarks c.invariant f.receiver w.main (valid w.main.state f.receiver))) ∧
      s.state = w.main.state := by
  obtain ⟨s, hholds, hs⟩ := exec_holds_watched hc.readOnly f.receiver w
  have htest : f.test host.watched result c.invariant g =
      host.watched.holds c.invariant f.receiver := by
    rcases hg with rfl | rfl <;> rfl
  have hquiet : f.spec.trace.Quiet host := by
    rw [hf]
    exact hc.quiet
  have hmode : f.spec.mode = some .throw := by
    rw [hf]
    exact hc.mode
  have hheap : s.heap = w.main.heap := by
    change s.state.heap = w.main.state.heap
    rw [hs]
  simp only [examine, settle, htest, Future.bind_eq, Future.poll_bind, Future.poll_lift, hholds,
    Future.pure_eq_done, Future.poll, exec_observe_watched, Action.exec_widen, World.main_beside,
    World.aside_beside]
  cases hheld : valid w.main.state f.receiver with
  | true =>
    obtain ⟨s', hobserve, hs'⟩ := exec_observe_true host f result g s hquiet
    rw [hobserve]
    exact ⟨s', rfl, hs'.trans hs⟩
  | false =>
    obtain ⟨s', hobserve, hs'⟩ := exec_observe_false host f result g s hquiet hmode
    rw [hobserve, hheap]
    exact ⟨s', rfl, hs'.trans hs⟩

end Frame

/-! ## Calls -/

/-- No operation was started on a receiver that was not valid at that moment. -/
def Sound (valid : World ε → Value → Bool) (marks : List (Mark κ ε)) : Prop :=
  ∀ v i w, .started (.operation v i) w ∈ marks → valid w.state v = true

theorem Sound.append {valid : World ε → Value → Bool} {marks marks' : List (Mark κ ε)}
    (h : Sound valid marks) (h' : Sound valid marks') : Sound valid (marks ++ marks') := by
  intro v i w hmem
  rcases List.mem_append.mp hmem with hmem | hmem
  · exact h v i w hmem
  · exact h' v i w hmem

theorem sound_checkMarks {valid : World ε → Value → Bool} {code : κ} {v : Value} {w : World ε}
    {held : Bool} : Sound valid (checkMarks code v w held) := by
  intro v' i w' hmem
  simp [checkMarks] at hmem

theorem sound_settled {valid : World ε → Value → Bool} {r : Reply} :
    Sound (κ := κ) valid [.settled r] := by
  intro v i w hmem
  simp at hmem

theorem sound_operation {valid : World ε → Value → Bool} {v : Value} {w : World ε}
    (h : valid w.state v = true) (i : Input) :
    Sound (κ := κ) valid [.started (.operation v i) w] := by
  intro v' i' w' hmem
  cases List.mem_singleton.mp hmem
  exact h

/-- Others may do anything to the state, but they start no operation on an invalid receiver. -/
def SoundAfter (valid : World ε → Value → Bool) (_ w : World (ε × List (Mark κ ε))) : Prop :=
  Sound valid w.aside

/-- A call that ended well left its receiver valid. -/
def Guarantee (valid : World ε → Value → Bool) (v : Value) (r : Except ContractError Value)
    (w : World (ε × List (Mark κ ε))) : Prop :=
  Sound valid w.aside ∧ (r.isOk = true → valid w.main.state v = true)

namespace Frame

variable {host : Host κ ε} {c : ClassContract κ} {valid : World ε → Value → Bool}
  (hc : Throwing host c valid) (f : Frame κ) (hf : f.spec = c.spec)

include hc hf

/-- The call goes on after a check only if the receiver is valid. -/
theorem upholds_examine_guarded
    {R : World (ε × List (Mark κ ε)) → World (ε × List (Mark κ ε)) → Prop}
    {I : World (ε × List (Mark κ ε)) → Prop}
    {Q : Except ContractError Bool × Evaluation → World (ε × List (Mark κ ε)) → Prop}
    (result : Option Value) (g : Guard) (hg : g = .invariantBefore ∨ g = .invariantAfter)
    (e : Evaluation) (w : World (ε × List (Mark κ ε))) (hw : Sound valid w.aside)
    (hpass : ∀ e' w', Sound valid w'.aside → valid w'.main.state f.receiver = true →
      Q (.ok true, e') w')
    (hfail : ∀ v e' w', Sound valid w'.aside → Q (.error (.violation v), e') w') :
    (f.examine host.watched result g c.invariant e).Upholds R I Q w := by
  obtain ⟨s, hpoll, hs⟩ := poll_examine hc f hf result g hg e w
  rw [Future.upholds_iff_poll, hpoll]
  cases hvalid : valid w.main.state f.receiver with
  | true =>
    refine hpass _ _ (hw.append sound_checkMarks) ?_
    rw [World.main_beside, hs]
    exact hvalid
  | false => exact hfail _ _ _ (hw.append sound_checkMarks)

theorem upholds_stages_guarded (operation : Action (World ε) (Completion ε))
    (w : World (ε × List (Mark κ ε))) (hw : Sound valid w.aside) :
    (f.stages host.watched (watch (.operation f.receiver f.input) .outcome operation)).Upholds
      (SoundAfter valid) (fun w => Sound valid w.aside)
      (fun r => Guarantee valid f.receiver r.1) w := by
  have hentry : f.spec.entry = [(.invariantBefore, c.invariant)] := by rw [hf]; rfl
  have hexit : f.spec.exit = [(.invariantAfter, c.invariant)] := by rw [hf]; rfl
  simp only [stages, hentry, hexit, enter, leave, Future.bind_eq, Future.upholds_bind]
  refine upholds_examine_guarded hc f hf none _ (.inl rfl) {} w hw ?_ ?_
  · intro e₁ w₁ hw₁ hvalid
    have hstart := hw₁.append (sound_operation hvalid f.input)
    simp only [Future.pure_eq_done, Future.Upholds, Future.upholds_bind]
    refine upholds_settle (P := Sound valid) (fun _ _ _ h => h) (fun _ h => h) _ _ _ _ _ _ hstart ?_
    rintro (err | result) e₂ w₂ hw₂
    · exact ⟨hw₂.append sound_settled, fun h => by cases h⟩
    · simp only [Future.upholds_bind]
      refine upholds_examine_guarded hc f hf (some result) _ (.inr rfl) _ _
        (hw₂.append sound_settled) ?_ ?_
      · exact fun e₃ w₃ hw₃ hlast => ⟨hw₃, fun _ => hlast⟩
      · exact fun v e₃ w₃ hw₃ => ⟨hw₃, fun h => by cases h⟩
  · exact fun v e₁ w₁ hw₁ => ⟨hw₁, fun h => by cases h⟩

theorem upholds_run_guarded (operation : Action (World ε) (Completion ε))
    (w : World (ε × List (Mark κ ε))) (hw : Sound valid w.aside) :
    (f.run host.watched (watch (.operation f.receiver f.input) .outcome operation)).Upholds
      (SoundAfter valid) (fun w => Sound valid w.aside)
      (fun r => Guarantee valid f.receiver r.1) w := by
  simp only [run, Future.bind_eq, Future.upholds_bind]
  refine (upholds_stages_guarded hc f hf operation w hw).mono ?_
  rintro ⟨r, e⟩ w' ⟨hsound, hr⟩
  simp only [Future.upholds_lift, World.exec_log]
  exact ⟨hsound, hr⟩

/-- On an invalid receiver a call is over at once, with the violation and without its operation. -/
theorem exec_invoke_refused (operation : Action (World (ε × List (Mark κ ε)))
    (Completion (ε × List (Mark κ ε)))) (w : World (ε × List (Mark κ ε)))
    (hinvalid : valid w.main.state f.receiver = false) :
    ∃ s : World ε, (invoke host.watched f operation).exec w =
        (.ok (.ready (.error (.violation (.about .constantBefore f.className (some f.site.member)
          (f.input.subject w.main.heap f.className f.site.member))))),
        s.beside (w.aside ++ checkMarks c.invariant f.receiver w.main false)) ∧
      s.state = w.main.state := by
  have hentry : f.spec.entry = [(.invariantBefore, c.invariant)] := by rw [hf]; rfl
  obtain ⟨s, hpoll, hs⟩ := poll_examine hc f hf none .invariantBefore (.inl rfl) {} w
  rw [hinvalid, if_neg Bool.false_ne_true] at hpoll
  refine ⟨((World.log (.evaluated f.className f.site.member false
    (({} : Evaluation).record .invariantBefore false))).exec s).2, ?_, hs⟩
  simp only [invoke, run, stages, hentry, enter, Future.bind_eq, Future.poll_bind, hpoll,
    Future.pure_eq_done, Future.poll, Future.poll_lift, World.exec_log, Action.exec_ofFun]
  simp only [Evaluation.isSuspended, Evaluation.record, Option.isSome_none, Bool.false_eq_true,
    if_false, subject, String.append_empty]
  rfl

end Frame

/-- The answer of a call that has ended, or what is left of the call. -/
def Eventual.progress {σ α : Type} : Eventual σ α → α ⊕ Future σ α
  | .ready a => .inl a
  | .pending (.done a) => .inl a
  | .pending t => .inr t

/-- A suspended call that goes on soundly, and keeps its guarantee when it ends. -/
def StaysGuarded (valid : World ε → Value → Bool) (v : Value)
    (t : Future (World (ε × List (Mark κ ε))) (Except ContractError Value)) : Prop :=
  ∀ w, Sound valid w.aside →
    t.Upholds (SoundAfter valid) (fun w => Sound valid w.aside) (Guarantee valid v) w

/-- A call that was started: it has ended with its guarantee, or it will stay guarded. -/
def Begun (valid : World ε → Value → Bool) (v : Value) :
    Except Abort (Completion (ε × List (Mark κ ε))) × World (ε × List (Mark κ ε)) → Prop
  | (.ok x, w) =>
    match x.progress with
    | .inl r => Guarantee valid v r w
    | .inr t => Sound valid w.aside ∧ StaysGuarded valid v t
  | (.error _, w) => Sound valid w.aside

section Uses

variable {host : Host κ ε} {c : ClassContract κ} {valid : World ε → Value → Bool}
  (hc : Throwing host c valid)

include hc

theorem begun_invoke (f : Frame κ) (hf : f.spec = c.spec)
    (operation : Action (World ε) (Completion ε)) (w : World (ε × List (Mark κ ε)))
    (hw : Sound valid w.aside) : Begun valid f.receiver
      ((invoke host.watched f
        (watch (.operation f.receiver f.input) .outcome operation)).exec w) := by
  have hpoll := (Future.upholds_iff_poll _ _).mp
    (Frame.upholds_run_guarded hc f hf operation w hw)
  simp only [invoke, Action.exec_ofFun]
  revert hpoll
  rcases (f.run host.watched (watch (.operation f.receiver f.input) .outcome operation)).poll w with
    ⟨⟨r, e⟩ | cause | rest, w'⟩
  · intro hr
    by_cases hsus : e.isSuspended
    · simp only [if_pos hsus]
      exact hr
    · simp only [if_neg hsus]
      exact hr
  · exact fun h => h
  · rintro ⟨hw', hrest⟩
    have hstays : StaysGuarded valid f.receiver (rest.bind fun r => .done r.1) :=
      fun w'' hw'' => (Future.upholds_bind _ _ _).mpr (hrest w'' hw'')
    cases rest with
    | done r => exact hrest w' hw'
    | abort cause => exact ⟨hw', hstays⟩
    | get next => exact ⟨hw', hstays⟩
    | put s next => exact ⟨hw', hstays⟩
    | wait next => exact ⟨hw', hstays⟩

variable {base : Class κ} (hbase : base.own.Plain) {i : Instance κ} {u : Use}
  (hu : Guarded base (.extend (base.own.underContract c) (some base)) i u)

include hbase hu

theorem begun_use (w : World (ε × List (Mark κ ε))) (hw : Sound valid w.aside) :
    Begun valid i.this ((i.use host.watched u).exec w) := by
  obtain ⟨key, code, _, _, huse⟩ := use_guarded hbase c hu
  rw [huse, Operation.exec_call_checked]
  exact begun_invoke hc
    (Operation.frame (memberSite base.name key) c.spec i.this u.input w.heap) rfl
    (host.operate code i.this u.input) w hw

/-- A guarded use of an instance that is not valid. -/
theorem exec_use_refused (w : World (ε × List (Mark κ ε)))
    (hinvalid : valid w.main.state i.this = false) :
    ∃ (key : MemberKey) (s : World ε), (key == u.key) = true ∧
      (i.use host.watched u).exec w =
        (.ok (.ready (.error (.violation (.about .constantBefore base.name (some key.text)
          (u.input.subject w.main.heap base.name key.text))))),
        s.beside (w.aside ++ checkMarks c.invariant i.this w.main false)) ∧
      s.state = w.main.state := by
  obtain ⟨key, code, hkey, _, huse⟩ := use_guarded hbase c hu
  obtain ⟨s, hexec, hs⟩ := Frame.exec_invoke_refused hc
    (Operation.frame (memberSite base.name key) c.spec i.this u.input w.heap) rfl
    (host.watched.operate code i.this u.input) w hinvalid
  refine ⟨key, s, hkey, ?_, hs⟩
  rw [huse, Operation.exec_call_checked]
  exact hexec

end Uses

/-! ## Constructions -/

/-- At the construction of an object an invariant is marked, and nothing else is. -/
theorem sound_check {valid : World ε → Value → Bool} (host : Host κ ε) (c : ClassContract κ)
    (className : String) (this : Value) (args : List Value) (w : World (ε × List (Mark κ ε)))
    (hw : Sound valid w.aside) :
    Sound valid ((c.check host.watched className this args).exec w).2.aside := by
  have hmark : Sound valid [.started (.holds c.invariant this) w.main] := by
    intro v i w' hmem
    simp at hmem
  have hstarted := hw.append hmark
  have hholds : host.watched.holds c.invariant this =
    watch (.holds c.invariant this) .verdict (host.holds c.invariant this) := rfl
  simp only [ClassContract.check, hholds, Action.exec_bind, exec_watch]
  rcases (host.holds c.invariant this).exec w.main with ⟨cause | held | t, s⟩
  · exact hstarted
  · have hchecked := hstarted.append (sound_settled (r := .verdict held))
    obtain ⟨s', htrace, _⟩ := exec_emit host c.trace
      (ClassContract.traceEvent className args held) s
    simp only [Action.exec_bind, exec_emit_watched, Action.exec_widen, World.main_beside, htrace]
    cases held with
    | true => exact hchecked
    | false =>
      rw [if_neg Bool.false_ne_true, exec_report_beside]
      exact hchecked
  · exact hstarted

theorem sound_setUp {valid : World ε → Value → Bool} (host : Host κ ε) (l : Layer κ) (this : Value)
    (args : List Value) (w : World (ε × List (Mark κ ε))) (hw : Sound valid w.aside) :
    Sound valid ((l.setUp host.watched this args).exec w).2.aside := by
  unfold Layer.setUp
  cases l.construction with
  | contract c => exact sound_check host c l.name this args w hw
  | initializer code =>
    cases code with
    | none => exact hw
    | some code => exact hw

theorem sound_setUpLayers {valid : World ε → Value → Bool} (host : Host κ ε) (this : Value)
    (args : List Value) (layers : List (Layer κ)) (w : World (ε × List (Mark κ ε)))
    (hw : Sound valid w.aside) :
    Sound valid ((setUpLayers host.watched this args layers).exec w).2.aside := by
  induction layers generalizing w with
  | nil => exact hw
  | cons l rest ih =>
    have hl := sound_setUp host l this args w hw
    simp only [setUpLayers, Action.exec_bind]
    revert hl
    rcases (l.setUp host.watched this args).exec w with ⟨cause | err | _, w'⟩
    · exact fun hl => hl
    · exact fun hl => hl
    · exact fun hl => ih w' hl

/-- A construction sets up a new object. -/
theorem exec_construct (host : Host κ ε) (c : Class κ) (args : List Value) (w : World ε) :
    ∃ (this : Value) (w₁ : World ε), w₁.own = w.own ∧
      (c.construct host args).exec w =
        match (setUpLayers host this args c.layers.reverse).exec w₁ with
        | (.ok (.ok ()), w') => (.ok (.ok ⟨c, this⟩), w')
        | (.ok (.error e), w') => (.ok (.error e), w')
        | (.error cause, w') => (.error cause, w') := by
  refine ⟨.object (w.heap.alloc { className := some c.name }).1,
    { w with heap := (w.heap.alloc { className := some c.name }).2 }, rfl, ?_⟩
  simp only [Class.construct, Action.exec_bind, World.exec_newRecord]
  rcases (setUpLayers host _ args c.layers.reverse).exec _ with ⟨cause | err | _, w'⟩
  · rfl
  · rfl
  · rfl

theorem sound_construct {valid : World ε → Value → Bool} (host : Host κ ε) (derived : Class κ)
    (args : List Value) (w : World (ε × List (Mark κ ε))) (hw : Sound valid w.aside) :
    Sound valid ((derived.construct host.watched args).exec w).2.aside := by
  obtain ⟨this, w₁, hown, hexec⟩ := exec_construct host.watched derived args w
  have haside : w₁.aside = w.aside := congrArg Prod.snd hown
  have hset := sound_setUpLayers host this args derived.layers.reverse w₁ (haside ▸ hw)
  rw [hexec]
  revert hset
  rcases (setUpLayers host.watched this args derived.layers.reverse).exec w₁ with
    ⟨cause | err | _, w'⟩
  · exact fun hset => hset
  · exact fun hset => hset
  · exact fun hset => hset

/-- An object is set up only if the last layer agrees. -/
theorem exec_setUpLayers_concat {host : Host κ ε} {this : Value} {args : List Value}
    {layers : List (Layer κ)} {last : Layer κ} {w w' : World ε}
    (h : (setUpLayers host this args (layers ++ [last])).exec w = (.ok (.ok ()), w')) :
    ∃ w₁, (last.setUp host this args).exec w₁ = (.ok (.ok ()), w') := by
  induction layers generalizing w with
  | nil =>
    refine ⟨w, ?_⟩
    simp only [List.nil_append, setUpLayers, Action.exec_bind] at h
    revert h
    rcases (last.setUp host this args).exec w with ⟨cause | err | _, w'⟩
    · exact fun h => by cases h
    · exact fun h => by cases h
    · exact fun h => h
  | cons l rest ih =>
    simp only [List.cons_append, setUpLayers, Action.exec_bind] at h
    revert h
    rcases (l.setUp host this args).exec w with ⟨cause | err | _, w'⟩
    · exact fun h => by cases h
    · exact fun h => by cases h
    · exact fun h => ih h

/-- A check at construction that is passed leaves the object valid. -/
theorem valid_of_check {host : Host κ ε} {c : ClassContract κ} {valid : World ε → Value → Bool}
    (hc : Throwing host c valid) {className : String} {this : Value} {args : List Value}
    {w w' : World ε}
    (h : (c.check host className this args).exec w = (.ok (.ok ()), w')) :
    valid w'.state this = true := by
  obtain ⟨w₁, hholds, hw₁⟩ := hc.readOnly w this
  obtain ⟨w₂, htrace, hw₂⟩ := exec_emit host c.trace
    (ClassContract.traceEvent className args (valid w.state this)) w₁
  simp only [ClassContract.check, Action.exec_bind, hholds, htrace, hc.mode] at h
  cases hvalid : valid w.state this with
  | true =>
    rw [hvalid] at h
    cases h
    rw [hw₂ hc.quiet, hw₁]
    exact hvalid
  | false =>
    rw [hvalid] at h
    cases h

theorem valid_of_construct {host : Host κ ε} {c : ClassContract κ} {valid : World ε → Value → Bool}
    (hc : Throwing host c valid) {base : Class κ} {args : List Value} {i : Instance κ}
    {w w' : World ε}
    (h : ((Class.extend (base.own.underContract c) (some base)).construct host args).exec w =
      (.ok (.ok i), w')) : valid w'.state i.this = true := by
  obtain ⟨this, w₁, _, hexec⟩ := exec_construct host
    (.extend (base.own.underContract c) (some base)) args w
  rw [hexec, Class.layers, List.reverse_cons] at h
  rcases hset : (setUpLayers host this args _).exec w₁ with ⟨cause | err | _, w₂⟩
  · rw [hset] at h
    cases h
  · rw [hset] at h
    cases h
  · rw [hset] at h
    cases h
    obtain ⟨_, hcheck⟩ := exec_setUpLayers_concat hset
    exact valid_of_check hc hcheck

end Contracts
