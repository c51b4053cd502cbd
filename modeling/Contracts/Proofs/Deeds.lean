import Contracts.Class.Contract
import Contracts.Proofs.Accounts
import Contracts.Proofs.Order

/-!
# Contracts.Proofs.Deeds

What is done, one after the other, in a call of an operation with any number of contracts.

* `Deed`           — a check, as it is traced, or a run of the code that the contracts are around.
* `Operation.Does` — the deeds of a call, those of the inner contracts between those of the outer
  ones.
* `course_of_polls`, `does_of_polls` — every call that has ended has a course and deeds, however it
  was polled.
* `Operation.under`, `does_under` — code under class contracts: if all goes well the invariants are
  checked from the outermost to the innermost, then the code is run, and then they are checked
  the other way round.
* `returns_under`  — such a call goes well if its callbacks do.
-/

namespace Contracts

variable {κ ε : Type}

/-! ## Deeds -/

inductive Deed (κ : Type) where
  /-- A predicate was called, and the check was traced. -/
  | check (callee : Callee κ) (event : TraceEvent)
  | body (code : κ) (receiver : Value) (input : Input) (r : Except ContractError Value)

/-- The check held, or the code returned a value. -/
def Deed.Well : Deed κ → Prop
  | .check _ event => event.passed = true
  | .body _ _ _ r => r.isOk = true

def Frame.deed (f : Frame κ) (x : Finding κ ε) : Deed κ :=
  .check (f.checkCallee x.result (x.guard, x.code)) (f.traceEvent x.result x.guard x.held)

theorem Frame.held_of_well {f : Frame κ} {x : Finding κ ε} {ds : List (Deed κ)}
    (h : ∀ d ∈ ds, d.Well) (hx : f.deed x ∈ ds) : x.held = true :=
  h _ hx

namespace Operation

/-- What a call does from its start to its end, and what it comes to. -/
inductive Does (R : World ε → World ε → Prop) (host : Host κ ε) (v : Value) (i : Input) :
    Operation κ → World ε → List (Deed κ) → Except ContractError Value → World ε → Prop where
  | plain {code : κ} {w w' : World ε} {r : Except ContractError Value} {waited : Bool}
      (h : (host.operate code v i).Settles R w r waited w') :
      Does R host v i (.plain code) w [.body code v i r] r w'
  /-- The operation inside was not called. -/
  | stopped {site : CallSite} {spec : Spec κ} {inner : Operation κ} {a : Account κ ε}
      {w w' : World ε} {r : Except ContractError Value}
      (h : (frame site spec v i w.heap).Course R host (inner.call host v i) w a r w')
      (hrun : a.run = none) :
      Does R host v i (.checked site spec inner) w
        (a.findings.map (frame site spec v i w.heap).deed) r
        ((frame site spec v i w.heap).closing a r w')
  | through {site : CallSite} {spec : Spec κ} {inner : Operation κ} {a : Account κ ε} {o : Run ε}
      {w w' : World ε} {r : Except ContractError Value} {ds : List (Deed κ)}
      (h : (frame site spec v i w.heap).Course R host (inner.call host v i) w a r w')
      (hrun : a.run = some o) (hinner : Does R host v i inner o.begun ds o.result o.ended) :
      Does R host v i (.checked site spec inner) w
        (a.entry.map (frame site spec v i w.heap).deed ++ ds ++
          a.exit.map (frame site spec v i w.heap).deed) r
        ((frame site spec v i w.heap).closing a r w')

end Operation

namespace Frame

variable {R : World ε → World ε → Prop} {host : Host κ ε} {f : Frame κ}
  {operation : Action (World ε) (Completion ε)} {w w' : World ε}

theorem Course.settles {a : Account κ ε} {r : Except ContractError Value}
    (h : f.Course R host operation w a r w') {o : Run ε} (hrun : a.run = some o) :
    operation.Settles R o.begun o.result o.waited o.ended := by
  cases h with
  | refused | refusedRaised => cases hrun
  | failed _ ho _ | completed _ ho _ _ =>
    cases hrun
    exact ho

/-- A single check before the operation. -/
theorem enters_singleton {g : Guard} {code : κ} {xs : List (Finding κ ε)}
    {verdict : Except ContractError Bool}
    (h : f.Enters R host [(g, code)] w xs verdict w') :
    ∃ x : Finding κ ε, xs = [x] ∧ x.guard = g ∧ x.code = code ∧ x.result = none ∧ x.begun = w ∧
      f.Examined R host x verdict w' := by
  cases h with
  | onward hn hx hs =>
    cases hs with
    | nil => exact ⟨_, rfl, rfl, rfl, hn, rfl, hx⟩
  | stopped _ hn hx _ => exact ⟨_, rfl, rfl, rfl, hn, rfl, hx⟩

/-- A single check after the operation. -/
theorem leaves_singleton {result : Value} {g : Guard} {code : κ} {ys : List (Finding κ ε)}
    {verdict : Except ContractError Unit}
    (h : f.Leaves R host result [(g, code)] w ys verdict w') :
    ∃ (y : Finding κ ε) (examined : Except ContractError Bool), ys = [y] ∧ y.guard = g ∧
      y.code = code ∧ y.result = some result ∧ f.Examined R host y examined w' ∧
      verdict = examined.map fun _ => () := by
  cases h with
  | onward hn hx hs =>
    cases hs with
    | nil => exact ⟨_, _, rfl, rfl, rfl, hn, hx, rfl⟩
  | stopped _ hn hx => exact ⟨_, _, rfl, rfl, rfl, hn, hx, rfl⟩

theorem Examined.eq_of_held {x : Finding κ ε} {verdict : Except ContractError Bool}
    (h : f.Examined R host x verdict w') (hx : x.held = true) : verdict = .ok true := by
  rcases h with _ | ⟨_, hfalse, _⟩
  · rfl
  · rw [hx] at hfalse
    cases hfalse

theorem Examined.held_of_eq {x : Finding κ ε} (h : f.Examined R host x (.ok true) w') :
    x.held = true := by
  generalize hv : (Except.ok true : Except ContractError Bool) = verdict at h
  cases h with
  | held _ hx => exact hx
  | @failed verdict _ _ _ _ => cases verdict <;> cases hv

end Frame

/-! ## Every call that has ended has deeds -/

namespace Operation

variable {R : World ε → World ε → Prop} {host : Host κ ε} {v : Value} {i : Input}
  {w w' : World ε} {r : Except ContractError Value}

theorem does_of_course {site : CallSite} {spec : Spec κ} {inner : Operation κ} {a : Account κ ε}
    (hinner : ∀ {w w' : World ε} {r : Except ContractError Value} {waited : Bool},
      (inner.call host v i).Settles R w r waited w' → ∃ ds, Does R host v i inner w ds r w')
    (h : (frame site spec v i w.heap).Course R host (inner.call host v i) w a r w') :
    ∃ ds, Does R host v i (.checked site spec inner) w ds r
      ((frame site spec v i w.heap).closing a r w') := by
  cases hrun : a.run with
  | none => exact ⟨_, .stopped h hrun⟩
  | some o =>
    obtain ⟨ds, hds⟩ := hinner (h.settles hrun)
    exact ⟨_, .through h hrun hds⟩

theorem settles_call_checked {site : CallSite} {spec : Spec κ} {inner : Operation κ}
    {waited : Bool} (h : ((checked site spec inner).call host v i).Settles R w r waited w') :
    (invoke host (frame site spec v i w.heap) (inner.call host v i)).Settles R w r waited w' := by
  rcases h with h | ⟨h, ht⟩
  · exact .ready (by rwa [exec_call_checked] at h)
  · exact .pending (by rwa [exec_call_checked] at h) ht

/-- A call inside another one has deeds. -/
theorem does_of_settles (hR : ∀ w, R w w) (op : Operation κ) {waited : Bool}
    (h : (op.call host v i).Settles R w r waited w') : ∃ ds, Does R host v i op w ds r w' := by
  induction op generalizing w w' r waited with
  | plain code => exact ⟨_, .plain h⟩
  | checked site spec inner ih =>
    obtain ⟨a, w₁, hcourse, rfl⟩ :=
      Frame.exists_course_of_settles hR (settles_call_checked h)
    exact does_of_course ih hcourse

/-- What others do while a call waits. -/
def Among (changes : List (World ε → World ε)) (w w' : World ε) : Prop :=
  w' = w ∨ ∃ change ∈ changes, w' = change w

/-- A call that was started, and polled to its end with changes in between, has a course. Whoever
polls it once too often may change the state of its end. -/
theorem course_of_polls {site : CallSite} {spec : Spec κ} {inner : Operation κ}
    {changes : List (World ε → World ε)}
    (h : ((checked site spec inner).call host v i).polls changes w = (.finished r, w')) :
    ∃ (a : Account κ ε) (w₁ : World ε),
      (frame site spec v i w.heap).Course (Among changes) host (inner.call host v i) w a r w₁ ∧
      Among changes ((frame site spec v i w.heap).closing a r w₁) w' := by
  have hpolls : ((checked site spec inner).call host v i).polls changes w =
      (invoke host (frame site spec v i w.heap) (inner.call host v i)).polls changes w := by
    rw [Action.polls, Action.polls, exec_call_checked]
  rw [hpolls] at h
  obtain ⟨hresult, hstate⟩ := invoke_polls host (frame site spec v i w.heap)
    (inner.call host v i) changes w
  rw [h] at hresult hstate
  have hprotocol := hresult (.ok r) rfl
  rcases hp : ((frame site spec v i w.heap).run host (inner.call host v i)).polls
    (id :: changes) w with ⟨⟨r', e⟩ | c | rest, w₁⟩ <;> rw [hp] at hprotocol hstate
  · cases hprotocol
    have hends := Future.ends_of_polls (R := Among changes)
      (fun change hmem w => .inr ⟨change, hmem, rfl⟩) hp
    obtain ⟨a, w₂, hcourse, _, rfl⟩ := Frame.ends_run.mp hends
    exact ⟨a, w₂, hcourse, hstate⟩
  · cases hprotocol
  · cases hprotocol

/-- A call that was polled to its end has deeds. -/
theorem does_of_polls {site : CallSite} {spec : Spec κ} {inner : Operation κ}
    {changes : List (World ε → World ε)}
    (h : ((checked site spec inner).call host v i).polls changes w = (.finished r, w')) :
    ∃ ds w₁, Does (Among changes) host v i (.checked site spec inner) w ds r w₁ ∧
      Among changes w₁ w' := by
  obtain ⟨a, w₁, hcourse, hstate⟩ := course_of_polls h
  obtain ⟨ds, hds⟩ := does_of_course
    (fun hs => does_of_settles (fun w => .inl rfl) inner hs) hcourse
  exact ⟨ds, _, hds, hstate⟩

/-! ## Code under class contracts -/

/-- Code with the invariants of class contracts around it, the outermost first. -/
def under (site : CallSite) (contracts : List (ClassContract κ)) (code : κ) : Operation κ :=
  contracts.foldr (fun c op => .checked site c.spec op) (.plain code)

end Operation

/-- A check of the invariant of a class on a receiver, which held, as it is traced for a member. -/
def ClassContract.deed (className member : String) (v : Value) (i : Input) (g : Guard)
    (result : Option Value) (c : ClassContract κ) : Deed κ :=
  .check (.holds c.invariant v) {
    kind := .around g
    className
    member
    input := i
    result
    passed := true
    failure := none }

/-- The deeds of a call that goes well: the invariants from the outermost to the innermost, the code
once, and the invariants from the innermost to the outermost. -/
def deedsAround (className member : String) (v : Value) (i : Input)
    (contracts : List (ClassContract κ)) (code : κ) (value : Value) : List (Deed κ) :=
  contracts.map (ClassContract.deed className member v i .invariantBefore none) ++
    [.body code v i (.ok value)] ++
    contracts.reverse.map (ClassContract.deed className member v i .invariantAfter (some value))

theorem deedsAround_cons (className member : String) (v : Value) (i : Input)
    (c : ClassContract κ) (rest : List (ClassContract κ)) (code : κ) (value : Value) :
    deedsAround className member v i (c :: rest) code value =
      c.deed className member v i .invariantBefore none ::
        deedsAround className member v i rest code value ++
        [c.deed className member v i .invariantAfter (some value)] := by
  simp [deedsAround]

namespace Operation

variable {R : World ε → World ε → Prop} {host : Host κ ε} {v : Value} {i : Input}
  {w w' : World ε} {r : Except ContractError Value}

theorem deed_frame {className member : String} {c : ClassContract κ} {x : Finding κ ε}
    (hg : x.guard = .invariantBefore ∨ x.guard = .invariantAfter) (hcode : x.code = c.invariant)
    (hx : x.held = true) :
    (frame ⟨some className, member⟩ c.spec v i w.heap).deed x =
      c.deed className member v i x.guard x.result := by
  rw [Frame.deed, Frame.traceEvent, hcode, hx]
  rcases hg with hg | hg
  · rw [hg]
    rfl
  · rw [hg]
    rfl

/-- If all goes well, a call of code under class contracts does just this. -/
theorem does_under {className member : String} {contracts : List (ClassContract κ)} {code : κ}
    {ds : List (Deed κ)}
    (h : Does R host v i (under ⟨some className, member⟩ contracts code) w ds r w')
    (hwell : ∀ d ∈ ds, d.Well) :
    ∃ value, r = .ok value ∧ ds = deedsAround className member v i contracts code value := by
  induction contracts generalizing w w' r ds with
  | nil =>
    cases h with
    | plain h =>
      have hok := hwell _ (List.mem_singleton_self _)
      cases r with
      | error err => cases hok
      | ok value => exact ⟨value, rfl, rfl⟩
  | cons c rest ih =>
    cases h with
    | stopped h hrun =>
      -- a check before the operation has failed
      cases h with
      | failed | completed => cases hrun
      | refused henter | refusedRaised henter =>
        obtain ⟨x, rfl, _, _, _, _, hx⟩ := Frame.enters_singleton henter
        have hheld := Frame.held_of_well hwell (List.mem_map_of_mem (List.mem_singleton_self x))
        cases hx.eq_of_held hheld
    | @through _ _ _ a o _ _ _ ds h hrun hinner =>
      obtain ⟨value, hvalue, rfl⟩ := ih hinner fun d hd => hwell d (by simp [hd])
      cases h with
      | refused | refusedRaised => cases hrun
      | failed _ _ hr =>
        cases hrun
        rw [hvalue] at hr
        cases hr
      | completed henter _ hr hleave =>
        cases hrun
        rw [hvalue] at hr
        cases hr
        obtain ⟨x, rfl, hg, hcode, hn, _, hx⟩ := Frame.enters_singleton henter
        obtain ⟨y, examined, rfl, hg', hcode', hn', hy, rfl⟩ := Frame.leaves_singleton hleave
        have hheld := Frame.held_of_well hwell
          (List.mem_append_right _ (List.mem_map_of_mem (List.mem_singleton_self y)))
        rw [hy.eq_of_held hheld]
        refine ⟨value, rfl, ?_⟩
        rw [deedsAround_cons, List.map_singleton, List.map_singleton,
          deed_frame (.inl hg) hcode hx.held_of_eq, deed_frame (.inr hg') hcode' hheld, hg, hg',
          hn, hn']
        rfl

end Operation

/-! ## Calls that come to a value -/

/-- A check whose predicate comes to true is passed. -/
theorem Frame.exists_examined {host : Host κ ε} {f : Frame κ} (g : Guard) {code : κ}
    (result : Option Value) (h : (f.test host result code g).Comes (· = true)) (w : World ε) :
    ∃ x : Finding κ ε, x.guard = g ∧ x.code = code ∧ x.result = result ∧ x.begun = w ∧
      x.held = true ∧ f.Examined Eq host x (.ok true) x.traced := by
  obtain ⟨x, hg, hcode, hn, hw, hheld, hx⟩ := f.exists_made g result h w
  exact ⟨x, hg, hcode, hn, hw, hheld, .held hx hheld⟩

/-- A call of code under class contracts goes well if all of the invariants come to true and the
code comes to a value. -/
theorem returns_under {host : Host κ ε} {v : Value} {i : Input} (className member : String)
    {contracts : List (ClassContract κ)} {code : κ}
    (hinv : ∀ c ∈ contracts, (host.holds c.invariant v).Comes (· = true))
    (hcode : (host.operate code v i).Comes (·.isOk = true)) (w : World ε) :
    ∃ value w',
      ((Operation.under ⟨some className, member⟩ contracts code).call host v i).drive.exec w =
        (.ok (.ok value), w') ∧
      Operation.Does Eq host v i (.under ⟨some className, member⟩ contracts code) w
        (deedsAround className member v i contracts code value) (.ok value) w' := by
  induction contracts generalizing w with
  | nil =>
    obtain ⟨r, w', hdrive, hr⟩ := hcode w
    cases r with
    | error err => cases hr
    | ok value =>
      obtain ⟨waited, hrun⟩ := Action.settles_eq_iff.mpr hdrive
      exact ⟨value, w', hdrive, .plain hrun⟩
  | cons c rest ih =>
    let f := Operation.frame ⟨some className, member⟩ c.spec v i w.heap
    have hc : (host.holds c.invariant v).Comes (· = true) := hinv c (by simp)
    obtain ⟨x, hg, hcode', hn, rfl, hheld, hx⟩ :=
      Frame.exists_examined (f := f) .invariantBefore none hc w
    obtain ⟨value, w₁, hdrive, hdoes⟩ := ih (fun c' hc' => hinv c' (by simp [hc'])) x.traced
    obtain ⟨waited, hrun⟩ := Action.settles_eq_iff.mpr hdrive
    obtain ⟨y, hg', hcode'', hn', rfl, hheld', hy⟩ :=
      Frame.exists_examined (f := f) .invariantAfter (some value) hc w₁
    have henter : f.Enters Eq host f.spec.entry x.begun [x] (.ok true) x.traced := by
      rw [show f.spec.entry = [(x.guard, x.code)] by rw [hg, hcode']; rfl]
      exact .onward hn hx (.nil _)
    have hleave : f.Leaves Eq host value f.spec.exit y.begun [y] (.ok ()) y.traced := by
      rw [show f.spec.exit = [(y.guard, y.code)] by rw [hg', hcode'']; rfl]
      exact .onward hn' hy (.nil _)
    have hcourse := Frame.Course.completed (o := ⟨.ok value, waited, x.traced, y.begun⟩) henter
      hrun rfl hleave
    have hdeeds : deedsAround className member v i (c :: rest) code value =
        [x].map f.deed ++ deedsAround className member v i rest code value ++ [y].map f.deed := by
      rw [deedsAround_cons, List.map_singleton, List.map_singleton,
        Operation.deed_frame (.inl hg) hcode' hheld, Operation.deed_frame (.inr hg') hcode'' hheld',
        hg, hg', hn, hn']
      rfl
    refine ⟨value, _, Operation.exec_call_iff.mpr ⟨_, _, hcourse, rfl⟩, ?_⟩
    rw [hdeeds]
    exact .through hcourse rfl hdoes

end Contracts
