import Contracts.Proofs.Confinement
import Mathlib.Logic.Function.Basic

/-!
# Contracts.Proofs.Isolation

Calls that overlap.

* `Call`, `Progress`, `System` — several calls on one state, each idle, suspended, ended or gone.
* `System.step`, `System.run` — one call is started or polled, and this in any order.
* `Isolated` — calls whose callbacks stay within parts that have nothing in common.
* `calls_isolated` — each of them comes to what it comes to on its own, poll by poll.
-/

namespace Contracts

open List (Forall₂)

/-! ## Systems of calls -/

structure Call (κ : Type) where
  wrapped : Wrapped κ
  receiver : Value
  args : List Value

/-- How far a call has come. -/
inductive Progress (ε : Type) where
  | idle
  | suspended (t : Future (World ε) (Except ContractError Value))
  | ended (r : Except ContractError Value)
  | gone (cause : Abort)

variable {κ ι ε π : Type}

/-- Starts a call, or polls it. A call that has ended or is gone stays as it is. -/
def Call.step (host : Host κ ε) (c : Call κ) : Progress ε → World ε → Progress ε × World ε
  | .idle, w =>
    match (c.wrapped.call host c.receiver c.args).exec w with
    | (.ok (.ready r), w') => (.ended r, w')
    | (.ok (.pending t), w') => (.suspended t, w')
    | (.error cause, w') => (.gone cause, w')
  | .suspended t, w =>
    match t.poll w with
    | (.finished r, w') => (.ended r, w')
    | (.waiting rest, w') => (.suspended rest, w')
    | (.aborted cause, w') => (.gone cause, w')
  | p, w => (p, w)

/-- Several calls on one state. -/
structure System (ι ε : Type) where
  world : World ε
  progress : ι → Progress ε
  /-- What has been written into the journal, and during whose steps. -/
  log : List (ι × Event)

namespace System

def outset (w : World ε) : System ι ε := ⟨w, fun _ => .idle, []⟩

variable [DecidableEq ι]

def step (host : Host κ ε) (calls : ι → Call κ) (s : System ι ε) (i : ι) : System ι ε :=
  let (p, w) := (calls i).step host (s.progress i) s.world
  { world := w
    progress := Function.update s.progress i p
    log := s.log ++ (w.journal.drop s.world.journal.length).map fun e => (i, e) }

def run (host : Host κ ε) (calls : ι → Call κ) (s : System ι ε) (schedule : List ι) : System ι ε :=
  schedule.foldl (step host calls) s

/-- What was written during the steps of one call. -/
def entriesOf (s : System ι ε) (i : ι) : List Event := (s.log.filter (·.1 = i)).map Prod.snd

end System

/-! ## Calls that have nothing in common -/

def Form.receiver : Form → Value → Value
  | .function, _ => .undefined
  | _, v => v

def Form.input : Form → List Value → Input
  | .setter, args => .value (args.headD .undefined)
  | _, args => .args args

theorem Wrapped.call_eq (host : Host κ ε) (w : Wrapped κ) (receiver : Value) (args : List Value) :
    w.call host receiver args =
      w.operation.call host (w.form.receiver receiver) (w.form.input args) := by
  cases hform : w.form <;> simp only [Wrapped.call, hform, Form.receiver, Form.input]

/-- The references of a list, standing for themselves. -/
def keep (refs : List Ref) : Ref ≃. Ref where
  toFun r := if r ∈ refs then some r else none
  invFun r := if r ∈ refs then some r else none
  inv a b := by
    by_cases ha : a ∈ refs <;> by_cases hb : b ∈ refs
    · simp [ha, hb, eq_comm]
    · rw [if_neg hb, if_pos ha]
      simp only [reduceCtorEq, Option.some.injEq, false_iff]
      rintro rfl
      exact hb ha
    · rw [if_pos hb, if_neg ha]
      simp only [reduceCtorEq, Option.some.injEq, iff_false]
      rintro rfl
      exact ha hb
    · simp [ha, hb]

theorem keep_apply (refs : List Ref) (r : Ref) : keep refs r = if r ∈ refs then some r else none :=
  rfl

/-- What a call is given lies within the records that it owns, and so does what its callbacks do:
from two states in which these records and its own part are the same they come to the same, and
they change nothing else, the failure mode included. -/
structure Confined (L : Layout ι ε π) (i : ι) (host : Host κ ε) (c : Call κ) (owned : List Ref) :
    Prop where
  receiver : (c.wrapped.form.receiver c.receiver).Alike (keep owned)
    (c.wrapped.form.receiver c.receiver)
  input : SameInput (Value.Alike (keep owned)) (c.wrapped.form.input c.args)
    (c.wrapped.form.input c.args)
  callbacks : (L.view i).SameCallbacks (keep owned) host host
    (c.wrapped.form.receiver c.receiver) (c.wrapped.form.receiver c.receiver)
    (c.wrapped.form.input c.args) (c.wrapped.form.input c.args) c.wrapped.operation

/-- Calls whose callbacks stay within parts that have nothing in common. -/
structure Isolated (L : Layout ι ε π) (host : Host κ ε) (calls : ι → Call κ) (w : World ε)
    (owned : ι → List Ref) : Prop where
  disjoint : ∀ i j, i ≠ j → ∀ r, r ∈ owned i → r ∉ owned j
  /-- The records that a call owns are there, and all that they refer to. -/
  closed : ∀ i, L.Agree i (keep (owned i)) w w
  confined : ∀ i, Confined L i host (calls i) (owned i)

inductive Progress.Alike (R : Except ContractError Value → Except ContractError Value → Prop)
    (W : Future (World ε) (Except ContractError Value) →
      Future (World ε) (Except ContractError Value) → Prop) : Progress ε → Progress ε → Prop where
  | idle : Alike R W .idle .idle
  | suspended {t u : Future (World ε) (Except ContractError Value)} (h : W t u) :
      Alike R W (.suspended t) (.suspended u)
  | ended {r r' : Except ContractError Value} (h : R r r') : Alike R W (.ended r) (.ended r')
  | gone (cause : Abort) : Alike R W (.gone cause) (.gone cause)

/-! ## One step -/

section Step

variable {L : Layout ι ε π} {i j : ι} {ρ ρ' : Ref ≃. Ref} {w v w' v' : World ε}

/-- Calls of one operation that have come equally far and see the same come equally far again. -/
theorem Call.step_alike {host : Host κ ε} {c : Call κ} {p q : Progress ε}
    (hstart : (L.view i).Starts (L.view i).OutcomeSame ρ
      (c.wrapped.call host c.receiver c.args) (c.wrapped.call host c.receiver c.args))
    (hw : L.Agree i ρ w v)
    (hp : p.Alike ((L.view i).OutcomeSame ρ) ((L.view i).Runs (L.view i).OutcomeSame ρ) q) :
    ∃ ρ', L.Agree i ρ' (c.step host p w).2 (c.step host q v).2 ∧
      L.Moved i ρ w v ρ' (c.step host p w).2 (c.step host q v).2 ∧
      (c.step host p w).1.Alike ((L.view i).OutcomeSame ρ')
        ((L.view i).Runs (L.view i).OutcomeSame ρ') (c.step host q v).1 := by
  cases hp with
  | idle =>
    obtain ⟨ρ', hw', hm, he⟩ := hstart ρ le_rfl w v hw
    simp only [Call.step]
    revert hw' hm he
    rcases (c.wrapped.call host c.receiver c.args).exec w with ⟨x, w'⟩
    rcases (c.wrapped.call host c.receiver c.args).exec v with ⟨y, v'⟩
    intro hw' hm he
    cases he with
    | error cause => exact ⟨ρ', hw', hm, .gone cause⟩
    | ok hxy =>
      cases hxy with
      | ready hr => exact ⟨ρ', hw', hm, .ended hr⟩
      | pending htu => exact ⟨ρ', hw', hm, .suspended htu⟩
  | @suspended t u htu =>
    obtain ⟨ρ', hw', hm, he⟩ := htu.pollsTo ρ le_rfl w v hw
    simp only [Call.step]
    revert hw' hm he
    rcases t.poll w with ⟨x, w'⟩
    rcases u.poll v with ⟨y, v'⟩
    intro hw' hm he
    cases he with
    | finished hr => exact ⟨ρ', hw', hm, .ended hr⟩
    | aborted cause => exact ⟨ρ', hw', hm, .gone cause⟩
    | waiting htu => exact ⟨ρ', hw', hm, .suspended htu⟩
  | ended hr => exact ⟨ρ, hw, .refl w v, .ended hr⟩
  | gone cause => exact ⟨ρ, hw, .refl w v, .gone cause⟩

/-- What one call does is not seen by another one that knows other records. -/
theorem Layout.Agree.of_moved {ρⱼ : Ref ≃. Ref} {u : World ε} (hj : j ≠ i)
    (hdisjoint : ∀ r, ρⱼ r ≠ none → ρ r = none) (h : L.Agree j ρⱼ w u)
    (hm : L.Moved i ρ w v ρ' w' v') : L.Agree j ρⱼ w' u where
  heap r r' hr := by
    obtain ⟨rec, rec', hrec, hrec', halike⟩ := h.heap r r' hr
    have hunknown : ρ r = none := hdisjoint r (by rw [hr]; exact Option.some_ne_none r')
    have hkept := hm.kept r hunknown (Heap.lt_size_of_record? hrec)
    exact ⟨rec, rec', hkept.trans hrec, hrec', halike⟩
  mode := hm.mode.trans h.mode
  own := by
    rw [hm.others j hj]
    exact h.own

/-- What one call has come to know no other call knows. -/
theorem Layout.Moved.disjoint {ρⱼ : Ref ≃. Ref} {u : World ε} (h : L.Agree j ρⱼ w u)
    (hm : L.Moved i ρ w v ρ' w' v') (hdisjoint : ∀ r, ρⱼ r ≠ none → ρ r = none) (r : Ref)
    (hr : ρⱼ r ≠ none) : ρ' r = none := by
  by_contra hne
  obtain ⟨r', hr'⟩ := Option.ne_none_iff_exists'.mp hr
  obtain ⟨_, _, hrec, _, _⟩ := h.heap r r' hr'
  have hold := Heap.lt_size_of_record? hrec
  have hnew := hm.fresh r (hdisjoint r hr) hne
  omega

theorem drop_journal {new : List Event} (h : w'.entries = new ++ w.entries) :
    w'.journal.drop w.journal.length = new.reverse := by
  simp [World.journal, h]

end Step

namespace System

variable [DecidableEq ι] {host : Host κ ε} {calls : ι → Call κ} {s : System ι ε} {i j : ι}

theorem entriesOf_tagged_self (es : List Event) :
    ((es.map fun e => (i, e)).filter (·.1 = i)).map Prod.snd = es := by
  induction es with
  | nil => rfl
  | cons e es ih => simp [ih]

theorem entriesOf_tagged_of_ne (h : j ≠ i) (es : List Event) :
    ((es.map fun e => (i, e)).filter (·.1 = j)).map Prod.snd = [] := by
  induction es with
  | nil => rfl
  | cons e es ih => simp [Ne.symm h, ih]

theorem entriesOf_step_self : (s.step host calls i).entriesOf i =
    s.entriesOf i ++ (s.step host calls i).world.journal.drop s.world.journal.length := by
  simp only [entriesOf, step]
  rw [List.filter_append, List.map_append, entriesOf_tagged_self]

theorem entriesOf_step_of_ne (h : j ≠ i) : (s.step host calls i).entriesOf j = s.entriesOf j := by
  simp only [entriesOf, step]
  rw [List.filter_append, List.map_append, entriesOf_tagged_of_ne h, List.append_nil]

theorem progress_step_self : (s.step host calls i).progress i =
    ((calls i).step host (s.progress i) s.world).1 :=
  Function.update_self ..

theorem progress_step_of_ne (h : j ≠ i) : (s.step host calls i).progress j = s.progress j :=
  Function.update_of_ne h ..

end System

/-! ## Every order of steps -/

section Run

variable [DecidableEq ι] {L : Layout ι ε π} {host : Host κ ε} {calls : ι → Call κ} {i j : ι}
  {ρ : Ref ≃. Ref} {s v : System ι ε}

/-- A call has come as far among others as on its own, sees the same and has written the same. -/
structure Matches (L : Layout ι ε π) (i : ι) (ρ : Ref ≃. Ref) (s v : System ι ε) : Prop where
  agree : L.Agree i ρ s.world v.world
  progress : (s.progress i).Alike ((L.view i).OutcomeSame ρ)
    ((L.view i).Runs (L.view i).OutcomeSame ρ) (v.progress i)
  entries : Forall₂ (SameEvent (Value.Alike ρ)) (s.entriesOf i) (v.entriesOf i)

theorem Matches.step_self (h : Matches L i ρ s v)
    (hstart : (L.view i).Starts (L.view i).OutcomeSame ρ
      ((calls i).wrapped.call host (calls i).receiver (calls i).args)
      ((calls i).wrapped.call host (calls i).receiver (calls i).args)) :
    ∃ ρ', Matches L i ρ' (s.step host calls i) (v.step host calls i) ∧
      L.Moved i ρ s.world v.world ρ' (s.step host calls i).world (v.step host calls i).world := by
  obtain ⟨ρ', hagree, hstep, hprogress⟩ := Call.step_alike hstart h.agree h.progress
  have hmoved : L.Moved i ρ s.world v.world ρ' (s.step host calls i).world
    (v.step host calls i).world := hstep
  refine ⟨ρ', ⟨hagree, ?_, ?_⟩, hmoved⟩
  · rw [System.progress_step_self, System.progress_step_self]
    exact hprogress
  · obtain ⟨new, new', hnew, hnew', hsame⟩ := hmoved.entries
    rw [System.entriesOf_step_self, System.entriesOf_step_self, drop_journal hnew,
      drop_journal hnew']
    refine List.rel_append ?_ (List.forall₂_reverse_iff.mpr hsame)
    exact h.entries.imp fun _ _ he => he.mono fun _ _ hv => hv.mono hmoved.le

theorem Matches.step_other {ρᵢ ρᵢ' : Ref ≃. Ref} {u u' : World ε} (hj : j ≠ i)
    (hdisjoint : ∀ r, ρ r ≠ none → ρᵢ r = none) (h : Matches L j ρ s v)
    (hmoved : L.Moved i ρᵢ s.world u ρᵢ' (s.step host calls i).world u') :
    Matches L j ρ (s.step host calls i) v where
  agree := h.agree.of_moved hj hdisjoint hmoved
  progress := by
    rw [System.progress_step_of_ne hj]
    exact h.progress
  entries := by
    rw [System.entriesOf_step_of_ne hj]
    exact h.entries

/-- All calls match what they are on their own, and no record is known to two of them. Every entry
of the journal stands in the log of the call whose step wrote it. -/
structure Apart (L : Layout ι ε π) (owned : ι → List Ref) (w : World ε) (s : System ι ε)
    (alone : ι → System ι ε) (known : ι → Ref ≃. Ref) : Prop where
  owned : ∀ i, keep (owned i) ≤ known i
  each : ∀ i, Matches L i (known i) s (alone i)
  disjoint : ∀ i j, i ≠ j → ∀ r, known i r ≠ none → known j r = none
  journal : s.world.journal = w.journal ++ s.log.map Prod.snd

variable {owned : ι → List Ref} {w : World ε} {alone : ι → System ι ε} {known : ι → Ref ≃. Ref}

theorem Apart.step (h : Apart L owned w s alone known) (hiso : Isolated L host calls w owned)
    (i : ι) : ∃ known', Apart L owned w (s.step host calls i)
      (Function.update alone i ((alone i).step host calls i)) known' := by
  have hstart : (L.view i).Starts (L.view i).OutcomeSame (known i)
      ((calls i).wrapped.call host (calls i).receiver (calls i).args)
      ((calls i).wrapped.call host (calls i).receiver (calls i).args) := by
    have hconfined := hiso.confined i
    rw [Wrapped.call_eq]
    exact (Comparison.starts_call hconfined.receiver hconfined.input _ hconfined.callbacks).mono
      (h.owned i)
  obtain ⟨ρ', hmatch, hmoved⟩ := (h.each i).step_self hstart
  refine ⟨Function.update known i ρ', ?_, ?_, ?_, ?_⟩
  · intro j
    by_cases hj : j = i
    · subst hj
      rw [Function.update_self]
      exact (h.owned j).trans hmoved.le
    · rw [Function.update_of_ne hj]
      exact h.owned j
  · intro j
    by_cases hj : j = i
    · subst hj
      rw [Function.update_self, Function.update_self]
      exact hmatch
    · rw [Function.update_of_ne hj, Function.update_of_ne hj]
      exact (h.each j).step_other hj (h.disjoint j i hj) hmoved
  · intro j k hjk r hr
    by_cases hj : j = i
    · subst hj
      rw [Function.update_of_ne (Ne.symm hjk)]
      rw [Function.update_self] at hr
      by_contra hk
      exact hr (hmoved.disjoint (h.each k).agree (h.disjoint k j (Ne.symm hjk)) r hk)
    · rw [Function.update_of_ne hj] at hr
      by_cases hk : k = i
      · subst hk
        rw [Function.update_self]
        exact hmoved.disjoint (h.each j).agree (h.disjoint j k hj) r hr
      · rw [Function.update_of_ne hk]
        exact h.disjoint j k hjk r hr
  · obtain ⟨new, _, hnew, _, _⟩ := hmoved.entries
    have hlog : (s.step host calls i).log = s.log ++ new.reverse.map fun e => (i, e) := by
      rw [← drop_journal hnew]
      rfl
    have htags : (new.reverse.map fun e => (i, e)).map Prod.snd = new.reverse := by
      rw [List.map_map]
      exact List.map_id _
    rw [hlog, List.map_append, htags, ← List.append_assoc, ← h.journal, World.journal, hnew,
      List.reverse_append]
    rfl

theorem Apart.run (h : Apart L owned w s alone known) (hiso : Isolated L host calls w owned)
    (schedule : List ι) : ∃ known', Apart L owned w (s.run host calls schedule)
      (fun i => (alone i).run host calls (List.replicate (schedule.count i) i)) known' := by
  induction schedule generalizing s alone known with
  | nil => exact ⟨known, h⟩
  | cons i rest ih =>
    obtain ⟨known', hstep⟩ := h.step hiso i
    obtain ⟨known'', hrun⟩ := ih hstep
    refine ⟨known'', ?_⟩
    have halone : (fun j => (Function.update alone i ((alone i).step host calls i) j).run host calls
        (List.replicate (rest.count j) j)) =
        fun j => (alone j).run host calls (List.replicate ((i :: rest).count j) j) := by
      funext j
      by_cases hj : j = i
      · subst hj
        rw [Function.update_self, List.count_cons_self, List.replicate_succ]
        rfl
      · rw [Function.update_of_ne hj, List.count_cons_of_ne (Ne.symm hj)]
    rwa [halone] at hrun

theorem Isolated.apart (h : Isolated L host calls w owned) :
    Apart L owned w (.outset w) (fun _ => .outset w) fun i => keep (owned i) where
  owned _ := le_rfl
  each i := ⟨h.closed i, .idle, .nil⟩
  disjoint i j hij r hr := by
    have hi : r ∈ owned i := by
      by_contra hne
      exact hr (if_neg hne)
    exact if_neg (h.disjoint i j hij r hi)
  journal := (List.append_nil _).symm

end Run

/-- A call has come as far in one system as in the other, with outcomes that unfold to the same
tree, and has written the same into the journal. Only the names of new records may differ. -/
def SameCourse [DecidableEq ι] (owned : List Ref) (i : ι) (s v : System ι ε) : Prop :=
  ∃ ρ, keep owned ≤ ρ ∧
    (s.progress i).Alike
      (Ends fun a b => a.Alike ρ b ∧ s.world.heap.unfold a = v.world.heap.unfold b)
      (fun _ _ => True) (v.progress i) ∧
    Forall₂ (SameEvent (Value.Alike ρ)) (s.entriesOf i) (v.entriesOf i)

/-- Calls that overlap do not affect each other. Any number of calls are started and polled in any
order; some may end in an error or a violation, give up, or never be polled again. If their
callbacks stay within parts that have nothing in common, each call comes poll by poll to what it
comes to when it is started and polled on its own, and writes the same traces, violations and
evaluation into the journal. What was written during its steps is its own: the journal is the log
of all calls, entry by entry. -/
theorem calls_isolated [DecidableEq ι] {L : Layout ι ε π} {host : Host κ ε} {calls : ι → Call κ}
    {w : World ε} {owned : ι → List Ref} (h : Isolated L host calls w owned) (schedule : List ι)
    (i : ι) :
    let shared := (System.outset w).run host calls schedule
    let alone := (System.outset w).run host calls (List.replicate (schedule.count i) i)
    SameCourse (owned i) i shared alone ∧
      shared.world.journal = w.journal ++ shared.log.map Prod.snd := by
  intro shared alone
  obtain ⟨known, hrun⟩ := h.apart.run h schedule
  refine ⟨⟨known i, hrun.owned i, ?_, (hrun.each i).entries⟩, hrun.journal⟩
  have hagree := (hrun.each i).agree
  have hprogress := (hrun.each i).progress
  revert hprogress
  change (shared.progress i).Alike _ _ (alone.progress i) → _
  intro hprogress
  generalize shared.progress i = p at hprogress ⊢
  generalize alone.progress i = q at hprogress ⊢
  cases hprogress with
  | idle => exact .idle
  | suspended _ => exact .suspended trivial
  | gone cause => exact .gone cause
  | ended hr =>
    refine .ended ?_
    cases hr with
    | error err => exact .error err
    | ok hv => exact .ok ⟨hv, hagree.heap.unfold_eq hv⟩

/-! ## Two deposits at once -/

namespace Deposit

/-- A deposit makes a receipt that refers to the account, keeps it there, and answers it one poll
later. The invariant looks for a receipt, and takes a poll too. -/
def host : Host Unit Unit where
  accepts _ _ := pure (.ready true)
  holds _ v := do
    let last := (← World.readHeap).getField v "last"
    pure (.pending (.waits 1 (.done last.isUndefined)))
  operate _ v _ := do
    let r ← World.newRecord { className := some "Receipt", fields := ⟨[("of", v)]⟩ }
    match v with
    | .object account => World.writeField account "last" (.object r)
    | _ => pure ()
    pure (.pending (.waits 1 (.done (.ok (.object r)))))
  read _ _ := pure .undefined
  setUp _ _ _ := pure (.ok ())
  deliver _ _ := pure ()

def account (b : Bool) : Ref := ⟨b.toNat⟩

/-- Two calls of one wrapped method, on two accounts. -/
def calls (b : Bool) : Call Unit where
  wrapped := ⟨.method, .checked ⟨some "Account", "deposit"⟩ { invariant := some () } (.plain ())⟩
  receiver := .object (account b)
  args := []

def world : World Unit where
  heap := ⟨#[{}, {}]⟩
  mode := .holding .log
  own := ()

/-- Both calls own their account and nothing else. -/
def layout : Layout Bool Unit Unit where
  part _ _ := ()
  alike _ _ _ := True
  alike_mono _ _ := trivial

theorem isUndefined_eq {ρ : Ref ≃. Ref} {v v' : Value} (h : v.Alike ρ v') :
    v.isUndefined = v'.isUndefined := by
  rcases h.cases with ⟨s, rfl, rfl⟩ | ⟨as, bs, rfl, rfl, _⟩ | ⟨r, r', rfl, rfl, _⟩
  · rfl
  · rfl
  · rfl

theorem mem_keep (b : Bool) : account b ∈ keep [account b] (account b) :=
  if_pos (List.mem_singleton.mpr rfl)

theorem starts_holds {b : Bool} {ρ : Ref ≃. Ref} {v : Value} (hv : v.Alike ρ v) (code : Unit) :
    (layout.view b).Starts (fun _ => Eq) ρ (host.holds code v) (host.holds code v) := by
  refine Comparison.acts_readHeap fun ρ₁ hρ w u hw => ?_
  refine Simulation.acts_pure fun ρ₂ _ => .pending (Simulation.runs_waits 1 ?_)
  exact Simulation.runs_done fun _ _ => isUndefined_eq (hw.heap.getField "last" (hv.mono hρ))

theorem starts_operate {b : Bool} {ρ : Ref ≃. Ref} (h : account b ∈ ρ (account b)) (code : Unit)
    (i : Input) : (layout.view b).Starts (layout.view b).OutcomeSame ρ
      (host.operate code (.object (account b)) i) (host.operate code (.object (account b)) i) := by
  have hreceipt : Record.Alike ρ
      { className := some "Receipt", fields := ⟨[("of", .object (account b))]⟩ }
      { className := some "Receipt", fields := ⟨[("of", .object (account b))]⟩ } :=
    ⟨rfl, rfl, .cons ⟨rfl, h⟩ .nil⟩
  refine Simulation.acts_bind (Layout.acts_newRecord hreceipt) fun ρ₁ hρ r r' hr => ?_
  refine Simulation.acts_bind (Layout.acts_writeField (hρ _ _ h) "last" hr) fun ρ₂ hρ' _ _ _ => ?_
  refine Simulation.acts_pure fun ρ₃ hρ'' => .pending (Simulation.runs_waits 1 ?_)
  exact Simulation.runs_done fun ρ₄ hρ₄ => .ok (hρ₄ _ _ (hρ'' _ _ (hρ' _ _ hr)))

theorem isolated : Isolated layout host calls world fun b => [account b] where
  disjoint := by decide
  closed b := by
    refine ⟨fun r r' hr => ?_, rfl, trivial⟩
    rw [Option.mem_def, keep_apply] at hr
    split at hr
    · next hmem =>
      cases hr
      cases List.mem_singleton.mp hmem
      exact ⟨{}, {}, by cases b <;> rfl, by cases b <;> rfl, rfl, rfl, .nil⟩
    · cases hr
  confined b := by
    have hreceiver : Value.Alike (keep [account b]) (.object (account b)) (.object (account b)) :=
      mem_keep b
    refine ⟨hreceiver, .args .nil, ⟨fun code _ => starts_holds hreceiver code, ?_, ?_, ?_⟩, ?_⟩
    · rintro _ ⟨⟩
    · rintro _ ⟨⟩
    · rintro _ ⟨⟩
    · exact starts_operate (mem_keep b) () _

/-- The second deposit is started and polled while the first one waits. -/
theorem same_course : Isolated layout host calls world (fun b => [account b]) ∧
    SameCourse [account true] true
      ((System.outset world).run host calls [false, true, true, false, true, true, false])
      ((System.outset world).run host calls [true, true, true, true]) :=
  ⟨isolated, (calls_isolated isolated [false, true, true, false, true, true, false] true).1⟩

end Deposit

end Contracts
