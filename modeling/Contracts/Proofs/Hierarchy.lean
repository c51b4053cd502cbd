import Contracts.Proofs.Deeds
import Contracts.Proofs.Dispatch

/-!
# Contracts.Proofs.Hierarchy

Which checks are around a member, in any hierarchy of classes.

* `Table.pair?`  — a look-up that also gives the key that was found.
* `Layer.holds`, `Layer.member?` — what a class itself has for a use.
* `Class.Built`   — the classes that declarations, subclasses and class contracts can make.
* `Class.Stacked` — the class contracts that lie directly on a declared class.
* `checks_around_member` — the nearest class that holds a key decides: a use of the member is the
  declared code under the contracts stacked there.
-/

namespace Contracts

variable {κ ε : Type}

/-! ## Tables -/

namespace Table

variable {α β key : Type} [BEq key]

/-- The entry that a look-up finds. -/
def pair? (t : Table key α) (k : key) : Option (key × α) := t.entries.find? (·.1 == k)

theorem get?_eq_pair? (t : Table key α) (k : key) : t.get? k = (t.pair? k).map (·.2) := by
  obtain ⟨l⟩ := t
  simp only [get?, pair?]
  induction l with
  | nil => rfl
  | cons e rest ih =>
    rw [find, List.find?_cons]
    by_cases hk : (e.1 == k) = true
    · rw [if_pos hk, hk]
      rfl
    · rw [if_neg hk, Bool.eq_false_iff.mpr hk]
      exact ih

theorem key_of_pair? {t : Table key α} {k : key} {e : key × α} (h : t.pair? k = some e) :
    (e.1 == k) = true := by
  have hfound := List.find?_some h
  exact hfound

/-- A look-up where keys were dropped and values changed. -/
theorem pair?_map_filter {p : key → Bool} (f : key → α → β) {k : key} {kept : Bool}
    (hp : ∀ k', (k' == k) = true → p k' = kept) (t : Table key α) :
    ((t.filter p).map f).pair? k =
      if kept then (t.pair? k).map fun e => (e.1, f e.1 e.2) else none := by
  obtain ⟨l⟩ := t
  simp only [pair?, filter, map]
  induction l with
  | nil => cases kept <;> rfl
  | cons e rest ih =>
    rw [List.filter_cons, List.find?_cons (a := e)]
    by_cases hk : (e.1 == k) = true
    · rw [hp _ hk, hk]
      cases kept with
      | true => simp [hk]
      | false => exact ih
    · rw [Bool.eq_false_iff.mpr hk]
      split
      · rw [List.map_cons, List.find?_cons, Bool.eq_false_iff.mpr hk]
        exact ih
      · exact ih

end Table

/-! ## What a class itself has -/

namespace Layer

/-- The table holds the key. The entry of an accessor may be without a setter. -/
def holds (l : Layer κ) : Use → Bool
  | .call key _ => (l.methods.pair? key).isSome
  | .set key _ => (l.accessors.pair? key).isSome

theorem holds_call (l : Layer κ) (key : MemberKey) (args : List Value) :
    l.holds (.call key args) = (l.methods.get? key).isSome := by
  rw [holds, Table.get?_eq_pair?, Option.isSome_map]

theorem holds_set (l : Layer κ) (key : MemberKey) (v : Value) :
    l.holds (.set key v) = (l.accessors.get? key).isSome := by
  rw [holds, Table.get?_eq_pair?, Option.isSome_map]

/-- The method or setter of a use, with the key it was declared under. -/
def member? (l : Layer κ) : Use → Option (MemberKey × Operation κ)
  | .call key _ => l.methods.pair? key
  | .set key _ => (l.accessors.pair? key).bind fun e => e.2.setter.map fun op => (e.1, op)

theorem key_of_member? {l : Layer κ} {u : Use} {m : MemberKey × Operation κ}
    (h : l.member? u = some m) : (m.1 == u.key) = true := by
  cases u with
  | call key args => exact Table.key_of_pair? h
  | set key v =>
    obtain ⟨e, he, hm⟩ := Option.bind_eq_some_iff.mp h
    obtain ⟨op, _, rfl⟩ := Option.map_eq_some_iff.mp hm
    exact Table.key_of_pair? (e := e) he

theorem holds_of_member? {l : Layer κ} {u : Use} {m : MemberKey × Operation κ}
    (h : l.member? u = some m) : l.holds u = true := by
  cases u with
  | call key args => exact Option.isSome_iff_exists.mpr ⟨m, h⟩
  | set key v =>
    obtain ⟨e, he, _⟩ := Option.bind_eq_some_iff.mp h
    exact Option.isSome_iff_exists.mpr ⟨e, he⟩

theorem Plain.member? {l : Layer κ} (h : l.Plain) {u : Use} {m : MemberKey × Operation κ}
    (hm : l.member? u = some m) : ∃ code, m.2 = .plain code := by
  cases u with
  | call key args => exact h.methods m (List.mem_of_find?_eq_some hm)
  | set key v =>
    obtain ⟨e, he, hop⟩ := Option.bind_eq_some_iff.mp hm
    obtain ⟨op, hset, rfl⟩ := Option.map_eq_some_iff.mp hop
    exact h.setters e (List.mem_of_find?_eq_some he) op hset

/-- Equal keys are kept together. -/
theorem not_isConstructor_eq (key k : MemberKey) (h : (k == key) = true) :
    (!k.isConstructor) = !key.isConstructor := by
  rw [isConstructor_eq h]

variable (base : Layer κ) (c : ClassContract κ)

/-- A class contract keeps all keys but that of the slot for construction. -/
theorem holds_underContract (u : Use) :
    (base.underContract c).holds u = (base.holds u && !u.key.isConstructor) := by
  cases u with
  | call key args =>
    rw [holds, underContract, Table.pair?_map_filter _ (not_isConstructor_eq key), holds, Use.key]
    cases key.isConstructor <;> simp
  | set key v =>
    rw [holds, underContract, Table.pair?_map_filter _ (not_isConstructor_eq key), holds, Use.key]
    cases key.isConstructor <;> simp

theorem member?_underContract {u : Use} (hu : u.key.isConstructor = false) :
    (base.underContract c).member? u = (base.member? u).map fun m =>
      (m.1, .checked (memberSite base.name m.1) c.spec m.2) := by
  cases u with
  | call key args =>
    rw [Use.key] at hu
    rw [member?, underContract, Table.pair?_map_filter _ (not_isConstructor_eq key), hu]
    rfl
  | set key v =>
    rw [Use.key] at hu
    rw [member?, underContract, Table.pair?_map_filter _ (not_isConstructor_eq key), hu, member?]
    cases base.accessors.pair? key with
    | none => rfl
    | some e => simp [Option.map_map, Function.comp_def]

end Layer

/-! ## The nearest class decides -/

theorem findSome?_of_nearest {α β : Type} {f : α → Option β} {above below : List α} {l : α}
    (hnot : ∀ l' ∈ above, (f l').isSome = false) (h : (f l).isSome = true) :
    (above ++ l :: below).findSome? f = f l := by
  have hnone : above.findSome? f = none :=
    List.findSome?_eq_none_iff.mpr fun l' hl' => by simpa using hnot l' hl'
  obtain ⟨b, hb⟩ := Option.isSome_iff_exists.mp h
  rw [List.findSome?_append, hnone, Option.none_or, List.findSome?_cons, hb]

section
variable {i : Instance κ} {above below : List (Layer κ)} {l : Layer κ} {u : Use}

theorem use_of_nearest (host : Host κ ε) (hl : i.ofClass.layers = above ++ l :: below)
    (hnot : ∀ l' ∈ above, l'.holds u = false) {m : MemberKey × Operation κ}
    (hm : l.member? u = some m) : i.use host u = m.2.call host i.this u.input := by
  have h := Layer.holds_of_member? hm
  cases u with
  | call key args =>
    have hget : l.methods.get? key = some m.2 := by
      rw [Table.get?_eq_pair?, show l.methods.pair? key = some m from hm, Option.map_some]
    simp only [Layer.holds_call] at hnot h
    simp only [Instance.use, Instance.call, Class.findMethod?, hl, findSome?_of_nearest hnot h,
      hget]
    rfl
  | set key v =>
    obtain ⟨⟨k, a⟩, he, hop⟩ := Option.bind_eq_some_iff.mp hm
    obtain ⟨op, hset, rfl⟩ := Option.map_eq_some_iff.mp hop
    have hget : l.accessors.get? key = some { a with setter := some op } := by
      rw [Table.get?_eq_pair?, he, Option.map_some, ← hset]
    simp only [Layer.holds_set] at hnot h
    simp only [Instance.use, Instance.set, Class.findAccessor?, hl, findSome?_of_nearest hnot h,
      hget]
    rfl

/-- An accessor without a setter is in the way of those further up. -/
theorem use_of_missing_setter (host : Host κ ε) (hl : i.ofClass.layers = above ++ l :: below)
    (hnot : ∀ l' ∈ above, l'.holds u = false) (h : l.holds u = true) (hm : l.member? u = none) :
    i.use host u = Instance.refuse (i.memberText u.key ++ " has a getter but no setter") := by
  cases u with
  | call key args =>
    rw [Layer.holds, show l.methods.pair? key = none from hm] at h
    cases h
  | set key v =>
    obtain ⟨⟨k, a⟩, he⟩ := Option.isSome_iff_exists.mp h
    have hset : a.setter = none := by
      rw [Layer.member?, he, Option.bind_some, Option.map_eq_none_iff] at hm
      exact hm
    have hget : l.accessors.get? key = some { a with setter := none } := by
      rw [Table.get?_eq_pair?, he, Option.map_some, ← hset]
    simp only [Layer.holds_set] at hnot h
    simp only [Instance.use, Instance.set, Class.findAccessor?, hl, findSome?_of_nearest hnot h,
      hget]
    rfl

end

/-! ## Hierarchies -/

namespace Class

/-- The classes that can be made: declared on their own, as a subclass, or derived by a class
contract. -/
inductive Built : Class κ → Prop where
  | declared (name : String) (init : Option κ) (members : List (MemberKey × Member κ)) :
      Built (.extend (.build name init members) none)
  | extended {parent : Class κ} (h : Built parent) (name : String) (init : Option κ)
      (members : List (MemberKey × Member κ)) :
      Built (.extend (.build name init members) (some parent))
  | contracted {base derived : Class κ} {d : Declaration κ} {notices : List Notice} (h : Built base)
      (hd : contractClass base d = (.ok derived, notices)) : Built derived

/-- A class that lies under a stack of class contracts, the outermost first: the declared class
that is left when they are taken off. -/
inductive Stacked : Class κ → List (ClassContract κ) → Class κ → Prop where
  | declared (name : String) (init : Option κ) (members : List (MemberKey × Member κ))
      (ancestors : List (Layer κ)) :
      Stacked ⟨.build name init members, ancestors⟩ [] ⟨.build name init members, ancestors⟩
  | contracted {base declarer : Class κ} {contracts : List (ClassContract κ)} (c : ClassContract κ)
      (h : Stacked base contracts declarer) :
      Stacked (.extend (base.own.underContract c) (some base)) (c :: contracts) declarer

/-- The classes further up in a hierarchy are made in these ways too. -/
theorem Built.above {c : Class κ} (h : c.Built) {above below : List (Layer κ)} {l : Layer κ}
    (hl : c.layers = above ++ l :: below) : (⟨l, below⟩ : Class κ).Built := by
  -- the class itself, or one of the hierarchy it was put on
  have hself : ∀ {c : Class κ}, c.Built → c.layers = [] ++ l :: below →
      (⟨l, below⟩ : Class κ).Built := by
    intro c hc hl
    obtain ⟨own, ancestors⟩ := c
    cases hl
    exact hc
  induction h generalizing above with
  | declared name init members =>
    cases above with
    | nil => exact hself (.declared name init members) hl
    | cons l' above => simp [layers, extend] at hl
  | extended h name init members ih =>
    cases above with
    | nil => exact hself (.extended h name init members) hl
    | cons l' above => exact ih (List.cons.inj hl).2
  | contracted h hd ih =>
    cases above with
    | nil => exact hself (.contracted h hd) hl
    | cons l' above =>
      obtain ⟨c, _, rfl⟩ := contractClass_eq hd
      exact ih (List.cons.inj hl).2

theorem Built.exists_stacked {c : Class κ} (h : c.Built) :
    ∃ contracts declarer, c.Stacked contracts declarer := by
  induction h with
  | declared name init members => exact ⟨[], _, .declared name init members []⟩
  | extended h name init members => exact ⟨[], _, .declared name init members _⟩
  | contracted h hd ih =>
    obtain ⟨contracts, declarer, hstack⟩ := ih
    obtain ⟨c, _, rfl⟩ := contractClass_eq hd
    exact ⟨c :: contracts, declarer, hstack.contracted c⟩

namespace Stacked

variable {c declarer : Class κ} {contracts : List (ClassContract κ)}

theorem name_eq (h : c.Stacked contracts declarer) : c.name = declarer.name := by
  induction h with
  | declared => rfl
  | contracted _ _ ih => exact ih

theorem plain (h : c.Stacked contracts declarer) : declarer.own.Plain := by
  induction h with
  | declared name init members => exact plain_build name init members
  | contracted _ _ ih => exact ih

/-- A stack of class contracts holds what the declared class holds, without the slot for
construction. -/
theorem holds_iff (h : c.Stacked contracts declarer) (u : Use) : c.own.holds u = true ↔
    declarer.own.holds u = true ∧ (contracts ≠ [] → u.key.isConstructor = false) := by
  induction h with
  | declared => simp
  | contracted c h ih =>
    rw [extend, Layer.holds_underContract, Bool.and_eq_true, ih]
    simp only [Bool.not_eq_true', ne_eq, reduceCtorEq, not_false_eq_true, forall_const]
    constructor
    · rintro ⟨⟨hb, _⟩, hu⟩
      exact ⟨hb, hu⟩
    · rintro ⟨hb, hu⟩
      exact ⟨⟨hb, fun _ => hu⟩, hu⟩

theorem member?_eq (h : c.Stacked contracts declarer) {u : Use}
    (hu : contracts ≠ [] → u.key.isConstructor = false) :
    c.own.member? u = (declarer.own.member? u).map fun m => (m.1, contracts.foldr
      (fun c op => .checked (memberSite declarer.name m.1) c.spec op) m.2) := by
  induction h with
  | declared => simp
  | @contracted base declarer contracts c h ih =>
    have hu := hu (by simp)
    rw [extend, Layer.member?_underContract _ _ hu, ih fun _ => hu, Option.map_map,
      show base.own.name = declarer.name from h.name_eq]
    rfl

end Stacked
end Class

/-! ## The checks around a member -/

/-- The use of a member is its declared code under class contracts. -/
structure Surrounded (host : Host κ ε) (start : Action (World ε) (Completion ε)) (v : Value)
    (i : Input) (className member : String) (contracts : List (ClassContract κ)) (code : κ) :
    Prop where
  /-- Without a contract the code is run with no check. -/
  bare : contracts = [] → start = host.operate code v i
  /-- Every call that has ended, with whatever others did in between, has done its deeds, and if
  all went well these are the checks of the invariants around one run of the code. -/
  orderly : contracts ≠ [] → ∀ changes w r w', start.polls changes w = (.finished r, w') →
    ∃ ds w₁, Operation.Does (Operation.Among changes) host v i
        (.under ⟨some className, member⟩ contracts code) w ds r w₁ ∧
      Operation.Among changes w₁ w' ∧
      ((∀ d ∈ ds, d.Well) →
        ∃ value, r = .ok value ∧ ds = deedsAround className member v i contracts code value)
  /-- If the invariants hold whenever they are asked, and the code returns a value, all goes well. -/
  returns : (∀ c ∈ contracts, (host.holds c.invariant v).Comes (· = true)) →
    (host.operate code v i).Comes (·.isOk = true) → ∀ w, ∃ value w',
      start.drive.exec w = (.ok (.ok value), w') ∧
      Operation.Does Eq host v i (.under ⟨some className, member⟩ contracts code) w
        (deedsAround className member v i contracts code value) (.ok value) w'

theorem surrounded_under (host : Host κ ε) (v : Value) (i : Input) (className member : String)
    (contracts : List (ClassContract κ)) (code : κ) :
    Surrounded host ((Operation.under ⟨some className, member⟩ contracts code).call host v i) v i
      className member contracts code where
  bare := by
    rintro rfl
    rfl
  orderly := by
    intro hne changes w r w' h
    cases contracts with
    | nil => exact absurd rfl hne
    | cons c rest =>
      obtain ⟨ds, w₁, hdoes, hstate⟩ := Operation.does_of_polls h
      exact ⟨ds, w₁, hdoes, hstate, fun hwell => Operation.does_under hdoes hwell⟩
  returns := fun hinv hcode w => returns_under className member hinv hcode w

/-- Which checks are around a member. A class contract takes over every key of its base but the
string key of the slot for construction. In any hierarchy the nearest class that holds a key
decides. Taking off the class contracts that lie directly on each other there leaves the class
that declares the member, and a use of the member is its code under these contracts, the checks
labelled with the name of the declaring class and the text of the key; so it is the bare code if
there are none, and there are none in the slot for construction. -/
theorem checks_around_member (host : Host κ ε) {c : Class κ} (hc : c.Built) :
    (∀ d derived notices, contractClass c d = (.ok derived, notices) →
      ∀ u, derived.own.holds u = (c.own.holds u && !u.key.isConstructor)) ∧
    ∀ above l below u this, c.layers = above ++ l :: below →
      (∀ l' ∈ above, l'.holds u = false) → l.holds u = true →
      (∃ contracts declarer, (⟨l, below⟩ : Class κ).Stacked contracts declarer) ∧
      ∀ contracts declarer, (⟨l, below⟩ : Class κ).Stacked contracts declarer →
        declarer.own.holds u = true ∧ (contracts ≠ [] → u.key.isConstructor = false) ∧
        match declarer.own.member? u with
        | none => (⟨c, this⟩ : Instance κ).use host u =
            Instance.refuse (c.name ++ "." ++ u.key.text ++ " has a getter but no setter")
        | some (key, op) => (key == u.key) = true ∧ ∃ code, op = .plain code ∧
            Surrounded host ((⟨c, this⟩ : Instance κ).use host u) this u.input declarer.name
              key.text contracts code := by
  constructor
  · intro d derived notices hd u
    obtain ⟨contract, _, rfl⟩ := contractClass_eq hd
    exact Layer.holds_underContract c.own contract u
  · intro above l below u this hl hnot hholds
    refine ⟨(hc.above hl).exists_stacked, fun contracts declarer hstack => ?_⟩
    obtain ⟨hdeclared, hu⟩ := (hstack.holds_iff u).mp hholds
    refine ⟨hdeclared, hu, ?_⟩
    have hmember := hstack.member?_eq hu
    cases hm : declarer.own.member? u with
    | none =>
      rw [hm, Option.map_none] at hmember
      exact use_of_missing_setter host hl hnot hholds hmember
    | some m =>
      obtain ⟨key, op⟩ := m
      obtain ⟨code, rfl⟩ : ∃ code, op = .plain code := hstack.plain.member? hm
      rw [hm, Option.map_some] at hmember
      have huse := use_of_nearest (i := ⟨c, this⟩) host hl hnot hmember
      refine ⟨Layer.key_of_member? hm, code, rfl, ?_⟩
      rw [huse]
      exact surrounded_under host this u.input declarer.name key.text contracts code

namespace Gate

/-- Code `0` is an invariant that takes a poll; all others answer at once. -/
def host : Host Nat Unit where
  accepts _ _ := pure (.ready true)
  holds code _ := pure (if code = 0 then .pending (.waits 1 (.done true)) else .ready true)
  operate _ _ _ := pure (.ready (.ok .undefined))
  read _ _ := pure .undefined
  setUp _ _ _ := pure (.ok ())
  deliver _ _ := pure ()

def symbol : MemberKey := .symbol ⟨7, some "constructor"⟩

/-- A method under a symbol, and one in the slot for construction. -/
def door : Class Nat :=
  .extend (.build "Door" none [(symbol, .method 3), (.name "constructor", .method 4)]) none

def inner : ClassContract Nat := ⟨0, .default, none⟩

def outer : ClassContract Nat := ⟨1, .default, none⟩

def once : Class Nat := .extend (door.own.underContract inner) (some door)

def twice : Class Nat := .extend (once.own.underContract outer) (some once)

/-- A subclass of the class with two contracts, which declares nothing for the symbol. -/
def gate : Class Nat := .extend (.build "Gate" none []) (some twice)

/-- The subclass has a contract of its own. -/
def gated : Class Nat := .extend (gate.own.underContract ⟨2, .default, none⟩) (some gate)

theorem stacked : twice.Stacked [outer, inner] door :=
  .contracted outer (.contracted inner (.declared _ _ _ _))

theorem built : gated.Built := by
  have hdoor : door.Built := .declared _ _ _
  have honce : once.Built := .contracted (d := .bare 0) hdoor rfl
  have htwice : twice.Built := .contracted (d := .bare 1) honce rfl
  exact .contracted (d := .bare 2) (.extended htwice _ _ _) rfl

def world : World Unit := { mode := .holding .log, own := () }

/-- The contract of the subclass is not around the method that it inherits. -/
theorem checked_twice : gated.Built ∧ twice.Stacked [outer, inner] door ∧
    ∃ value w', ((⟨gated, .undefined⟩ : Instance Nat).use host (.call symbol [])).drive.exec world =
        (.ok (.ok value), w') ∧
      Operation.Does Eq host .undefined (.args [])
        (.under ⟨some "Door", "Symbol(constructor)"⟩ [outer, inner] 3) world
        (deedsAround "Door" "Symbol(constructor)" .undefined (.args []) [outer, inner] 3 value)
        (.ok value) w' := by
  obtain ⟨_, hmember⟩ := checks_around_member host built
  obtain ⟨_, hstacked⟩ := hmember [gated.own, gate.own] twice.own twice.ancestors (.call symbol [])
    .undefined rfl (by decide) (by decide)
  obtain ⟨_, _, _, code, hcode, hsurrounded⟩ := hstacked _ _ stacked
  cases hcode
  refine ⟨built, stacked, hsurrounded.returns ?_ (fun w => ⟨_, w, rfl, rfl⟩) world⟩
  exact List.forall_mem_cons.mpr ⟨fun w => ⟨true, w, rfl, rfl⟩,
    List.forall_mem_singleton.mpr fun w => ⟨true, w, rfl, rfl⟩⟩

end Gate

end Contracts
