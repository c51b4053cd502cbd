import Contracts.Class.Contract
import Contracts.Class.Instance

/-!
# Contracts.Proofs.Dispatch

Members under a class contract.

* `Layer.Plain` — a layer whose members are plain code, as that of a class that was declared.
* `Use`         — a call of a method, or an assignment through a setter.
* `Guarded`     — a use of a member that the base declares, reached through the derived class.
* `use_guarded` — such a use is the call of the declared code under the class contract.
-/

namespace Contracts

variable {κ ε : Type}

/-! ## Tables -/

namespace Table

variable {α β key : Type} [BEq key]

theorem exists_mem_of_find {k : key} {l : List (key × α)} {a : α} (h : find k l = some a) :
    ∃ k', (k', a) ∈ l := by
  induction l with
  | nil => cases h
  | cons e rest ih =>
    obtain ⟨k', a'⟩ := e
    rw [find] at h
    split at h
    · cases h
      exact ⟨k', by simp⟩
    · obtain ⟨k'', hmem⟩ := ih h
      exact ⟨k'', by simp [hmem]⟩

theorem mem_put {k : key} {a : α} {l : List (key × α)} {e : key × α} (h : e ∈ put k a l) :
    e ∈ l ∨ e.2 = a := by
  induction l with
  | nil =>
    rw [put, List.mem_singleton] at h
    exact .inr (congrArg Prod.snd h)
  | cons e' rest ih =>
    rw [put] at h
    split at h
    · rcases List.mem_cons.mp h with rfl | h
      · exact .inr rfl
      · exact .inl (by simp [h])
    · rcases List.mem_cons.mp h with rfl | h
      · exact .inl (by simp)
      · rcases ih h with h | h
        · exact .inl (by simp [h])
        · exact .inr h

/-- What a look-up finds it finds changed, if its key is among those that are kept. -/
theorem get?_map_filter {p : key → Bool} {f : key → α → β} {k : key} {t : Table key α} {a : α}
    (hp : ∀ k', (k' == k) = true → p k' = true) (h : t.get? k = some a) :
    ∃ k', (k' == k) = true ∧ ((t.filter p).map f).get? k = some (f k' a) := by
  obtain ⟨l⟩ := t
  simp only [get?, filter, map] at h ⊢
  induction l with
  | nil => cases h
  | cons e rest ih =>
    obtain ⟨k', a'⟩ := e
    rw [find] at h
    by_cases hk : (k' == k) = true
    · rw [if_pos hk] at h
      cases h
      refine ⟨k', hk, ?_⟩
      simp only [List.filter_cons, hp k' hk, if_true, List.map_cons]
      rw [find, if_pos hk]
    · rw [if_neg hk] at h
      obtain ⟨k'', hk'', hfind⟩ := ih h
      refine ⟨k'', hk'', ?_⟩
      simp only [List.filter_cons]
      split
      · rw [List.map_cons, find, if_neg hk]
        exact hfind
      · exact hfind

end Table

/-! ## Declared members -/

/-- A layer whose methods and setters are plain code. -/
structure Layer.Plain (l : Layer κ) : Prop where
  methods : ∀ e ∈ l.methods.entries, ∃ code, e.2 = .plain code
  setters : ∀ e ∈ l.accessors.entries, ∀ op, e.2.setter = some op → ∃ code, op = .plain code

theorem Layer.Plain.declare {l : Layer κ} (h : l.Plain) (m : MemberKey × Member κ) :
    (l.declare m).Plain := by
  -- the entry of an accessor that is declared in part is one that was there, or an empty one
  have hentry : ∀ key op, ((l.accessors.get? key).getD {}).setter = some op →
      ∃ code, op = .plain code := by
    intro key op hop
    cases hget : l.accessors.get? key with
    | none =>
      rw [hget] at hop
      cases hop
    | some a =>
      rw [hget] at hop
      obtain ⟨key', hmem⟩ := Table.exists_mem_of_find hget
      exact h.setters _ hmem op hop
  obtain ⟨key, code | code | code⟩ := m
  · refine ⟨fun e he => ?_, h.setters⟩
    rcases Table.mem_put he with he | he
    · exact h.methods e he
    · exact ⟨code, he⟩
  · refine ⟨h.methods, fun e he op hop => ?_⟩
    rcases Table.mem_put he with he | he
    · exact h.setters e he op hop
    · rw [he] at hop
      exact hentry key op hop
  · refine ⟨h.methods, fun e he op hop => ?_⟩
    rcases Table.mem_put he with he | he
    · exact h.setters e he op hop
    · rw [he] at hop
      cases hop
      exact ⟨code, rfl⟩

theorem plain_build (name : String) (init : Option κ) (members : List (MemberKey × Member κ)) :
    (Layer.build name init members).Plain := by
  have hfold : ∀ l : Layer κ, l.Plain → (members.foldl Layer.declare l).Plain := by
    induction members with
    | nil => exact fun _ h => h
    | cons m rest ih => exact fun l h => ih _ (h.declare m)
  exact hfold _ ⟨List.forall_mem_nil _, List.forall_mem_nil _⟩

/-! ## Uses of members -/

/-- A call of a method, or an assignment. -/
inductive Use where
  | call (key : MemberKey) (args : List Value)
  | set (key : MemberKey) (v : Value)

def Use.key : Use → MemberKey
  | .call key _ => key
  | .set key _ => key

def Use.input : Use → Input
  | .call _ args => .args args
  | .set _ v => .value v

def Instance.use (host : Host κ ε) (i : Instance κ) : Use → Action (World ε) (Completion ε)
  | .call key args => i.call host key args
  | .set key v => i.set host key v

/-- What a class itself declares for a use. -/
def Class.own? (c : Class κ) : Use → Option (Operation κ)
  | .call key _ => c.own.methods.get? key
  | .set key _ => (c.own.accessors.get? key).bind (·.setter)

/-- An instance for which a class makes the look-up. -/
def Instance.Reaches (i : Instance κ) (c : Class κ) : Use → Prop
  | .call key _ => i.ofClass.findMethod? key = c.findMethod? key
  | .set key _ => i.ofClass.findAccessor? key = c.findAccessor? key

/-- A use of a method or a setter that `base` declares itself, through the class derived from it.
The slot for construction is left out. -/
structure Guarded (base derived : Class κ) (i : Instance κ) (u : Use) : Prop where
  declared : (base.own? u).isSome
  reaches : i.Reaches derived u
  name : u.key.isConstructor = false

theorem isConstructor_eq {k k' : MemberKey} (h : (k' == k) = true) :
    k'.isConstructor = k.isConstructor := by
  cases k with
  | name s =>
    cases k' with
    | name s' => rw [eq_of_beq (show (s' == s) = true from h)]
    | symbol _ => cases h
  | symbol s =>
    cases k' with
    | name _ => cases h
    | symbol _ => rfl

theorem contractClass_eq {base derived : Class κ} {d : Declaration κ} {notices : List Notice}
    (h : contractClass base d = (.ok derived, notices)) :
    ∃ c, d.resolve.1.classContract? = some c ∧
      derived = .extend (base.own.underContract c) (some base) := by
  simp only [contractClass] at h
  cases hc : d.resolve.1.classContract? with
  | none =>
    rw [hc] at h
    cases h
  | some c =>
    rw [hc] at h
    cases h
    exact ⟨c, rfl, rfl⟩

/-- A guarded use is the call of the declared code, with the invariant checked around it. -/
theorem use_guarded {base : Class κ} (hbase : base.own.Plain) (c : ClassContract κ)
    {i : Instance κ} {u : Use}
    (h : Guarded base (.extend (base.own.underContract c) (some base)) i u) :
    ∃ key code, (key == u.key) = true ∧ base.own? u = some (.plain code) ∧
      ∀ {ε : Type} (host : Host κ ε), i.use host u =
        (Operation.checked (memberSite base.name key) c.spec (.plain code)).call host i.this
          u.input := by
  obtain ⟨op, hop⟩ := Option.isSome_iff_exists.mp h.declared
  have hkeep : ∀ key, (key == u.key) = true → (!key.isConstructor) = true := by
    intro key hkey
    rw [isConstructor_eq hkey, h.name]
    rfl
  cases u with
  | call key args =>
    obtain ⟨_, hmem⟩ := Table.exists_mem_of_find hop
    obtain ⟨code, rfl⟩ := hbase.methods _ hmem
    obtain ⟨key', hkey', hget⟩ : ∃ key', (key' == key) = true ∧
        (base.own.underContract c).methods.get? key =
          some (.checked (memberSite base.own.name key') c.spec (.plain code)) :=
      Table.get?_map_filter hkeep hop
    have hfind : i.ofClass.findMethod? key =
        some (.checked (memberSite base.own.name key') c.spec (.plain code)) := by
      rw [show i.ofClass.findMethod? key = _ from h.reaches, Class.findMethod?, Class.layers,
        List.findSome?_cons]
      simp only [Class.extend, hget]
    refine ⟨key', code, hkey', hop, fun host => ?_⟩
    simp only [Instance.use, Instance.call, hfind]
    rfl
  | set key v =>
    obtain ⟨a, ha, hset⟩ := Option.bind_eq_some_iff.mp hop
    obtain ⟨_, hmem⟩ := Table.exists_mem_of_find ha
    obtain ⟨code, rfl⟩ := hbase.setters _ hmem op hset
    obtain ⟨key', hkey', hget⟩ : ∃ key', (key' == key) = true ∧
        (base.own.underContract c).accessors.get? key = some
          { a with
            setter := a.setter.map fun op => .checked (memberSite base.own.name key') c.spec op } :=
      Table.get?_map_filter hkeep ha
    have hfind : i.ofClass.findAccessor? key = some
        { a with
          setter := some (.checked (memberSite base.own.name key') c.spec (.plain code)) } := by
      rw [show i.ofClass.findAccessor? key = _ from h.reaches, Class.findAccessor?, Class.layers,
        List.findSome?_cons]
      simp only [Class.extend, hget, hset, Option.map_some]
    refine ⟨key', code, hkey', hop, fun host => ?_⟩
    simp only [Instance.use, Instance.set, hfind]
    rfl

end Contracts
