import Contracts.Proofs.Hierarchy
import Contracts.Proofs.Renaming

/-!
# Contracts.Proofs.Fields

Reads and writes of members, on instances of any hierarchy.

* `Table.insertAll`       — many writes, the look-up after them and the order of the keys.
* `Class.Governs`         — the entry of the nearest class that has one for the key.
* `Instance.DecidedBy`    — what a read and a write do, given that entry.
* `Assignment`            — a write of a plain field, through some instance of the record.
* `Record.Overwritten`    — a record before and after writes of its fields.
* `reads_and_writes`      — the nearest entry decides, and plain fields behave as a table that all
  instances of a record share.
-/

namespace Contracts

variable {κ ε : Type}

/-! ## Many writes to one table -/

namespace Table

variable {key α : Type} [BEq key]

/-- The table after writes made from left to right. -/
def insertAll (t : Table key α) (writes : List (key × α)) : Table key α :=
  writes.foldl (fun t e => t.insert e.1 e.2) t

/-- What the last write of the key gave. -/
def lastWrite? (k : key) (writes : List (key × α)) : Option α := find k writes.reverse

/-- The keys that are new to a table, in the order of their first writes. -/
def newKeys (t : Table key α) (writes : List (key × α)) : List key :=
  ((writes.map (·.1)).filter fun k => !t.keys.contains k).eraseDups

theorem find_append (k : key) (l l' : List (key × α)) :
    find k (l ++ l') = (find k l).or (find k l') := by
  induction l with
  | nil => rfl
  | cons e rest ih =>
    simp only [List.cons_append, find]
    split
    · rfl
    · exact ih

theorem lastWrite?_cons (k : key) (e : key × α) (writes : List (key × α)) :
    lastWrite? k (e :: writes) = (lastWrite? k writes).or (find k [e]) := by
  simp only [lastWrite?, List.reverse_cons, find_append]

section
variable [LawfulBEq key]

/-- A single write answers the look-up of its own key only. -/
theorem get?_insert (t : Table key α) (e : key × α) (k : key) :
    (t.insert e.1 e.2).get? k = (find k [e]).or (t.get? k) := by
  by_cases h : k = e.1
  · subst h
    simp [find]
  · rw [get?_insert_of_ne h]
    simp [find, Ne.symm h]

theorem get?_insertAll (t : Table key α) (writes : List (key × α)) (k : key) :
    (t.insertAll writes).get? k = (lastWrite? k writes).or (t.get? k) := by
  induction writes generalizing t with
  | nil => rfl
  | cons e writes ih =>
    calc ((t.insert e.1 e.2).insertAll writes).get? k
        = (lastWrite? k writes).or ((t.insert e.1 e.2).get? k) := ih _
      _ = (lastWrite? k writes).or ((find k [e]).or (t.get? k)) := by rw [get?_insert]
      _ = (lastWrite? k (e :: writes)).or (t.get? k) := by rw [lastWrite?_cons, Option.or_assoc]

theorem map_fst_put (k : key) (a : α) (l : List (key × α)) :
    (put k a l).map (·.1) =
      if (l.map (·.1)).contains k then l.map (·.1) else l.map (·.1) ++ [k] := by
  induction l with
  | nil => simp [put]
  | cons e rest ih =>
    by_cases h : e.1 = k
    · simp [put, h]
    · have hne : (k == e.1) = false := by simpa using Ne.symm h
      simp only [put, beq_iff_eq, h, if_false, List.map_cons, ih, List.contains_cons, hne,
        Bool.false_or]
      split
      · rfl
      · rfl

/-- A write keeps the place of a key that is there, and appends a new one. -/
theorem keys_insert (t : Table key α) (k : key) (a : α) :
    (t.insert k a).keys = if t.keys.contains k then t.keys else t.keys ++ [k] :=
  map_fst_put k a t.entries

theorem keys_insertAll (t : Table key α) (writes : List (key × α)) :
    (t.insertAll writes).keys = t.keys ++ t.newKeys writes := by
  induction writes generalizing t with
  | nil => simp [insertAll, newKeys]
  | cons e writes ih =>
    have hrest : (t.insertAll (e :: writes)).keys =
        (t.insert e.1 e.2).keys ++ (t.insert e.1 e.2).newKeys writes := ih _
    rw [hrest, newKeys, newKeys, keys_insert]
    by_cases h : t.keys.contains e.1 = true
    · rw [if_pos h, List.map_cons, List.filter_cons, h]
      rfl
    · rw [if_neg h, List.map_cons, List.filter_cons, Bool.eq_false_iff.mpr h, Bool.not_false,
        if_pos rfl, List.eraseDups_cons, List.filter_filter, List.append_assoc,
        List.singleton_append]
      congr 4
      funext k
      simp only [List.contains_append, List.contains_cons, List.contains_nil, Bool.or_false,
        Bool.not_or, Bool.and_comm]

/-- A second write of a key keeps its place. -/
example : (Table.insertAll {} [("x", 1), ("y", 2), ("x", 3)]).entries = [("x", 3), ("y", 2)] := by
  decide

end

end Table

/-! ## The entry that decides -/

/-- The entry of the nearest class, from the leaf upward, that has one for the key. -/
inductive Class.Governs (c : Class κ) (key : MemberKey) : Option (Accessor κ) → Prop where
  | nearest {above below : List (Layer κ)} {l : Layer κ} {a : Accessor κ}
      (layers : c.layers = above ++ l :: below)
      (above_has_none : ∀ l' ∈ above, l'.accessors.get? key = none)
      (entry : l.accessors.get? key = some a) : c.Governs key (some a)
  | nowhere (none_has : ∀ l ∈ c.layers, l.accessors.get? key = none) : c.Governs key none

theorem Class.governs_iff {c : Class κ} {key : MemberKey} {entry : Option (Accessor κ)} :
    c.Governs key entry ↔ entry = c.findAccessor? key := by
  constructor
  · intro h
    cases h with
    | @nearest above below l a hl hnot ha =>
      have hnot' : ∀ l' ∈ above, (l'.accessors.get? key).isSome = false := by
        intro l' hl'
        rw [hnot l' hl', Option.isSome_none]
      have hsome : (l.accessors.get? key).isSome = true := by rw [ha, Option.isSome_some]
      rw [Class.findAccessor?, hl, findSome?_of_nearest hnot' hsome, ha]
    | nowhere h => exact (List.findSome?_eq_none_iff.mpr h).symm
  · rintro rfl
    cases h : c.findAccessor? key with
    | none => exact .nowhere (List.findSome?_eq_none_iff.mp h)
    | some a =>
      obtain ⟨above, l, below, hl, ha, hnot⟩ := List.findSome?_eq_some_iff.mp h
      exact .nearest hl hnot ha

/-- The plain field of a string key; a symbol is the key of no field. -/
def Heap.plain (h : Heap) (v : Value) : MemberKey → Value
  | .name field => h.getField v field
  | .symbol _ => .undefined

/-- What is read and written under a key whose nearest entry is the given one. A half that the
entry lacks is not looked for further up the chain. -/
structure Instance.DecidedBy (host : Host κ ε) (w : World ε) (i : Instance κ) (key : MemberKey)
    (entry : Option (Accessor κ)) : Prop where
  through_getter : ∀ a code, entry = some a → a.getter = some code →
    i.get host key = host.read code i.this
  plain_read : (∀ a, entry = some a → a.getter = none) →
    (i.get host key).exec w = (.ok (w.heap.plain i.this key), w)
  through_setter : ∀ a op v, entry = some a → a.setter = some op →
    i.set host key v = op.call host i.this (.value v)
  read_only : ∀ a v, entry = some a → a.setter = none →
    (i.set host key v).exec w = (.ok (.ready (.error (.operation
      (i.ofClass.name ++ "." ++ key.text ++ " has a getter but no setter")))), w)
  unassignable : ∀ v, entry = none → (∀ field r, key = .name field → i.this ≠ .object r) →
    (i.set host key v).exec w = (.ok (.ready (.error (.operation
      ("cannot assign " ++ (i.ofClass.name ++ "." ++ key.text))))), w)

section
variable (host : Host κ ε) (w : World ε) {i : Instance κ} {key : MemberKey}

theorem Instance.exec_get_plain (h : (i.ofClass.findAccessor? key).bind (·.getter) = none) :
    (i.get host key).exec w = (.ok (w.heap.plain i.this key), w) := by
  rw [Instance.get, h]
  cases key <;> rfl

theorem Instance.decidedBy_findAccessor? :
    i.DecidedBy host w key (i.ofClass.findAccessor? key) where
  through_getter a code ha hcode := by
    simp only [Instance.get, ha, Option.bind_some, hcode]
  plain_read hnone := by
    apply Instance.exec_get_plain
    cases h : i.ofClass.findAccessor? key with
    | none => rfl
    | some a => exact hnone a h
  through_setter a op v ha hop := by
    obtain ⟨getter, setter⟩ := a
    subst hop
    simp only [Instance.set, ha]
  read_only a v ha hnone := by
    obtain ⟨getter, setter⟩ := a
    subst hnone
    simp only [Instance.set, ha]
    rfl
  unassignable v hnone hthis := by
    simp only [Instance.set, hnone]
    rfl

end

/-! ## Writes of plain fields -/

/-- A write of a field through an instance whose object is the record. -/
structure Assignment (κ : Type) where
  ofClass : Class κ
  record : Ref
  field : String
  value : Value

namespace Assignment

def through (x : Assignment κ) : Instance κ := ⟨x.ofClass, .object x.record⟩

def make (host : Host κ ε) (x : Assignment κ) : Action (World ε) (Completion ε) :=
  x.through.set host (.name x.field) x.value

/-- No class on the chain has an entry for the field, and nobody has borrowed the record. -/
structure Plain (h : Heap) (x : Assignment κ) : Prop where
  no_entry : x.ofClass.Governs (.name x.field) none
  free : ∃ rec, h.record? x.record = some rec ∧ rec.borrow = .free

/-- The writes of one record, whichever instances they go through. -/
def writesTo (r : Ref) (xs : List (Assignment κ)) : List (String × Value) :=
  (xs.filter (·.record = r)).map fun x => (x.field, x.value)

end Assignment

/-- Makes the writes one after the other and collects what they return. -/
def assignAll (host : Host κ ε) : List (Assignment κ) → Action (World ε) (List (Completion ε))
  | [] => pure []
  | x :: xs => do
    let c ← x.make host
    let cs ← assignAll host xs
    pure (c :: cs)

/-- A record after writes of its fields: the label and the borrow stay, a field has the value of
its last write, and new fields come after the old ones in the order of their first writes. -/
structure Record.Overwritten (writes : List (String × Value)) (rec rec' : Record) : Prop where
  className : rec'.className = rec.className
  borrow : rec'.borrow = rec.borrow
  value : ∀ field, rec'.fields.get? field =
    (Table.lastWrite? field writes).or (rec.fields.get? field)
  order : rec'.fields.keys = rec.fields.keys ++ rec.fields.newKeys writes

/-- The record with the writes made. -/
def Record.writeAll (writes : List (String × Value)) (rec : Record) : Record :=
  { rec with fields := rec.fields.insertAll writes }

theorem Record.overwritten_writeAll (writes : List (String × Value)) (rec : Record) :
    rec.Overwritten writes (rec.writeAll writes) where
  className := rfl
  borrow := rfl
  value := Table.get?_insertAll rec.fields writes
  order := Table.keys_insertAll rec.fields writes

namespace Heap

def assign (h : Heap) (x : Assignment κ) : Heap :=
  h.modify x.record (Record.writeAll [(x.field, x.value)])

def assignAll (h : Heap) (xs : List (Assignment κ)) : Heap := xs.foldl assign h

theorem record?_assign (h : Heap) (x : Assignment κ) (r : Ref) :
    (h.assign x).record? r = (h.record? r).map (Record.writeAll (Assignment.writesTo r [x])) := by
  rw [assign, record?_modify]
  by_cases hr : x.record = r
  · simp [hr, Assignment.writesTo]
  · have hid : Record.writeAll (Assignment.writesTo r [x]) = id := by
      funext rec
      simp [hr, Assignment.writesTo, Record.writeAll, Table.insertAll]
    rw [if_neg hr, hid, Option.map_id_fun, id]

/-- Each record gets the writes made to it, and no others. -/
theorem record?_assignAll (h : Heap) (xs : List (Assignment κ)) (r : Ref) :
    (h.assignAll xs).record? r =
      (h.record? r).map (Record.writeAll (Assignment.writesTo r xs)) := by
  induction xs generalizing h with
  | nil =>
    have hid : Record.writeAll (Assignment.writesTo r ([] : List (Assignment κ))) = id := rfl
    rw [hid, Option.map_id_fun]
    rfl
  | cons x xs ih =>
    have hrest : (h.assignAll (x :: xs)).record? r =
        ((h.assign x).record? r).map (Record.writeAll (Assignment.writesTo r xs)) := ih _
    rw [hrest, record?_assign, Option.map_map]
    congr 1
    funext rec
    by_cases hr : x.record = r <;>
      simp [hr, Assignment.writesTo, Record.writeAll, Table.insertAll]

end Heap

namespace Assignment

variable {h : Heap} {x : Assignment κ}

/-- A write leaves every borrow as it is. -/
theorem Plain.assign (hx : x.Plain h) (y : Assignment κ) : x.Plain (h.assign y) := by
  obtain ⟨rec, hrec, hfree⟩ := hx.free
  refine ⟨hx.no_entry, rec.writeAll (writesTo x.record [y]), ?_, hfree⟩
  rw [Heap.record?_assign, hrec, Option.map_some]

theorem Plain.exec_make (host : Host κ ε) {w : World ε} (hx : x.Plain w.heap) :
    (x.make host).exec w = (.ok (.ready (.ok .undefined)), { w with heap := w.heap.assign x }) := by
  obtain ⟨rec, hrec, hfree⟩ := hx.free
  have hnone : x.ofClass.findAccessor? (.name x.field) = none :=
    (Class.governs_iff.mp hx.no_entry).symm
  have hset : w.heap.set? x.record x.field x.value = some (w.heap.assign x) := by
    simp only [Heap.set?, hrec, hfree, if_true]
    rfl
  simp only [make, through, Instance.set, hnone, World.writeField, Action.exec_bind,
    World.exec_changeHeap, hset, Action.exec_pure]

end Assignment

/-- The run of plain writes, one write at a time. -/
theorem exec_assignAll (host : Host κ ε) {xs : List (Assignment κ)} {w : World ε}
    (hxs : ∀ x ∈ xs, x.Plain w.heap) :
    (assignAll host xs).exec w =
      (.ok (xs.map fun _ => .ready (.ok .undefined)), { w with heap := w.heap.assignAll xs }) := by
  induction xs generalizing w with
  | nil => rfl
  | cons x xs ih =>
    have hx : x.Plain w.heap := hxs x List.mem_cons_self
    have hrest : ∀ y ∈ xs, y.Plain ({ w with heap := w.heap.assign x } : World ε).heap := by
      intro y hy
      exact (hxs y (List.mem_cons_of_mem _ hy)).assign x
    simp only [assignAll, Action.exec_bind, hx.exec_make host, ih hrest, Action.exec_pure]
    rfl

/-- A field after plain writes is what the last write to it gave, else what it was. -/
theorem Heap.get_assignAll {h : Heap} {xs : List (Assignment κ)} (hxs : ∀ x ∈ xs, x.Plain h)
    (r : Ref) (field : String) :
    (h.assignAll xs).get r field =
      (Table.lastWrite? field (Assignment.writesTo r xs)).getD (h.get r field) := by
  by_cases hr : ∃ x ∈ xs, x.record = r
  · obtain ⟨x, hx, rfl⟩ := hr
    obtain ⟨rec, hrec, hfree⟩ := (hxs x hx).free
    simp only [Heap.get, Heap.readable?, Heap.record?_assignAll, hrec]
    simp [Option.filter, Record.writeAll, hfree, Table.get?_insertAll]
  · have hnone : Assignment.writesTo r xs = [] := by
      simp only [not_exists, not_and] at hr
      simp only [Assignment.writesTo, List.map_eq_nil_iff, List.filter_eq_nil_iff,
        decide_eq_true_eq]
      exact hr
    have hsame : (h.assignAll xs).record? r = h.record? r := by
      rw [Heap.record?_assignAll, hnone]
      exact Option.map_id_fun ▸ rfl
    simp only [Heap.get, Heap.readable?, hsame, hnone]
    rfl

/-- Exactly one entry governs a key, and it decides what a read and a write of the key do. Plain
writes, through any instances of free records and in any number, all return `undefined`; they put
the last value in each field, keep the fields in the order of their first writes and touch nothing
else, and every instance of a record sees them. -/
theorem reads_and_writes (host : Host κ ε) (w : World ε) :
    (∀ (i : Instance κ) (key : MemberKey), ∃ entry,
      (∀ e, i.ofClass.Governs key e ↔ e = entry) ∧ i.DecidedBy host w key entry) ∧
    ∀ xs : List (Assignment κ), (∀ x ∈ xs, x.Plain w.heap) → ∃ h' : Heap,
      (assignAll host xs).exec w =
        (.ok (xs.map fun _ => .ready (.ok .undefined)), { w with heap := h' }) ∧
      (∀ r, Option.Rel (Record.Overwritten (Assignment.writesTo r xs))
        (w.heap.record? r) (h'.record? r)) ∧
      ∀ (j : Instance κ) (r : Ref) (field : String), j.this = .object r →
        (∀ a, j.ofClass.Governs (.name field) (some a) → a.getter = none) →
        (j.get host (.name field)).exec { w with heap := h' } =
          (.ok ((Table.lastWrite? field (Assignment.writesTo r xs)).getD (w.heap.get r field)),
            { w with heap := h' }) := by
  refine ⟨?_, ?_⟩
  · intro i key
    exact ⟨_, fun e => Class.governs_iff, i.decidedBy_findAccessor? host w⟩
  · intro xs hxs
    refine ⟨w.heap.assignAll xs, exec_assignAll host hxs, ?_, ?_⟩
    · intro r
      rw [Heap.record?_assignAll]
      cases w.heap.record? r with
      | none => exact .none
      | some rec => exact .some (rec.overwritten_writeAll _)
    · intro j r field hthis hgetter
      have hdecided : j.DecidedBy host { w with heap := w.heap.assignAll xs } (.name field) _ :=
        j.decidedBy_findAccessor? host _
      rw [hdecided.plain_read fun a ha => hgetter a (Class.governs_iff.mpr ha.symm), Heap.plain,
        hthis]
      exact congrArg (fun v => (Except.ok v, _)) (Heap.get_assignAll hxs r field)

namespace Drawer

/-- Operations that give nothing, and getters that give `true`. -/
def host : Host Unit Unit where
  accepts _ _ := pure (.ready true)
  holds _ _ := pure (.ready true)
  operate _ _ _ := pure (.ready (.ok .undefined))
  read _ _ := pure (.bool true)
  setUp _ _ _ := pure (.ok ())
  deliver _ _ := pure ()

/-- A class with a getter, and a subclass that declares nothing. -/
def drawer : Class Unit := .extend (.build "Drawer" none [(.name "closed", .getter ())]) none

def deskDrawer : Class Unit := .extend (.build "DeskDrawer" none []) (some drawer)

def contents : Ref := ⟨0⟩

/-- One record, which is free and has a field. -/
def world : World Unit where
  heap := ⟨#[{ fields := ⟨[("pens", .bool false)]⟩ }]⟩
  mode := .holding .log
  own := ()

/-- Writes through two instances of the record, the first and the last of one field. -/
def writes : List (Assignment Unit) :=
  [⟨deskDrawer, contents, "clips", .bool true⟩, ⟨drawer, contents, "pens", .null⟩,
    ⟨deskDrawer, contents, "clips", .string "many"⟩]

theorem writes_plain : ∀ x ∈ writes, x.Plain world.heap := by
  intro x hx
  refine ⟨Class.governs_iff.mpr ?_, ?_⟩
  · revert x
    exact List.forall_mem_cons.mpr ⟨rfl, List.forall_mem_cons.mpr ⟨rfl,
      List.forall_mem_singleton.mpr rfl⟩⟩
  · revert x
    exact List.forall_mem_cons.mpr ⟨⟨_, rfl, rfl⟩, List.forall_mem_cons.mpr ⟨⟨_, rfl, rfl⟩,
      List.forall_mem_singleton.mpr ⟨_, rfl, rfl⟩⟩⟩

/-- What was written last through the subclass is read through the class, and the field that was
there comes first. -/
theorem filled_through_both : (∀ x ∈ writes, x.Plain world.heap) ∧ ∃ h' rec,
    (assignAll host writes).exec world =
      (.ok (writes.map fun _ => .ready (.ok .undefined)), { world with heap := h' }) ∧
    h'.record? contents = some rec ∧ rec.fields.keys = ["pens", "clips"] ∧
    ((⟨drawer, .object contents⟩ : Instance Unit).get host (.name "clips")).exec
        { world with heap := h' } = (.ok (.string "many"), { world with heap := h' }) := by
  obtain ⟨_, hwrites⟩ := reads_and_writes host world
  obtain ⟨h', hrun, hrecords, hreads⟩ := hwrites writes writes_plain
  have hnone : ∀ a, drawer.Governs (.name "clips") (some a) → a.getter = none := by
    intro a ha
    have hentry := Class.governs_iff.mp ha
    cases hentry
  have hrecord := hrecords contents
  generalize hr : h'.record? contents = rec' at hrecord
  cases hrecord with
  | some hrec =>
    exact ⟨writes_plain, h', _, hrun, hr, hrec.order, hreads _ contents "clips" rfl hnone⟩

end Drawer

end Contracts
