import Contracts.Class.Contract
import Mathlib.Data.List.Basic

/-!
# Contracts.Proofs.Resolving

What a declaration means.

* `Role`, `Slot`, `Field` — the checks of a contract, the two names of each, and all that can be
  set.
* `last?`             — the last of the settings that are for one field.
* `applyAll_eq_last?` — a field of a record holds the last setting for it, else what was there
  before.
* `JsonTree.option?`  — the option of one name and type in a JSON value.
* `resolves_to_last`  — the contract that options and settings mean, and what makes no difference to
  it.
-/

namespace Contracts

variable {κ α : Type}

/-! ## Fields and settings -/

/-- The checks of a contract. -/
inductive Role where
  | precondition
  | postcondition
  | invariant
  deriving DecidableEq

def Spec.check? (s : Spec κ) : Role → Option κ
  | .precondition => s.precondition
  | .postcondition => s.postcondition
  | .invariant => s.invariant

namespace ContractRecord

/-- The names of a check: the primary one, and the alias that stands in for it. -/
inductive Slot where
  | primary (role : Role)
  | alias (role : Role)
  deriving DecidableEq

def Slot.role : Slot → Role
  | .primary role | .alias role => role

inductive Field where
  | predicate (slot : Slot)
  | trace
  | mode
  deriving DecidableEq

/-- A condition on single calls, under either of its names. -/
def Field.isCondition : Field → Bool
  | .predicate slot => slot.role != .invariant
  | .trace | .mode => false

def slot (r : ContractRecord κ) : Slot → Option κ
  | .primary .precondition => r.before
  | .alias .precondition => r.requires
  | .primary .postcondition => r.after
  | .alias .postcondition => r.ensures
  | .primary .invariant => r.constant
  | .alias .invariant => r.invariant

namespace Setting

def ofSlot : Slot → κ → Setting κ
  | .primary .precondition => .before
  | .alias .precondition => .requires
  | .primary .postcondition => .after
  | .alias .postcondition => .ensures
  | .primary .invariant => .constant
  | .alias .invariant => .invariant

def predicate? : Setting κ → Option (Slot × κ)
  | .before c => some (.primary .precondition, c)
  | .requires c => some (.alias .precondition, c)
  | .after c => some (.primary .postcondition, c)
  | .ensures c => some (.alias .postcondition, c)
  | .constant c => some (.primary .invariant, c)
  | .invariant c => some (.alias .invariant, c)
  | .trace _ | .mode _ => none

def inSlot? (slot : Slot) (s : Setting κ) : Option κ :=
  s.predicate?.bind fun p => if p.1 = slot then some p.2 else none

def trace? : Setting κ → Option (TraceSetting κ)
  | .trace t => some t
  | _ => none

def mode? : Setting κ → Option String
  | .mode m => some m
  | _ => none

def field : Setting κ → Field
  | .trace _ => .trace
  | .mode _ => .mode
  | .before _ => .predicate (.primary .precondition)
  | .requires _ => .predicate (.alias .precondition)
  | .after _ => .predicate (.primary .postcondition)
  | .ensures _ => .predicate (.alias .postcondition)
  | .constant _ => .predicate (.primary .invariant)
  | .invariant _ => .predicate (.alias .invariant)

/-- The same predicate under the alias, if it was set under the primary name of the check. -/
def toAlias (role : Role) (s : Setting κ) : Setting κ :=
  match s.inSlot? (.primary role) with
  | some c => ofSlot (.alias role) c
  | none => s

theorem inSlot?_eq_none {slot : Slot} (s : Setting κ) (h : s.field ≠ .predicate slot) :
    s.inSlot? slot = none := by
  cases s <;> simp_all [inSlot?, predicate?, field]

theorem trace?_eq_none (s : Setting κ) (h : s.field ≠ .trace) : s.trace? = none := by
  cases s <;> simp_all [trace?, field]

theorem mode?_eq_none (s : Setting κ) (h : s.field ≠ .mode) : s.mode? = none := by
  cases s <;> simp_all [mode?, field]

theorem inSlot?_toAlias_primary (role : Role) (s : Setting κ) :
    (s.toAlias role).inSlot? (.primary role) = none := by
  cases role <;> cases s <;> rfl

theorem inSlot?_toAlias_alias {role : Role} (s : Setting κ) (h : s.field ≠ .predicate (.alias role)) :
    (s.toAlias role).inSlot? (.alias role) = s.inSlot? (.primary role) := by
  cases role <;> cases s <;> first | rfl | exact absurd rfl h

theorem inSlot?_toAlias_of_ne {role : Role} {slot : Slot} (h : slot.role ≠ role) (s : Setting κ) :
    (s.toAlias role).inSlot? slot = s.inSlot? slot := by
  obtain role' | role' := slot <;> cases role <;> cases role' <;>
    first | exact absurd rfl h | cases s <;> rfl

theorem trace?_toAlias (role : Role) (s : Setting κ) : (s.toAlias role).trace? = s.trace? := by
  cases role <;> cases s <;> rfl

theorem mode?_toAlias (role : Role) (s : Setting κ) : (s.toAlias role).mode? = s.mode? := by
  cases role <;> cases s <;> rfl

end Setting

/-- The last of the settings that are picked. -/
def last? (pick : Setting κ → Option α) (ss : List (Setting κ)) : Option α :=
  (ss.filterMap pick).getLast?

theorem last?_cons (pick : Setting κ → Option α) (s : Setting κ) (ss : List (Setting κ)) :
    last? pick (s :: ss) = (last? pick ss <|> pick s) := by
  cases h : pick s with
  | none => simp [last?, h]
  | some a => cases h' : (ss.filterMap pick).getLast? <;> simp [last?, h, h', List.getLast?_cons]

theorem last?_append (pick : Setting κ → Option α) (ss ts : List (Setting κ)) :
    last? pick (ss ++ ts) = (last? pick ts <|> last? pick ss) := by
  simp [last?]

theorem last?_congr {pick pick' : Setting κ → Option α} {ss : List (Setting κ)}
    (h : ∀ s ∈ ss, pick s = pick' s) : last? pick ss = last? pick' ss := by
  rw [last?, last?, List.filterMap_congr h]

theorem last?_map (pick : Setting κ → Option α) (f : Setting κ → Setting κ)
    (ss : List (Setting κ)) : last? pick (ss.map f) = last? (fun s => pick (f s)) ss := by
  rw [last?, last?, List.filterMap_map]
  rfl

/-- Settings that are not picked do not matter. -/
theorem last?_filter {pick : Setting κ → Option α} {p : Setting κ → Bool}
    (h : ∀ s, p s = false → pick s = none) (ss : List (Setting κ)) :
    last? pick (ss.filter p) = last? pick ss := by
  rw [last?, last?, List.filterMap_filter]
  congr 2
  funext s
  cases hp : p s with
  | true => simp
  | false => simp [h s hp]

/-- What is picked from one field does not depend on the order of other fields. -/
theorem last?_eq_of_filter_eq {pick : Setting κ → Option α} {field : Field}
    (hpick : ∀ s, s.field ≠ field → pick s = none) {ss ts : List (Setting κ)}
    (h : ts.filter (·.field = field) = ss.filter (·.field = field)) :
    last? pick ts = last? pick ss := by
  have hfield : ∀ s : Setting κ, decide (s.field = field) = false → pick s = none :=
    fun s hs => hpick s (of_decide_eq_false hs)
  rw [← last?_filter hfield ts, h, last?_filter hfield ss]

/-! ## The last setting of a field counts -/

section

variable (r : ContractRecord κ) (s : Setting κ) (ss : List (Setting κ))

theorem slot_apply (n : Slot) : (r.apply s).slot n = (s.inSlot? n <|> r.slot n) := by
  rcases n with (_ | _ | _) | (_ | _ | _) <;> cases s <;> rfl

theorem trace_apply : (r.apply s).trace = (s.trace? <|> r.trace) := by
  cases s <;> rfl

theorem mode_apply : (r.apply s).mode = (s.mode? <|> r.mode) := by
  cases s <;> rfl

/-- If each setting replaces what it is picked for, the last one that is picked stays. -/
theorem applyAll_eq_last? (get : ContractRecord κ → Option α) (pick : Setting κ → Option α)
    (hstep : ∀ r s, get (apply r s) = (pick s <|> get r)) :
    get (r.applyAll ss) = (last? pick ss <|> get r) := by
  induction ss generalizing r with
  | nil => simp [applyAll, last?]
  | cons s rest ih =>
    change get ((r.apply s).applyAll rest) = _
    rw [ih, hstep, last?_cons]
    cases last? pick rest <;> rfl

theorem slot_applyAll (n : Slot) :
    (r.applyAll ss).slot n = (last? (Setting.inSlot? n) ss <|> r.slot n) :=
  applyAll_eq_last? r ss (fun r => r.slot n) (Setting.inSlot? n) fun r s => slot_apply r s n

theorem trace_applyAll : (r.applyAll ss).trace = (last? Setting.trace? ss <|> r.trace) :=
  applyAll_eq_last? r ss ContractRecord.trace Setting.trace? trace_apply

theorem mode_applyAll : (r.applyAll ss).mode = (last? Setting.mode? ss <|> r.mode) :=
  applyAll_eq_last? r ss ContractRecord.mode Setting.mode? mode_apply

end

theorem ext_fields {r r' : ContractRecord κ} (hslot : ∀ n, r.slot n = r'.slot n)
    (htrace : r.trace = r'.trace) (hmode : r.mode = r'.mode) : r = r' := by
  obtain ⟨before, requires, after, ensures, constant, invariant, trace, mode⟩ := r
  obtain rfl : before = _ := hslot (.primary .precondition)
  obtain rfl : requires = _ := hslot (.alias .precondition)
  obtain rfl : after = _ := hslot (.primary .postcondition)
  obtain rfl : ensures = _ := hslot (.alias .postcondition)
  obtain rfl : constant = _ := hslot (.primary .invariant)
  obtain rfl : invariant = _ := hslot (.alias .invariant)
  obtain rfl : trace = _ := htrace
  obtain rfl : mode = _ := hmode
  rfl

end ContractRecord

/-! ## Options -/

namespace JsonTree

def asBool? : Json → Option Bool
  | .bool b => some b
  | _ => none

def asText? : Json → Option String
  | .string s => some s
  | _ => none

/-- No name is given twice, as in every object that stands for a map. -/
def DistinctNames : Json → Prop
  | .object members => (members.map Prod.fst).Nodup
  | _ => True

/-- What an object holds under a name in the form that `read` reads; the last such member, if names
are given twice. -/
def option? (read : Json → Option α) (key : String) : Json → Option α
  | .object members => (members.filterMap fun m => if m.1 = key then read m.2 else none).getLast?
  | _ => none

theorem option?_object_eq_member? (read : Json → Option α) (key : String)
    {members : List (String × Json)} (h : (members.map Prod.fst).Nodup) :
    option? read key (.object members) = (member? key (.object members)).bind read := by
  induction members with
  | nil => rfl
  | cons m rest ih =>
    obtain ⟨k, j⟩ := m
    obtain ⟨hk, hrest⟩ := List.nodup_cons.mp h
    by_cases hkey : k = key
    · subst hkey
      have hnone : (rest.filterMap fun m => if m.1 = k then read m.2 else none) = [] := by
        rw [List.filterMap_eq_nil_iff]
        intro m hm
        rw [if_neg]
        exact fun hmk => hk (List.mem_map.mpr ⟨m, hm, hmk⟩)
      cases hj : read j <;> simp [option?, member?, hnone, hj]
    · have hlookup : ((k, j) :: rest).lookup key = rest.lookup key := by
        rw [List.lookup_cons, beq_false_of_ne (Ne.symm hkey)]
      have ih := ih hrest
      simp only [option?, member?] at ih ⊢
      rw [hlookup, ← ih]
      simp [hkey]

theorem option?_eq_member? (read : Json → Option α) (key : String) {j : Json}
    (h : j.DistinctNames) : j.option? read key = (j.member? key).bind read := by
  cases j with
  | object members => exact option?_object_eq_member? read key h
  | null | bool _ | number _ | string _ | array _ => rfl

/-- The members of a JSON value that are options of a contract. -/
def options : Json → List (String × Json)
  | .object members => members.filter fun m =>
      (m.1 == "trace" && m.2.asBool?.isSome) || (m.1 == "failureMode" && m.2.asText?.isSome)
  | _ => []

end JsonTree

namespace ContractRecord

namespace Setting

/-- The setting that an option means, if it is one of the two that count and has its type. -/
def ofOption? (m : String × Json) : Option (Setting κ) :=
  if m.1 = "trace" then m.2.asBool?.map fun b => .trace (.ofBool b)
  else if m.1 = "failureMode" then m.2.asText?.map .mode
  else none

/-- The settings that the options in a JSON value mean. -/
def ofJson : Json → List (Setting κ)
  | .object members => members.filterMap ofOption?
  | _ => []

end Setting

theorem takeOption_eq (r : ContractRecord κ) (m : String × Json) :
    (r.takeOption m).1 = r.applyAll (Setting.ofOption? m).toList := by
  unfold takeOption Setting.ofOption?
  split
  · rfl
  · rfl
  · next key j htrace hmode =>
    by_cases ht : key = "trace"
    · cases j with
      | bool b => exact (htrace b ht rfl).elim
      | null | number _ | string _ | array _ | object _ => simp [ht, JsonTree.asBool?, applyAll]
    by_cases hm : key = "failureMode"
    · cases j with
      | string m => exact (hmode m hm rfl).elim
      | null | bool _ | number _ | array _ | object _ => simp [hm, JsonTree.asText?, applyAll]
    · simp [ht, hm, applyAll]

theorem applyAll_append (r : ContractRecord κ) (ss ts : List (Setting κ)) :
    r.applyAll (ss ++ ts) = (r.applyAll ss).applyAll ts :=
  List.foldl_append

theorem takeOptions_eq (r : ContractRecord κ) (members : List (String × Json)) :
    (r.takeOptions members).1 = r.applyAll (members.filterMap Setting.ofOption?) := by
  induction members generalizing r with
  | nil => rfl
  | cons m rest ih =>
    have hcons : (m :: rest).filterMap (Setting.ofOption? : _ → Option (Setting κ)) =
        (Setting.ofOption? m).toList ++ rest.filterMap Setting.ofOption? := by
      cases h : (Setting.ofOption? m : Option (Setting κ)) <;> simp [h]
    rw [takeOptions, hcons, applyAll_append, ← takeOption_eq, ← ih]

/-- Options are settings that come before all others. -/
theorem applyAll_ofOptions (j : Json) (ss : List (Setting κ)) :
    (ofOptions j).1.applyAll ss = applyAll {} (Setting.ofJson j ++ ss) := by
  rw [applyAll_append]
  cases j with
  | object members => rw [ofOptions, takeOptions_eq, Setting.ofJson]
  | null | bool _ | number _ | string _ | array _ => rfl

/-- Members that are no options do not matter. -/
theorem ofOptions_options (j : Json) :
    (ofOptions (.object j.options)).1 = ((ofOptions j).1 : ContractRecord κ) := by
  have hsame : (Setting.ofJson (.object j.options) : List (Setting κ)) = Setting.ofJson j := by
    cases j with
    | object members =>
      rw [Setting.ofJson, Setting.ofJson, JsonTree.options, List.filterMap_filter]
      congr 1
      funext m
      rw [Setting.ofOption?]
      by_cases ht : m.1 = "trace"
      · cases hb : m.2.asBool? <;> simp [ht]
      by_cases hm : m.1 = "failureMode"
      · cases htext : m.2.asText? <;> simp [hm]
      · simp [ht, hm]
    | null | bool _ | number _ | string _ | array _ => rfl
  have happly := applyAll_ofOptions (.object j.options) ([] : List (Setting κ))
  rw [hsame, ← applyAll_ofOptions] at happly
  exact happly

/-- The option of a type that counts is the last one, and settings do not look at any other. -/
theorem last?_ofJson {read : Json → Option α} {key : String} {β : Type} (f : α → β)
    {pick : Setting κ → Option β}
    (h : ∀ m, (Setting.ofOption? m).bind pick = if m.1 = key then (read m.2).map f else none)
    (j : Json) : last? pick (Setting.ofJson j) = (j.option? read key).map f := by
  cases j with
  | object members =>
    rw [last?, Setting.ofJson, List.filterMap_filterMap, JsonTree.option?, ← List.getLast?_map,
      List.map_filterMap]
    congr 2
    funext m
    rw [h]
    split <;> rfl
  | null | bool _ | number _ | string _ | array _ => rfl

theorem last?_trace_ofJson (j : Json) :
    last? (Setting.trace? : Setting κ → _) (Setting.ofJson j) =
      (j.option? JsonTree.asBool? "trace").map .ofBool := by
  refine last?_ofJson _ (fun m => ?_) j
  rw [Setting.ofOption?]
  split
  · cases m.2.asBool? <;> rfl
  · split
    · cases m.2.asText? <;> rfl
    · rfl

theorem last?_mode_ofJson (j : Json) :
    last? (Setting.mode? : Setting κ → _) (Setting.ofJson j) =
      j.option? JsonTree.asText? "failureMode" := by
  rw [last?_ofJson id (fun m => ?_) j, Option.map_id]
  · rfl
  rw [Setting.ofOption?]
  split
  · next ht =>
    rw [ht]
    cases m.2.asBool? <;> rfl
  · split
    · cases m.2.asText? <;> rfl
    · rfl

theorem last?_inSlot?_ofJson (n : Slot) (j : Json) :
    last? (Setting.inSlot? n : Setting κ → _) (Setting.ofJson j) = none := by
  have hnone : ∀ s ∈ (Setting.ofJson j : List (Setting κ)), s.inSlot? n = none := by
    intro s hs
    cases j with
    | object members =>
      obtain ⟨m, _, hm⟩ := List.mem_filterMap.mp hs
      rw [Setting.ofOption?] at hm
      split at hm
      · obtain ⟨_, _, rfl⟩ := Option.map_eq_some_iff.mp hm
        rfl
      · split at hm
        · obtain ⟨_, _, rfl⟩ := Option.map_eq_some_iff.mp hm
          rfl
        · cases hm
    | null | bool _ | number _ | string _ | array _ => cases hs
  rw [last?, List.filterMap_eq_nil_iff.mpr hnone]
  rfl

section

variable (j : Json) (ss : List (Setting κ))

theorem slot_options (n : Slot) :
    ((ofOptions j).1.applyAll ss).slot n = last? (Setting.inSlot? n) ss := by
  have hempty : ({} : ContractRecord κ).slot n = none := by
    rcases n with (_ | _ | _) | (_ | _ | _) <;> rfl
  rw [applyAll_ofOptions, slot_applyAll, last?_append, last?_inSlot?_ofJson, hempty]
  cases last? (Setting.inSlot? n) ss <;> rfl

theorem trace_options : ((ofOptions j).1.applyAll ss).trace =
    (last? Setting.trace? ss <|> (j.option? JsonTree.asBool? "trace").map .ofBool) := by
  rw [applyAll_ofOptions, trace_applyAll, last?_append, last?_trace_ofJson]
  simp

theorem mode_options : ((ofOptions j).1.applyAll ss).mode =
    (last? Setting.mode? ss <|> j.option? JsonTree.asText? "failureMode") := by
  rw [applyAll_ofOptions, mode_applyAll, last?_append, last?_mode_ofJson]
  simp

end

/-- The order of settings for different fields does not matter. -/
theorem applyAll_eq_of_filter_eq (r : ContractRecord κ) {ss ts : List (Setting κ)}
    (h : ∀ field, ts.filter (·.field = field) = ss.filter (·.field = field)) :
    r.applyAll ts = r.applyAll ss := by
  refine ext_fields (fun n => ?_) ?_ ?_
  · rw [slot_applyAll, slot_applyAll, last?_eq_of_filter_eq Setting.inSlot?_eq_none (h _)]
  · rw [trace_applyAll, trace_applyAll, last?_eq_of_filter_eq Setting.trace?_eq_none (h _)]
  · rw [mode_applyAll, mode_applyAll, last?_eq_of_filter_eq Setting.mode?_eq_none (h _)]

theorem applyAll_swap (r : ContractRecord κ) (before after : List (Setting κ)) {s t : Setting κ}
    (h : s.field ≠ t.field) :
    r.applyAll (before ++ t :: s :: after) = r.applyAll (before ++ s :: t :: after) := by
  refine applyAll_eq_of_filter_eq r fun field => ?_
  rw [List.filter_append, List.filter_append]
  congr 1
  by_cases hs : s.field = field <;> by_cases ht : t.field = field <;> simp_all

end ContractRecord

/-! ## The contract of a declaration -/

open ContractRecord

theorem Declaration.check?_resolve (r : ContractRecord κ) (role : Role) :
    (Declaration.record r).resolve.1.check? role =
      (r.slot (.primary role) <|> r.slot (.alias role)) := by
  cases role <;> rfl

theorem Spec.ext_checks {s s' : Spec κ} (hcheck : ∀ role, s.check? role = s'.check? role)
    (htrace : s.trace = s'.trace) (hmode : s.mode = s'.mode) : s = s' := by
  obtain ⟨precondition, postcondition, invariant, trace, mode⟩ := s
  obtain rfl : precondition = _ := hcheck .precondition
  obtain rfl : postcondition = _ := hcheck .postcondition
  obtain rfl : invariant = _ := hcheck .invariant
  obtain rfl : trace = _ := htrace
  obtain rfl : mode = _ := hmode
  rfl

/-- Records mean the same contract if for each check the first name in use holds the same. -/
theorem Declaration.resolve_congr {r r' : ContractRecord κ}
    (hslot : ∀ role, (r.slot (.primary role) <|> r.slot (.alias role)) =
      (r'.slot (.primary role) <|> r'.slot (.alias role)))
    (htrace : r.trace = r'.trace) (hmode : r.mode = r'.mode) :
    (Declaration.record r).resolve = (Declaration.record r').resolve := by
  refine Prod.ext (Spec.ext_checks (fun role => ?_) ?_ ?_) ?_
  · rw [check?_resolve, check?_resolve, hslot]
  · exact congrArg (Option.getD · .default) htrace
  · exact congrArg (fun mode => (resolveMode mode).1) hmode
  · exact congrArg (fun mode => (resolveMode mode).2) hmode

/-- A predicate means the same under the alias, if the alias is not in use. -/
theorem Declaration.resolve_toAlias (r : ContractRecord κ) (role : Role) {ss : List (Setting κ)}
    (hunused : ∀ s ∈ ss, s.field ≠ .predicate (.alias role)) (hr : ∀ n, r.slot n = none) :
    (Declaration.record (r.applyAll (ss.map (Setting.toAlias role)))).resolve =
      (Declaration.record (r.applyAll ss)).resolve := by
  refine resolve_congr (fun role' => ?_) ?_ ?_
  · simp only [slot_applyAll, last?_map, hr]
    by_cases hrole : role' = role
    · subst hrole
      have halias : last? (Setting.inSlot? (.alias role')) ss = none := by
        rw [last?_congr fun s hs => Setting.inSlot?_eq_none s (hunused s hs), last?]
        simp
      simp only [Setting.inSlot?_toAlias_primary]
      rw [last?_congr fun s hs => Setting.inSlot?_toAlias_alias s (hunused s hs), halias]
      simp [last?]
    · have hprimary : (Slot.primary role').role ≠ role := hrole
      have halias : (Slot.alias role').role ≠ role := hrole
      simp only [Setting.inSlot?_toAlias_of_ne hprimary, Setting.inSlot?_toAlias_of_ne halias]
  · simp only [trace_applyAll, last?_map, Setting.trace?_toAlias]
  · simp only [mode_applyAll, last?_map, Setting.mode?_toAlias]

/-- A class contract takes the invariant, the trace and the mode of a record. -/
theorem contractClass_congr (base : Class κ) {r r' : ContractRecord κ}
    (hprimary : r.slot (.primary .invariant) = r'.slot (.primary .invariant))
    (halias : r.slot (.alias .invariant) = r'.slot (.alias .invariant))
    (htrace : r.trace = r'.trace) (hmode : r.mode = r'.mode) :
    contractClass base (.record r) = contractClass base (.record r') := by
  obtain ⟨_, _, _, _, constant, invariant, trace, mode⟩ := r
  obtain rfl : constant = _ := hprimary
  obtain rfl : invariant = _ := halias
  obtain rfl : trace = _ := htrace
  obtain rfl : mode = _ := hmode
  rfl

/-- A class contract is the same without the conditions on single calls. -/
theorem contractClass_filter (base : Class κ) (r : ContractRecord κ) (ss : List (Setting κ)) :
    contractClass base (.record (r.applyAll (ss.filter fun s => !s.field.isCondition))) =
      contractClass base (.record (r.applyAll ss)) := by
  have hpick : ∀ {α : Type} {pick : Setting κ → Option α} {field : Field},
      field.isCondition = false → (∀ s, s.field ≠ field → pick s = none) →
      last? pick (ss.filter fun s => !s.field.isCondition) = last? pick ss := by
    intro α pick field hfield hnone
    refine last?_filter (fun s hs => hnone s ?_) ss
    rintro rfl
    simp [hfield] at hs
  refine contractClass_congr base ?_ ?_ ?_ ?_
  · rw [slot_applyAll, slot_applyAll, hpick rfl Setting.inSlot?_eq_none]
  · rw [slot_applyAll, slot_applyAll, hpick rfl Setting.inSlot?_eq_none]
  · rw [trace_applyAll, trace_applyAll, hpick rfl Setting.trace?_eq_none]
  · rw [mode_applyAll, mode_applyAll, hpick rfl Setting.mode?_eq_none]

/-- The contract that the options in a JSON value mean, followed by any settings. For each check the
last setting under its primary name counts, else the last one under its alias; the trace is the
last one set, else the option if it is a Boolean, else the default; and the failure mode is the one
that the last text names, be it a setting or the option, or none if that text names none. Other
members of the JSON value do not matter, nor does the order of settings of different fields. A
predicate may as well be set under the alias, if that is not in use, and a class contract is the
same without the conditions on single calls. -/
theorem resolves_to_last (j : Json) (ss : List (Setting κ)) :
    let start : ContractRecord κ := (ofOptions j).1
    let meaning := fun ss => (Declaration.record (start.applyAll ss)).resolve
    let spec := (meaning ss).1
    (∀ role, spec.check? role =
      (last? (Setting.inSlot? (.primary role)) ss <|> last? (Setting.inSlot? (.alias role)) ss)) ∧
    spec.trace = (last? Setting.trace? ss <|>
      (j.option? JsonTree.asBool? "trace").map TraceSetting.ofBool).getD .default ∧
    spec.mode = (last? Setting.mode? ss <|> j.option? JsonTree.asText? "failureMode").bind
      (fun text => (FailureMode.parse text).toOption) ∧
    (j.DistinctNames →
      j.option? JsonTree.asBool? "trace" = (j.member? "trace").bind JsonTree.asBool? ∧
      j.option? JsonTree.asText? "failureMode" =
        (j.member? "failureMode").bind JsonTree.asText?) ∧
    (ofOptions (.object j.options)).1 = start ∧
    (∀ ts, (∀ field, ts.filter (·.field = field) = ss.filter (·.field = field)) →
      start.applyAll ts = start.applyAll ss) ∧
    (∀ before s t after, s.field ≠ t.field →
      start.applyAll (before ++ t :: s :: after) = start.applyAll (before ++ s :: t :: after)) ∧
    (∀ role, (∀ s ∈ ss, s.field ≠ .predicate (.alias role)) →
      meaning (ss.map (Setting.toAlias role)) = meaning ss) ∧
    ∀ base, contractClass base (.record (start.applyAll (ss.filter fun s => !s.field.isCondition))) =
      contractClass base (.record (start.applyAll ss)) := by
  intro start meaning spec
  have hslot : ∀ n, start.slot n = none := fun n => slot_options j [] n
  refine ⟨fun role => ?_, ?_, ?_, fun hj => ⟨?_, ?_⟩, ofOptions_options j,
    fun ts h => applyAll_eq_of_filter_eq start h,
    fun before s t after h => applyAll_swap start before after h,
    fun role hunused => Declaration.resolve_toAlias start role hunused hslot,
    fun base => contractClass_filter base start ss⟩
  · rw [Declaration.check?_resolve, slot_options, slot_options]
  · change (start.applyAll ss).trace.getD .default = _
    rw [trace_options]
  · change (resolveMode (start.applyAll ss).mode).1 = _
    rw [mode_options]
    cases last? Setting.mode? ss <|> j.option? JsonTree.asText? "failureMode" with
    | none => rfl
    | some text =>
      rw [resolveMode, Option.bind_some]
      cases FailureMode.parse text <;> rfl
  · exact JsonTree.option?_eq_member? _ _ hj
  · exact JsonTree.option?_eq_member? _ _ hj

namespace Urn

/-- Options with one member too many. -/
def options : Json :=
  .object [("trace", .bool false), ("seal", .bool true), ("failureMode", .string "Throw")]

/-- The condition is set twice, and the failure mode at last to a text that names none. -/
def settings : List (Setting String) :=
  [.mode "log", .before "empty", .invariant "upright", .before "open", .mode "never"]

/-- The last condition counts, in whatever order and under whatever name; the trace is that of the
options; and neither of the two texts that do name a failure mode comes back. -/
theorem last_counts :
    let start : ContractRecord String := (ofOptions options).1
    let spec := (Declaration.record (start.applyAll settings)).resolve.1
    spec.precondition = some "open" ∧ spec.trace = .disabled ∧ spec.mode = none ∧
    options.option? JsonTree.asBool? "trace" = some false ∧
    start.applyAll [.before "empty", .mode "log", .mode "never", .before "open",
      .invariant "upright"] = start.applyAll settings ∧
    start.applyAll [.mode "log", .before "empty", .before "open", .invariant "upright",
      .mode "never"] = start.applyAll settings ∧
    (Declaration.record (start.applyAll (settings.map (Setting.toAlias .precondition)))).resolve =
      (Declaration.record (start.applyAll settings)).resolve := by
  obtain ⟨hcheck, htrace, hmode, hread, _, horder, hswap, halias, _⟩ :=
    resolves_to_last options settings
  refine ⟨hcheck .precondition, htrace, hmode.trans rfl, ?_, horder _ ?_,
    hswap [.mode "log", .before "empty"] (.invariant "upright") (.before "open") [.mode "never"]
      (by decide), halias .precondition (by decide)⟩
  · exact (hread (by decide : (["trace", "seal", "failureMode"] : List String).Nodup)).1
  · rintro (⟨_ | _ | _⟩ | ⟨_ | _ | _⟩) <;> rfl

end Urn

end Contracts
