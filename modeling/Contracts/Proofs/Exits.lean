import Contracts.Proofs.Arguments
import Contracts.Proofs.Demonstrations
import Contracts.Proofs.EventTexts
import Contracts.Proofs.Scopes
import Mathlib.Data.List.Nodup

/-!
# Contracts.Proofs.Exits

What a run of a demonstration leaves behind.

* `runMode?`  — the failure mode of a run, from the text that is given and from the environment.
* `Plays`     — what a demonstration comes to in a process of some mode, and the lines it writes.
* `Leaves`    — the exit that belongs to a name, a mode, and whether checks are traced.
* `runScenario_leaves` — a run leaves that, whatever else the environment says.
* `Leaves.traced` — tracing adds texts of checks to the output, and nothing else.
* `run_exits` — both, for every reader of arguments that can be relied on.
-/

namespace Contracts.CommandLine

open Demo

/-- The failure mode of a run: the one that the given text names, if it names one, and that of the
environment where no text is given. -/
def runMode? (environment given : Option String) : Option FailureMode :=
  match given with
  | some text => (FailureMode.parse text).toOption
  | none => some (initialMode environment)

def traceSetting (trace : Bool) : TraceSetting Routine := if trace then lineSink else .default

/-- In a process of the mode the demonstration comes to the outcome, and has written the lines. -/
def Plays (s : Scenario) (trace : Bool) (m : FailureMode)
    (outcome : Except ContractError Value) (lines : List String) : Prop :=
  ∃ w, (s.run (traceSetting trace)).run.exec { mode := .holding m, own := {} } = (.ok outcome, w) ∧
    w.own.lines = lines

/-- The exit after an outcome: the code tells whether it is an error, which is written out. -/
def exitAfter (lines : List String) : Except ContractError Value → Exit
  | .ok _ => { code := 0, stdout := unlines lines }
  | .error e => { code := 1, stdout := unlines lines, stderr := "Error: " ++ e.message ++ "\n" }

/-- What is left behind by a run of the demonstration that has the name. -/
inductive Leaves (name : String) (trace : Bool) (m : FailureMode) : Exit → Prop where
  | unknown (h : ∀ s ∈ scenarios, s.name ≠ name) :
      Leaves name trace m ⟨1, "", "Error: unknown scenario '" ++ name ++ "' (see `pactum list`)\n"⟩
  | played {s : Scenario} {outcome : Except ContractError Value} {lines : List String}
      (hs : s ∈ scenarios) (hname : s.name = name) (h : Plays s trace m outcome lines) :
      Leaves name trace m (exitAfter lines outcome)

/-- A line that is the JSON text of a check. -/
def IsEventLine (line : String) : Prop :=
  ∃ (h : Heap) (e : TraceEvent), line = e.text h ∧ '\n' ∉ line.toList ∧
    Json.Denotes line (e.toJson h)

/-! ## Demonstrations by name -/

section

variable {name : String} {s s' : Scenario}

theorem eq_of_name_eq (hs : s ∈ scenarios) (hs' : s' ∈ scenarios) (h : s.name = s'.name) :
    s = s' :=
  List.inj_on_of_nodup_map (show (scenarios.map (·.name)).Nodup by decide) hs hs' h

/-- A name finds the demonstration that has it. -/
theorem findScenario?_eq_some_iff :
    findScenario? name = some s ↔ s ∈ scenarios ∧ s.name = name := by
  unfold findScenario?
  constructor
  · intro h
    have hname := List.find?_some h
    exact ⟨List.mem_of_find?_eq_some h, beq_iff_eq.mp hname⟩
  · rintro ⟨hs, rfl⟩
    cases hfind : scenarios.find? (·.name == s.name) with
    | none => exact absurd (beq_iff_eq.mpr rfl) (List.find?_eq_none.mp hfind s hs)
    | some s' =>
      have hname := List.find?_some hfind
      rw [eq_of_name_eq (List.mem_of_find?_eq_some hfind) hs (beq_iff_eq.mp hname)]

end

/-! ## Plays -/

section

variable {s : Scenario} {trace : Bool} {m : FailureMode} {outcome : Except ContractError Value}
  {lines : List String}

/-- The built-in demonstrations come to an outcome. -/
theorem exists_plays (hs : s ∈ scenarios) (trace : Bool) (m : FailureMode) :
    ∃ outcome lines, Plays s trace m outcome lines := by
  have hends : ∀ s ∈ scenarios, ∀ trace : Bool,
      ((s.run (traceSetting trace)).run.exec { mode := .holding m, own := {} }).1.isOk = true := by
    cases m <;> decide +kernel
  have hok := hends s hs trace
  revert hok
  unfold Plays
  rcases (s.run (traceSetting trace)).run.exec { mode := .holding m, own := {} } with ⟨c | r, w⟩
  · exact fun hok => Bool.noConfusion hok
  · exact fun _ => ⟨r, w.own.lines, w, rfl, rfl⟩

theorem tracedAlike_traceSetting (P : String → Prop) (trace : Bool) :
    TracedAlike P (traceSetting trace) (traceSetting trace) := by
  cases trace with
  | false => exact tracedAlike_default
  | true => exact tracedAlike_lineSink

/-- A demonstration takes from the process no more than its failure mode, however that is stored. -/
theorem Plays.exec (h : Plays s trace m outcome lines) (hs : s ∈ scenarios) {cell : ModeCell}
    (hcell : cell.current = m) :
    ∃ w, (s.run (traceSetting trace)).run.exec { mode := cell, own := {} } = (.ok outcome, w) ∧
      w.own.lines = lines := by
  obtain ⟨w, hexec, rfl⟩ := h
  have hstart : Alongside (fun _ => False) { mode := .holding m, own := {} }
      { mode := cell, own := {} } := ⟨rfl, hcell.symm, .nil⟩
  have halike := alike_scenario (tracedAlike_traceSetting (fun _ => False) trace) hs
  obtain ⟨_, hend, -, hends⟩ := halike () le_rfl _ _ hstart
  rw [hexec] at hend hends
  exact ⟨((s.run _).run.exec { mode := cell, own := {} }).2, Prod.ext hends.eq.symm rfl,
    hend.lines.eq.symm⟩

theorem Plays.unique {outcome' : Except ContractError Value} {lines' : List String}
    (h : Plays s trace m outcome lines) (h' : Plays s trace m outcome' lines') :
    outcome = outcome' ∧ lines = lines' := by
  obtain ⟨w, hexec, rfl⟩ := h
  obtain ⟨w', hexec', rfl⟩ := h'
  cases hexec.symm.trans hexec'
  exact ⟨rfl, rfl⟩

/-- A run plays the demonstration in the mode that is asked for, and in that of the environment if
none is. The mode is put back when the demonstration is over. -/
theorem Plays.exec_play {environment : Option String} {mode : Option FailureMode}
    (h : Plays s trace (mode.getD (initialMode environment)) outcome lines) (hs : s ∈ scenarios) :
    ∃ w, (play s mode trace).exec { mode := .unset environment, own := {} } = (.ok outcome, w) ∧
      w.own.lines = lines := by
  cases mode with
  | none => exact h.exec hs (current_unset environment)
  | some m =>
    have hcell : ((ModeCell.unset environment).store m).current = m := rfl
    obtain ⟨w, hexec, hlines⟩ := h.exec hs hcell
    refine ⟨{ w with mode := (w.mode.write (ModeCell.unset environment).current).2 }, ?_, hlines⟩
    have hset : (World.setFailureMode m : Effect FailureMode).exec
        { mode := .unset environment, own := {} } =
          (.ok (ModeCell.unset environment).current,
            { mode := (ModeCell.unset environment).store m, own := {} }) := rfl
    have hrun : (s.run (if trace then lineSink else .default)).run.exec
        { mode := (ModeCell.unset environment).store m, own := {} } = (.ok outcome, w) := hexec
    simp only [play, Action.exec_bind, hset, hrun]
    rfl

/-- Tracing leaves the outcome as it is, and adds lines that are texts of checks. -/
theorem Plays.traced {outcome' : Except ContractError Value} {lines' : List String}
    (h : Plays s false m outcome lines) (h' : Plays s true m outcome' lines') (hs : s ∈ scenarios) :
    outcome = outcome' ∧ Interlined IsEventLine lines lines' := by
  obtain ⟨w, hexec, rfl⟩ := h
  obtain ⟨w', hexec', rfl⟩ := h'
  have hstart : Alongside IsEventLine { mode := .holding m, own := {} }
      { mode := .holding m, own := {} } := ⟨rfl, rfl, .nil⟩
  have htraced : TracedAlike IsEventLine (traceSetting false) (traceSetting true) :=
    tracedAlike_default_lineSink fun h e => ⟨h, e, rfl,
      TraceEvent.text_spec standardWriter_writesNumbers standardWriter_writesTrees h e⟩
  obtain ⟨_, hend, -, hends⟩ := alike_scenario htraced hs () le_rfl _ _ hstart
  rw [hexec, hexec'] at hend hends
  cases hends.eq
  exact ⟨rfl, hend.lines⟩

end

/-! ## Exits -/

section

variable {name : String} {trace : Bool} {m : FailureMode} {x x' : Exit}

theorem runScenario_leaves (environment : Option String) (name : String) (mode : Option FailureMode)
    (trace : Bool) : Leaves name trace (mode.getD (initialMode environment))
      (runScenario environment name mode trace) := by
  unfold runScenario
  cases hfind : findScenario? name with
  | none =>
    refine .unknown fun s hs hname => ?_
    rw [findScenario?_eq_some_iff.mpr ⟨hs, hname⟩] at hfind
    cases hfind
  | some s =>
    obtain ⟨hs, hname⟩ := findScenario?_eq_some_iff.mp hfind
    obtain ⟨outcome, lines, hplays⟩ := exists_plays hs trace (mode.getD (initialMode environment))
    have hleaves := Leaves.played hs hname hplays
    obtain ⟨w, hexec, rfl⟩ := hplays.exec_play hs
    simp only [hexec]
    cases outcome <;> exact hleaves

/-- What two runs with one name in one mode leave behind comes from the same error, or from the same
demonstration. -/
theorem Leaves.paired {trace' : Bool} (h : Leaves name trace m x) (h' : Leaves name trace' m x') :
    (x = x' ∧ x.stdout = "") ∨ ∃ s ∈ scenarios, ∃ outcome lines outcome' lines',
      Plays s trace m outcome lines ∧ Plays s trace' m outcome' lines' ∧
        x = exitAfter lines outcome ∧ x' = exitAfter lines' outcome' := by
  cases h with
  | unknown hnone =>
    cases h' with
    | unknown => exact .inl ⟨rfl, rfl⟩
    | played hs hname => exact absurd hname (hnone _ hs)
  | played hs hname hplays =>
    cases h' with
    | unknown hnone => exact absurd hname (hnone _ hs)
    | played hs' hname' hplays' =>
      obtain rfl := eq_of_name_eq hs hs' (hname.trans hname'.symm)
      exact .inr ⟨_, hs, _, _, _, _, hplays, hplays', rfl, rfl⟩

/-- A name, a mode and whether checks are traced determine what is left behind. -/
theorem Leaves.unique (h : Leaves name trace m x) (h' : Leaves name trace m x') : x = x' := by
  rcases h.paired h' with ⟨hsame, -⟩ | ⟨s, -, _, _, _, _, hplays, hplays', rfl, rfl⟩
  · exact hsame
  · obtain ⟨rfl, rfl⟩ := hplays.unique hplays'
    rfl

/-- Tracing changes neither the exit code nor the error output, and adds texts of checks to the
lines of the output. -/
theorem Leaves.traced (h : Leaves name false m x) (h' : Leaves name true m x') :
    x.code = x'.code ∧ x.stderr = x'.stderr ∧ ∃ lines lines', x.stdout = unlines lines ∧
      x'.stdout = unlines lines' ∧ Interlined IsEventLine lines lines' := by
  rcases h.paired h' with ⟨rfl, hout⟩ |
    ⟨s, hs, outcome, lines, _, lines', hplays, hplays', rfl, rfl⟩
  · exact ⟨rfl, rfl, [], [], hout, hout, .nil⟩
  · obtain ⟨rfl, hlines⟩ := hplays.traced hplays' hs
    cases outcome <;> exact ⟨rfl, rfl, lines, lines', rfl, rfl, hlines⟩

end

/-- A text that a mode is read from gives that mode, whatever the environment says. -/
theorem runMode?_eq {given : Option String} {mode : Option FailureMode}
    (h : given.map FailureMode.parse = mode.map .ok) (environment : Option String) :
    runMode? environment given = some (mode.getD (initialMode environment)) := by
  cases given with
  | none =>
    cases mode with
    | none => rfl
    | some m => cases h
  | some text =>
    cases mode with
    | none => cases h
    | some m =>
      rw [runMode?, Option.some.inj h]
      rfl

section

variable [R : ArgumentReader] {environment given : Option String} {args : List String}
  {name : String} {trace : Bool} (hR : R.ReadsRuns)

include hR

theorem execute_leaves {m : FailureMode} (h : Asks args name given trace)
    (hmode : runMode? environment given = some m) :
    Leaves name trace m (execute environment ("run" :: args)) := by
  obtain ⟨mode, hgiven, rfl⟩ : ∃ mode : Option FailureMode,
      given.map FailureMode.parse = mode.map .ok ∧ mode.getD (initialMode environment) = m := by
    cases given with
    | none => exact ⟨none, rfl, Option.some.inj hmode⟩
    | some text =>
      rw [runMode?] at hmode
      cases hparse : FailureMode.parse text with
      | error e =>
        rw [hparse] at hmode
        cases hmode
      | ok m' =>
        rw [hparse] at hmode
        exact ⟨some m', by simp [hparse], Option.some.inj hmode⟩
  have hread := (hR.run_iff FailureMode.parse ("run" :: args) name mode trace).mpr
    ⟨args, given, rfl, h, hgiven⟩
  rw [execute, hread]
  exact runScenario_leaves environment name mode trace

theorem execute_of_unknown_mode (h : Asks args name given trace)
    (hmode : runMode? environment given = none) :
    (execute environment ("run" :: args)).code = 2 ∧
      (execute environment ("run" :: args)).stdout = "" := by
  cases given with
  | none => cases hmode
  | some text =>
    rw [runMode?] at hmode
    cases hparse : FailureMode.parse text with
    | error e =>
      obtain ⟨r, hread, husage⟩ := hR.unknown_mode _ _ _ _ _ _ h hparse
      rw [execute, hread]
      exact hR.usage_exit r husage
    | ok m =>
      rw [hparse] at hmode
      cases hmode

end

/-- What runs leave behind.

A list that is read as a run asks for one, and it leaves what belongs to its name, its mode, and
whether it is traced. The mode is the one that the list gives, and that of the environment if it
gives none; a mode that is unknown is a usage error. So runs that have name, mode and trace in
common leave the same, however they are spelled and whatever else the environment says. Tracing adds
texts of checks to the lines of the output, and changes nothing else. -/
theorem run_exits [R : ArgumentReader] (hR : R.ReadsRuns) :
    (∀ args name mode trace, R.read FailureMode.parse args = .ok (.run name mode trace) →
      ∃ rest given, args = "run" :: rest ∧ Asks rest name given trace ∧
        ∀ environment, ∃ m, runMode? environment given = some m ∧
          Leaves name trace m (execute environment args)) ∧
    (∀ environment args name given trace, Asks args name given trace →
      let exit := execute environment ("run" :: args)
      (runMode? environment given = none → exit.code = 2 ∧ exit.stdout = "") ∧
      ∀ m, runMode? environment given = some m → ∀ x, exit = x ↔ Leaves name trace m x) ∧
    (∀ environment environment' args args' name given given' trace m,
      Asks args name given trace → Asks args' name given' trace →
      runMode? environment given = some m → runMode? environment' given' = some m →
      execute environment ("run" :: args) = execute environment' ("run" :: args')) ∧
    ∀ name m x x', Leaves name false m x → Leaves name true m x' →
      x.code = x'.code ∧ x.stderr = x'.stderr ∧ ∃ lines lines', x.stdout = unlines lines ∧
        x'.stdout = unlines lines' ∧ Interlined IsEventLine lines lines' := by
  refine ⟨?_, ?_, ?_, fun name m x x' => Leaves.traced⟩
  · intro args name mode trace hread
    obtain ⟨rest, given, rfl, hasks, hgiven⟩ := (hR.run_iff _ _ _ _ _).mp hread
    refine ⟨rest, given, rfl, hasks, fun environment => ?_⟩
    have hmode := runMode?_eq hgiven environment
    exact ⟨_, hmode, execute_leaves hR hasks hmode⟩
  · intro environment args name given trace h
    refine ⟨execute_of_unknown_mode hR h, fun m hmode x => ⟨?_, ?_⟩⟩
    · rintro rfl
      exact execute_leaves hR h hmode
    · exact (execute_leaves hR h hmode).unique
  · intro environment environment' args args' name given given' trace m h h' hm hm'
    exact (execute_leaves hR h hm).unique (execute_leaves hR h' hm')

namespace Counter

/-- The counter with a trace, in the mode that the arguments give. -/
def flagged : List String := ["--trace", "-f Throw ", "counter"]

/-- The counter with a trace, in the mode of the environment. -/
def unflagged : List String := ["--trace", "--", "counter"]

def untraced : List String := ["counter"]

def misspelled : List String := ["counter", "--failure-mode", "though"]

theorem spelled_name : (RunPart.name "counter").Spelled ["counter"] := .name (.inr (by decide))

theorem asks_flagged : Asks flagged "counter" (some " Throw ") true := by
  have hmode : (RunPart.mode " Throw ").Spelled ["-f Throw "] :=
    .shortAttached "Throw ".toList (show ' ' ≠ '=' by decide)
  exact ⟨_, .part .trace (.part hmode (.part spelled_name .nil)), rfl, rfl, rfl⟩

theorem asks_unflagged : Asks unflagged "counter" none true :=
  ⟨_, .part .trace (.separator ["counter"]), rfl, rfl, rfl⟩

theorem asks_untraced : Asks untraced "counter" none false :=
  ⟨_, .part spelled_name .nil, rfl, rfl, rfl⟩

theorem asks_misspelled : Asks misspelled "counter" (some "though") false :=
  ⟨_, .part spelled_name (.part (.longNext (.inr (by decide))) .nil), rfl, rfl, rfl⟩

theorem counter_asked_for :
    standardReader.read FailureMode.parse ("run" :: flagged) =
      .ok (.run "counter" (some .throw) true) ∧
    (execute none ("run" :: misspelled)).code = 2 ∧
    execute (some "log") ("run" :: flagged) = execute (some "THROW") ("run" :: unflagged) ∧
    (execute (some "THROW") ("run" :: untraced)).stderr =
      (execute (some "THROW") ("run" :: unflagged)).stderr ∧
    Leaves "counter" true .throw (execute (some "log") ("run" :: flagged)) := by
  obtain ⟨-, hexits, hsame, htraced⟩ := run_exits standardReader_readsRuns
  have hread := (standardReader_readsRuns.run_iff FailureMode.parse _ "counter" (some .throw)
    true).mpr ⟨flagged, _, rfl, asks_flagged, by decide⟩
  have hthrow : runMode? (some "log") (some " Throw ") = some .throw := by decide
  have henvironment : runMode? (some "THROW") none = some .throw := by decide
  have hflagged := (((hexits (some "log") _ _ _ _ asks_flagged).2 _ hthrow) _).mp rfl
  have hunflagged := (((hexits (some "THROW") _ _ _ _ asks_unflagged).2 _ henvironment) _).mp rfl
  have huntraced := (((hexits (some "THROW") _ _ _ _ asks_untraced).2 _ henvironment) _).mp rfl
  exact ⟨hread, ((hexits none _ _ _ _ asks_misspelled).1 (by decide)).1,
    hsame _ _ _ _ _ _ _ _ _ asks_flagged asks_unflagged hthrow henvironment,
    (htraced _ _ _ _ huntraced hunflagged).2.1, hflagged⟩

end Counter

end Contracts.CommandLine
