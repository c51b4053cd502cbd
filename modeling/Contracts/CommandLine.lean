import Contracts.Demo.Scenario

/-!
# Contracts.CommandLine

The command line.

* `Command`        — what is asked for.
* `Exit`           — what a process leaves behind.
* `ArgumentReader` — reads an argument list as a command, or ends the process.
* `runScenario`    — exit code and output of a run, given the environment's failure mode.
* `execute`        — the whole program, with a reader for a parameter.
-/

namespace Contracts.CommandLine

inductive Command where
  | list
  | run (name : String) (mode : Option FailureMode) (trace : Bool)
  deriving DecidableEq, Repr

/-- What a process leaves behind. -/
structure Exit where
  code : UInt32
  stdout : String := ""
  stderr : String := ""

/-- How the value of the option for the failure mode is read. -/
abbrev ModeReader : Type := String → Except UnknownFailureMode FailureMode

/-- A reader of argument lists. A list is refused if it asks for help, or if it is used wrongly. -/
class ArgumentReader where
  Refusal : Type
  read : ModeReader → List String → Except Refusal Command
  isUsageError : Refusal → Bool
  /-- How the process ends. -/
  exit : Refusal → Exit

/-! ## Running -/

def unlines (lines : List String) : String := String.join (lines.map (· ++ "\n"))

/-- A name, filled with blanks up to a column, and the line about it. -/
def listLine (s : Demo.Scenario) : String :=
  s.name ++ String.ofList (List.replicate (12 - s.name.length) ' ') ++ s.about

/-- The environment variable that holds the failure mode of the process. -/
def modeVariable : String := "PACTUM_FAILURE_MODE"

/-- Runs a scenario with the failure mode set for its duration, if one is given. -/
def play (s : Demo.Scenario) (mode : Option FailureMode) (trace : Bool) :
    Demo.Effect (Except ContractError Value) := do
  let setting := if trace then Demo.lineSink else .default
  match mode with
  | none => (s.run setting).run
  | some m =>
    let previous ← World.setFailureMode m
    let outcome ← (s.run setting).run
    let _ ← World.setFailureMode previous
    pure outcome

def runScenario (environment : Option String) (name : String) (mode : Option FailureMode)
    (trace : Bool) : Exit :=
  match Demo.findScenario? name with
  | none => ⟨1, "", "Error: unknown scenario '" ++ name ++ "' (see `pactum list`)\n"⟩
  | some s =>
    let start : Demo.State := { mode := .unset environment, own := {} }
    match (play s mode trace).exec start with
    | (.ok (.ok _), w) => ⟨0, unlines w.own.lines, ""⟩
    | (.ok (.error e), w) => ⟨1, unlines w.own.lines, "Error: " ++ e.message ++ "\n"⟩
    | (.error _, w) => ⟨101, unlines w.own.lines, ""⟩

def Command.execute (environment : Option String) : Command → Exit
  | .list => ⟨0, unlines (Demo.scenarios.map listLine), ""⟩
  | .run name mode trace => runScenario environment name mode trace

/-- The whole program: arguments and environment in, exit code and output out. -/
def execute [ArgumentReader] (environment : Option String) (args : List String) : Exit :=
  match ArgumentReader.read FailureMode.parse args with
  | .ok c => c.execute environment
  | .error r => ArgumentReader.exit r

end Contracts.CommandLine
