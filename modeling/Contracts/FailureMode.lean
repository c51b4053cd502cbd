import Contracts.Text.Blank

/-!
# Contracts.FailureMode

What happens to a failed check: it is written to the journal, or it is raised.

* `FailureMode.parse` — reads a mode from a text, blanks around it and letter case aside.
* `ModeCell`          — the process-wide mode, read from the environment when first asked for.
-/

namespace Contracts

inductive FailureMode where
  /-- Write a diagnostic and go on. -/
  | log
  /-- Return the violation as an error. -/
  | throw
  deriving DecidableEq, Repr, Inhabited

/-- A text that names no failure mode, kept as it was given. -/
structure UnknownFailureMode where
  text : String
  deriving DecidableEq, Repr

def UnknownFailureMode.message (e : UnknownFailureMode) : String :=
  "unknown failure mode: '" ++ e.text ++ "' (expected 'log' or 'throw')"

namespace FailureMode

def name : FailureMode → String
  | .log => "log"
  | .throw => "throw"

def ofName? (s : String) : Option FailureMode :=
  if s = "log" then some .log else if s = "throw" then some .throw else none

theorem ofName?_name (m : FailureMode) : ofName? m.name = some m := by cases m <;> decide

/-- Reads a mode: Unicode white space around the word and ASCII letter case do not count. -/
def parse (s : String) : Except UnknownFailureMode FailureMode :=
  match ofName? (String.ofList ((Text.trim s.toList).map Char.toLower)) with
  | some m => .ok m
  | none => .error ⟨s⟩

end FailureMode

/-- The process-wide failure mode. Until a mode is stored, the environment decides. -/
structure ModeCell where
  environment : Option String
  stored : Option FailureMode
  /-- What the log was told of an environment text that names no mode. -/
  warnings : List String := []

namespace ModeCell

/-- A cell that was never used. -/
def unset (environment : Option String) : ModeCell := { environment, stored := none }

def holding (m : FailureMode) : ModeCell := { environment := none, stored := some m }

/-- The mode of an environment text. A missing text and one that names no mode mean `log`. -/
def ofEnvironment : Option String → FailureMode
  | none => .log
  | some text =>
    match FailureMode.parse text with
    | .ok m => m
    | .error _ => .log

/-- What the log is told when the environment is asked. -/
def complaints : Option String → List String
  | none => []
  | some text =>
    match FailureMode.parse text with
    | .ok _ => []
    | .error e => [e.message ++ "; using '" ++ FailureMode.log.name ++ "'"]

/-- The mode a reader sees now. -/
def current (c : ModeCell) : FailureMode := c.stored.getD (ofEnvironment c.environment)

/-- Stores a mode. While none was stored, this asks the environment for the one it replaces. -/
def store (m : FailureMode) (c : ModeCell) : ModeCell where
  environment := c.environment
  stored := some m
  warnings := if c.stored.isSome then c.warnings else c.warnings ++ complaints c.environment

def read (c : ModeCell) : FailureMode × ModeCell :=
  match c.stored with
  | some m => (m, c)
  | none => (c.current, c.store c.current)

/-- Stores `m` and answers the mode it replaces. -/
def write (m : FailureMode) (c : ModeCell) : FailureMode × ModeCell := (c.current, c.store m)

theorem read_fst (c : ModeCell) : c.read.1 = c.current := by
  obtain ⟨_, _ | m, _⟩ := c <;> rfl

@[simp] theorem current_read (c : ModeCell) : c.read.2.current = c.current := by
  obtain ⟨_, _ | m, _⟩ := c <;> rfl

theorem isSome_stored_read (c : ModeCell) : c.read.2.stored.isSome = true := by
  obtain ⟨_, _ | m, _⟩ := c <;> rfl

/-- To read is to store what is seen, as far as the log is concerned. -/
theorem warnings_read (c : ModeCell) : c.read.2.warnings = (c.store c.current).warnings := by
  obtain ⟨_, _ | m, _⟩ := c <;> rfl

@[simp] theorem current_write (m : FailureMode) (c : ModeCell) : (c.write m).2.current = m := rfl

end ModeCell
end Contracts
