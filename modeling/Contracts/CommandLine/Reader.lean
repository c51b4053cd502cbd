import Contracts.CommandLine

/-!
# Contracts.CommandLine.Reader

The reader of the program's arguments.

* `Shape`            — how an argument looks.
* `Request.parse?`   — reads an argument list; none when it is used wrongly.
* `standardReader`   — the reader that the program has.

Options and the scenario's name may come in any order. An option is given once; its value follows
it, or is attached to it. After `--` every argument is a name.
-/

namespace Contracts.CommandLine

inductive HelpTopic where
  | overview
  | list
  | run
  | help
  deriving DecidableEq, Repr

inductive Request where
  | command (c : Command)
  | help (topic : HelpTopic)
  deriving DecidableEq, Repr

inductive Shape where
  /-- `--`: names only from here on. -/
  | separator
  /-- `--name`, or `--name=value`. -/
  | long (name : List Char) (value : Option (List Char))
  /-- `-c` and what is attached to it. -/
  | short (c : Char) (attached : List Char)
  | plain

/-- The part before the first `=`, and the part after it if there is one. -/
def splitAtEquals (cs : List Char) : List Char × Option (List Char) :=
  match cs.dropWhile (· != '=') with
  | _ :: value => (cs.takeWhile (· != '='), some value)
  | [] => (cs, none)

def Shape.of (arg : String) : Shape :=
  match arg.toList with
  | ['-', '-'] => .separator
  | '-' :: '-' :: rest => let (name, value) := splitAtEquals rest; .long name value
  | '-' :: c :: rest => .short c rest
  | _ => .plain

/-- The value attached to a short option: `-fx` and `-f=x` both attach `x`. -/
def attachedValue : List Char → Option (List Char)
  | [] => none
  | '=' :: value => some value
  | value => some value

/-- What the arguments of `run` have said so far. -/
structure RunDraft where
  scenario : Option String := none
  mode : Option FailureMode := none
  trace : Bool := false

namespace RunDraft

def addName (d : RunDraft) (name : String) : Option RunDraft :=
  match d.scenario with
  | none => some { d with scenario := some name }
  | some _ => none

def addMode (ofText : ModeReader) (d : RunDraft) (text : String) : Option RunDraft :=
  match d.mode, ofText text with
  | none, .ok m => some { d with mode := some m }
  | _, _ => none

def addTrace (d : RunDraft) : Option RunDraft :=
  if d.trace then none else some { d with trace := true }

def addNames (d : RunDraft) (names : List String) : Option RunDraft := names.foldlM addName d

def request? (d : RunDraft) : Option Request :=
  d.scenario.map fun s => .command (.run s d.mode d.trace)

end RunDraft

/-- The value of an option that has none attached: the next argument, unless it looks like an
option. -/
def nextValue? : List String → Option (String × List String)
  | [] => none
  | arg :: rest =>
    match Shape.of arg with
    | .plain => some (arg, rest)
    | _ => none

/-- Reads the arguments of `run`. The bound is their number. -/
def parseRun (ofText : ModeReader) (d : RunDraft) : Nat → List String → Option Request
  | _, [] => d.request?
  | 0, _ :: _ => none
  | n + 1, arg :: rest =>
    match Shape.of arg with
    | .separator => (d.addNames rest).bind RunDraft.request?
    | .plain => do parseRun ofText (← d.addName arg) n rest
    | .long name value =>
      match String.ofList name, value with
      | "help", none => some (.help .run)
      | "trace", none => do parseRun ofText (← d.addTrace) n rest
      | "failure-mode", some v => do parseRun ofText (← d.addMode ofText (String.ofList v)) n rest
      | "failure-mode", none => do
        let (v, rest) ← nextValue? rest
        parseRun ofText (← d.addMode ofText v) n rest
      | _, _ => none
    | .short 'h' _ => some (.help .run)
    | .short 'f' attached =>
      match attachedValue attached with
      | some v => do parseRun ofText (← d.addMode ofText (String.ofList v)) n rest
      | none => do
        let (v, rest) ← nextValue? rest
        parseRun ofText (← d.addMode ofText v) n rest
    | .short _ _ => none

def asksForHelp (arg : String) : Bool :=
  match Shape.of arg with
  | .long name none => name == "help".toList
  | .short 'h' _ => true
  | _ => false

def parseList : List String → Option Request
  | [] | ["--"] => some (.command .list)
  | arg :: _ => if asksForHelp arg then some (.help .list) else none

def parseHelp : List String → Option Request
  | [] => some (.help .overview)
  | ["list"] => some (.help .list)
  | ["run"] => some (.help .run)
  | ["help"] => some (.help .help)
  | _ => none

def Request.parse? (ofText : ModeReader) : List String → Option Request
  | [] => none
  | "list" :: rest => parseList rest
  | "run" :: rest => parseRun ofText {} rest.length rest
  | "help" :: rest => parseHelp rest
  | arg :: _ => if asksForHelp arg then some (.help .overview) else none

def helpLines : HelpTopic → List String
  | .overview =>
    ["Design-by-contract scenario runner", "", "Usage: pactum <COMMAND>", "", "Commands:",
      "  list  List the built-in scenarios", "  run   Run one scenario",
      "  help  Print this message or the help of the given subcommand(s)", "", "Options:",
      "  -h, --help  Print help"]
  | .list =>
    ["List the built-in scenarios", "", "Usage: pactum list", "", "Options:",
      "  -h, --help  Print help"]
  | .run =>
    ["Run one scenario", "", "Usage: pactum run [OPTIONS] <SCENARIO>", "", "Arguments:",
      "  <SCENARIO>  Scenario name, as printed by `list`", "", "Options:",
      "  -f, --failure-mode <FAILURE_MODE>  Failure mode: log or throw (default: " ++
        "PACTUM_FAILURE_MODE, else log)",
      "      --trace                        Print every check as a JSON line",
      "  -h, --help                         Print help"]
  | .help =>
    ["Print this message or the help of the given subcommand(s)", "",
      "Usage: pactum help [COMMAND]...", "", "Arguments:",
      "  [COMMAND]...  Print help for the subcommand(s)"]

/-- Why no command came of the arguments. -/
inductive Refusal where
  | help (topic : HelpTopic)
  | usage

def readCommand (ofText : ModeReader) (args : List String) : Except Refusal Command :=
  match Request.parse? ofText args with
  | some (.command c) => .ok c
  | some (.help topic) => .error (.help topic)
  | none => .error .usage

instance standardReader : ArgumentReader where
  Refusal := Refusal
  read := readCommand
  isUsageError
    | .help _ => false
    | .usage => true
  exit
    | .help topic => ⟨0, unlines (helpLines topic), ""⟩
    | .usage => ⟨2, "", "error: invalid usage\n\nFor more information, try '--help'.\n"⟩

end Contracts.CommandLine
