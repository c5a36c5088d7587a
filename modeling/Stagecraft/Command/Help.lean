import Stagecraft.Command.Line

/-!
Help on the command line: a usage filled up to a width, and a hint for all that can be given.
-/

namespace Stagecraft.Help

def program : String := "vignette-tools"

def width : Nat := 78

/-- Where hints begin. -/
def hintColumn : Nat := 24

def blanks (n : Nat) : String := String.ofList (List.replicate n ' ')

/-- Words with a blank before each. One that would go beyond the width begins a new line. -/
def fill (indent column : Nat) : List String → String
  | [] => ""
  | word :: rest =>
    if width < column + 1 + word.length then
      "\n" ++ blanks indent ++ word ++ fill indent (indent + word.length) rest
    else " " ++ word ++ fill indent (column + 1 + word.length) rest

/-- A head and its hint, which goes below a head that reaches into its column. -/
def entry (indent : Nat) (head hint : String) : String :=
  let shown := blanks indent ++ head
  let gap := if shown.length + 2 ≤ hintColumn then blanks (hintColumn - shown.length)
    else "\n" ++ blanks hintColumn
  shown ++ gap ++ hint ++ "\n"

def commandChoice : String :=
  "\x7b" ++ join "," (Command.all.map Command.name) ++ "\x7d"

def commandHint : Command → String
  | .audit => "Score every record and export the audit CSV"
  | .structural => "Remove redundant steps in place"
  | .parallelize => "Merge runs of same-side entrances into group entrances"
  | .applyFixes => "Insert dialogue from an edited audit CSV"

/-- How the value of a switch is named. -/
def valueName : Switch → Option String
  | .vignettesDir => some "VIGNETTES_DIR"
  | .runDir => some "RUN_DIR"
  | .csv => some "CSV"
  | .help | .dryRun => none

def withValue (switch : Switch) (flag : String) : String :=
  match valueName switch with
  | some value => flag ++ " " ++ value
  | none => flag

def switchWord : Switch → String
  | .help => "[-h]"
  | switch => "[" ++ withValue switch switch.flag ++ "]"

def switchHead : Switch → String
  | .help => "-h, --help"
  | switch => withValue switch switch.flag

def switchHint (command : Command) : Switch → String
  | .help => "show this help message and exit"
  | .vignettesDir => "Directory of record source files"
  | .runDir => "Where run.log and run_manifest.json go"
  | .csv => match command with
    | .applyFixes => "Audit CSV to read fixes from"
    | .audit | .structural | .parallelize => "Audit CSV output path"
  | .dryRun => match command with
    | .parallelize => "Report merges without writing files"
    | .applyFixes => "Report insertions without writing files"
    | .audit | .structural => "Report counts without writing files"

def filesHint : String := "Source files (default: every file in --vignettes-dir)"

def options (entries : List String) : String := "\noptions:\n" ++ join "" entries

def positional (entries : List String) : String :=
  "\npositional arguments:\n" ++ join "" entries

def usage : String := s!"usage: {program} [-h] {commandChoice} ...\n"

/-- Help on the program. -/
def overview : String :=
  usage ++ "\nAudit and repair authored vignette records\n" ++
    positional (s!"  {commandChoice}\n" ::
      Command.all.map fun command => entry 4 command.name (commandHint command)) ++
    options [entry 2 (switchHead .help) (switchHint .audit .help)]

/-- The files stand on a line of their own. -/
def commandUsage (command : Command) : String :=
  let head := s!"usage: {program} {command.name}"
  let indent := head.length + 1
  let files := if command.takesFiles then "\n" ++ blanks indent ++ "[files ...]" else ""
  head ++ fill indent head.length (command.switches.map switchWord) ++ files ++ "\n"

/-- Help on a command. -/
def ofCommand (command : Command) : String :=
  commandUsage command ++
    (if command.takesFiles then positional [entry 2 "files" filesHint] else "") ++
    options (command.switches.map fun switch =>
      entry 2 (switchHead switch) (switchHint command switch))

end Stagecraft.Help
