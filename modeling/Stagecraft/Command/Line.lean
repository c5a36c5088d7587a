import Stagecraft.Text.Digit
import Stagecraft.Text.Scan

/-!
Command lines: a command, its switches, and the files it works on. A switch may be shortened as
long as no other begins alike, and may carry its value behind an equals sign. The files stand in one
group, and two dashes end the switches.
-/

namespace Stagecraft

inductive Command where
  | audit
  | structural
  | parallelize
  | applyFixes
  deriving DecidableEq, Repr

inductive Switch where
  | help
  | vignettesDir
  | runDir
  | csv
  | dryRun
  deriving DecidableEq, Repr

/-- What is given with a command. -/
structure CommandLine where
  vignettesDir : Option String
  runDir : Option String
  csv : Option String
  dryRun : Bool
  files : List String
  deriving DecidableEq, Repr

/-- Why a command line is not carried out: it asks for help, maybe on a command, or is wrong. -/
inductive Refusal where
  | help (command : Option Command)
  | misuse
  deriving DecidableEq, Repr

def Switch.flag : Switch → String
  | help => "--help"
  | vignettesDir => "--vignettes-dir"
  | runDir => "--run-dir"
  | csv => "--csv"
  | dryRun => "--dry-run"

namespace Command

def all : List Command := [audit, structural, parallelize, applyFixes]

def name : Command → String
  | audit => "audit"
  | structural => "structural"
  | parallelize => "parallelize"
  | applyFixes => "apply-fixes"

def switches : Command → List Switch
  | audit => [.help, .vignettesDir, .runDir, .csv]
  | structural | parallelize => [.help, .vignettesDir, .runDir, .dryRun]
  | applyFixes => [.help, .vignettesDir, .runDir, .csv, .dryRun]

def takesFiles : Command → Bool
  | applyFixes => false
  | _ => true

end Command

/-- An argument by its form. -/
inductive Word where
  | plain (text : String)
  | switch (switch : Switch) (value : Option String)
  | unknown
  | ambiguous
  | dashes
  deriving DecidableEq, Repr

namespace Word

/-- Digits behind a minus sign, with a point among or before them. One line feed may follow. -/
def isNegative (text : List Char) : Bool :=
  let shown := if text.getLast? = some '\n' then text.dropLast else text
  match shown.dropWhile isDecimalDigit with
  | [] => !shown.isEmpty
  | '.' :: places => !places.isEmpty && places.all isDecimalDigit
  | _ => false

/-- What begins with a dash and is no switch: a number, a text with spaces, or unknown. -/
def ofOther (text : String) : Word :=
  if isNegative (text.toList.drop 1) || text.toList.contains ' ' then plain text else unknown

/-- The short form of help, which may be repeated. -/
def ofShortHelp : List Char → Word
  | [] => switch .help none
  | '=' :: rest | rest =>
    if !rest.isEmpty && rest.all (· == 'h') then switch .help none
    else switch .help (some (String.ofList rest))

/-- A long switch, or the beginning of one. -/
def ofLong (switches : List Switch) (text : String) : Word :=
  let flag := String.ofList (text.toList.takeWhile (· != '='))
  let value := match text.toList.dropWhile (· != '=') with
    | _ :: rest => some (String.ofList rest)
    | [] => none
  match switches.filter fun candidate => startsWith candidate.flag flag with
  | [] => ofOther text
  | [found] => switch found value
  | _ => ambiguous

def ofArgument (switches : List Switch) (text : String) : Word :=
  match text.toList with
  | ['-', '-'] => dashes
  | '-' :: '-' :: _ => ofLong switches text
  | '-' :: 'h' :: rest => ofShortHelp rest
  | '-' :: _ :: _ => ofOther text
  | _ => plain text

/-- The words of a command's arguments; all that follows two dashes is plain. -/
def ofArguments (switches : List Switch) : List String → List Word
  | [] => []
  | text :: rest =>
    match ofArgument switches text with
    | dashes => dashes :: rest.map plain
    | word => word :: ofArguments switches rest

end Word

/-- Where a reader stands in relation to the group of files. -/
inductive FileGroup where
  | ahead
  | inside
  | behind
  deriving DecidableEq, Repr

/-- What was read so far; `extra` tells whether something was left over. -/
structure Progress where
  line : CommandLine
  group : FileGroup
  extra : Bool

namespace Progress

def start (command : Command) : Progress :=
  ⟨⟨none, none, none, false, []⟩, if command.takesFiles then .ahead else .behind, false⟩

def addFile (progress : Progress) (path : String) : Progress :=
  if progress.group = .behind then { progress with extra := true }
  else
    { progress with
      line := { progress.line with files := progress.line.files ++ [path] }, group := .inside }

def passDashes (progress : Progress) : Progress :=
  if progress.group = .behind then { progress with extra := true }
  else { progress with group := .inside }

/-- A switch closes the group of files. -/
def passSwitch (progress : Progress) : Progress :=
  if progress.group = .inside then { progress with group := .behind } else progress

def setSwitch (progress : Progress) (switch : Switch) (value : String) : Progress :=
  let line := progress.line
  { progress.passSwitch with
    line := match switch with
      | .vignettesDir => { line with vignettesDir := some value }
      | .runDir => { line with runDir := some value }
      | .csv => { line with csv := some value }
      | .dryRun => { line with dryRun := true }
      | .help => line }

/-- Reads words from the left; the first help or misuse decides. -/
def read (command : Command) (progress : Progress) : List Word → Except Refusal Progress
  | [] => .ok progress
  | .plain text :: rest => (progress.addFile text).read command rest
  | .dashes :: rest => progress.passDashes.read command rest
  | .unknown :: rest => { progress.passSwitch with extra := true }.read command rest
  | .ambiguous :: _ => .error .misuse
  | .switch .help none :: _ => .error (.help command)
  | .switch .help (some _) :: _ | .switch .dryRun (some _) :: _ => .error .misuse
  | .switch .dryRun none :: rest => (progress.setSwitch .dryRun "").read command rest
  | .switch other (some value) :: rest => (progress.setSwitch other value).read command rest
  | .switch other none :: .plain value :: rest => (progress.setSwitch other value).read command rest
  | .switch _ none :: _ => .error .misuse

end Progress

/-- Reads the arguments of a command; `extra` tells of unknown switches in front of it. -/
def readCommand (extra : Bool) (command : Command) (arguments : List String) :
    Except Refusal CommandLine := do
  let words := Word.ofArguments command.switches arguments
  if words.contains .ambiguous then throw .misuse
  let progress ← (Progress.start command).read command words
  if extra || progress.extra then throw .misuse
  return progress.line

def readCommandLineFrom (extra : Bool) : List String → Except Refusal (Command × CommandLine)
  | [] => .error .misuse
  | text :: rest =>
    match Word.ofArgument [.help] text with
    | .unknown => readCommandLineFrom true rest
    | .switch .help none => .error (.help none)
    | .plain name =>
      match Command.all.find? (·.name == name) with
      | some command => (readCommand extra command rest).map fun line => (command, line)
      | none => .error .misuse
    | _ => .error .misuse

/-- Reads a whole command line. -/
def readCommandLine (arguments : List String) : Except Refusal (Command × CommandLine) :=
  readCommandLineFrom false arguments

end Stagecraft
