import Stagecraft.Edit.Import
import Stagecraft.Edit.Work
import Stagecraft.Fix.Quote
import Stagecraft.Record.StepLevel
import Stagecraft.Value.Text

/-!
Merging entrances. Two or more characters that walk on from one side, with nothing but blank lines
and comments between them, come on together in one group entrance of three steps.
-/

namespace Stagecraft

inductive Side where
  | left
  | right
  deriving DecidableEq, Repr

namespace Side

def label : Side → String
  | left => "LEFT"
  | right => "RIGHT"

def lower : Side → String
  | left => "left"
  | right => "right"

def groupDirective (side : Side) : String := "GROUP_ENTER_" ++ side.label

def defaultTarget (side : Side) : String := "cs-" ++ side.lower

end Side

/-- A line that brings a character on stage. -/
structure Entrance where
  line : Nat
  side : Side
  character : String
  target : String
  deriving DecidableEq, Repr

def readSide? (text : List Char) : Option (Side × List Char) :=
  match afterWord? "LEFT" text, afterWord? "RIGHT" text with
  | some rest, _ => some (.left, rest)
  | none, some rest => some (.right, rest)
  | none, none => none

/-- A comma and a second name, if they are there. -/
def readTarget (text : List Char) : Option String × List Char :=
  match (afterWord? "," (skipBlanks text)).bind fun rest => matchedName? (skipBlanks rest) with
  | some (target, rest) => (some target, rest)
  | none => (none, text)

/-- At most one comma. -/
def dropComma (text : List Char) : List Char := (afterWord? "," text).getD text

/-- Reads a line that holds one entrance call and nothing else. -/
def readEntrance? (line : String) : Option (Side × String × String) := do
  let (side, rest) ← readSide? (← afterWord? "...ENTER_FROM_" (skipBlanks line.toList))
  let (character, rest) ← matchedName? (skipBlanks (← afterWord? "(" rest))
  let (target, rest) := readTarget rest
  let rest ← afterWord? ")" (skipBlanks rest)
  if (dropComma (skipBlanks rest)).all isBlank then
    return (side, character, target.getD side.defaultTarget)
  else none

def isComment (line : String) : Bool := startsWith (strip line) "//"

/-- A blank line or a comment. -/
def isFiller (line : String) : Bool := isBlankText line || isComment line

def entranceAt? (lines : List String) (line : Nat) : Option Entrance := do
  let (side, character, target) ← readEntrance? (← lines[line]?)
  return ⟨line, side, character, target⟩

/-- From the same side, with only fillers between. -/
def linked (lines : List String) (before after : Entrance) : Bool :=
  before.side == after.side && ((lines.take after.line).drop (before.line + 1)).all isFiller

/-- The chains of two or more linked entrances among the step-level lines. -/
def runsAmong (lines : List String) (levels : List Nat) : List (List Entrance) :=
  ((levels.filterMap (entranceAt? lines)).splitBy (linked lines)).filter (2 ≤ ·.length)

def entranceRuns (buffer : Buffer) (steps : Span) : Except Fault (List (List Entrance)) := do
  liftFault .stale (buffer.require steps)
  let levels ← stepLevelLines buffer.lines steps.start (steps.stop - 1)
  return runsAmong buffer.lines levels

/-- A member of the group; the default target of the side is left out. -/
def groupEntry (side : Side) (entrance : Entrance) : String :=
  if entrance.target = side.defaultTarget then "[" ++ quote entrance.character ++ "]"
  else "[" ++ quote entrance.character ++ ", " ++ quote entrance.target ++ "]"

def groupCall (side : Side) (run : List Entrance) (indent : String) : String :=
  indent ++ "..." ++ side.groupDirective ++ "([" ++ join ", " (run.map (groupEntry side)) ++ "]),"

/-- Puts one group entrance in the place of a run, below the comments that stood within it. -/
def mergeRun (first : Entrance) (rest : List Entrance) : Work Unit := do
  let lines := (← get).buffer.lines
  let stop := ((first :: rest).getLast (by simp)).line + 1
  let comments := ((lines.take stop).drop first.line).filter isComment
  let indent := indentOf (lines[first.line]?.getD "")
  Work.delete first.line stop
  Work.insert first.line (comments ++ [groupCall first.side (first :: rest) indent])

structure MergedGroup where
  id : String
  side : Side
  characters : List String
  deriving DecidableEq, Repr

/-- Each entrance but one saves its three steps. -/
def MergedGroup.stepsSaved (group : MergedGroup) : Nat := (group.characters.length - 1) * 3

def MergedGroup.logLine (group : MergedGroup) : String :=
  let names := (Value.list (group.characters.map Value.str)).inner
  s!"parallelize: {group.id} {group.side.groupDirective} {names}"

/-- Merges the runs from the first of the list to the last. -/
def mergeEach : List (List Entrance) → Work Unit
  | [] => pure ()
  | [] :: rest => mergeEach rest
  | (first :: others) :: rest => do
    mergeRun first others
    mergeEach rest

/-- The groups that a record's runs become. -/
def groupsOf (id : String) (runs : List (List Entrance)) : List MergedGroup :=
  runs.filterMap fun run =>
    run.head?.map fun first => ⟨id, first.side, run.map (·.character)⟩

/-- Merges the runs of one record, the last one first. -/
def mergeRecord (id : String) : Work (List MergedGroup) := do
  let site ← get
  let runs ← Work.ofExcept (entranceRuns site.buffer site.steps)
  mergeEach runs.reverse
  return groupsOf id runs

structure MergeReport where
  groups : List MergedGroup
  importsAdded : List String
  issues : List Issue

def MergeReport.stepsSaved (report : MergeReport) : Nat :=
  sumOf (·.stepsSaved) report.groups

/-- The groups of the records, given from the last to the first, in the order of the file. -/
def mergeRecords : List Location → Job (List MergedGroup)
  | [] => return []
  | location :: rest => do
    let (_, groups) ← Job.site location (mergeRecord location.id)
    Job.noteAll (groups.map (·.logLine))
    let above ← mergeRecords rest
    return above ++ groups

/-- Imports the group directives in use; a module without a list of names is reported once. -/
def importGroups (module : String) : List Side → Job (List String × List Issue)
  | [] => return ([], [])
  | side :: rest => do
    let bench ← get
    let (buffer, outcome) := ensureImport bench.buffer side.groupDirective module
    set { bench with buffer }
    let (added, issues) ← importGroups module rest
    return match outcome with
    | .added => (side.groupDirective :: added, issues)
    | .alreadyThere => (added, issues)
    | .withoutNames => (added, [.missingImport module])

/-- Merges the entrances of all records and imports what the result needs. -/
def mergeEntrances (module : String) : Job MergeReport := do
  let survey ← Job.ofExcept (findAll (← get).buffer)
  let groups ← mergeRecords survey.found.reverse
  let sides := [Side.left, Side.right].filter fun side => groups.any (·.side == side)
  let (added, issues) ← importGroups module sides
  return ⟨groups, added, survey.issues ++ issues⟩

end Stagecraft
