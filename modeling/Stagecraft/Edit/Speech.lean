import Stagecraft.Directive.Table
import Stagecraft.Edit.Import
import Stagecraft.Edit.Work
import Stagecraft.Fix.Column
import Stagecraft.Record.StepLevel

/-!
Inserting the speech that a sheet asks for. A character that already speaks in a record gets no
second line, and no line of the record is changed.
-/

namespace Stagecraft

/-- The fixes a sheet has for one record. -/
structure FixRow where
  zone : String
  id : String
  score : String
  fixes : SpeechFixes
  deriving DecidableEq, Repr

def speakDirective : String := "CHARACTER_SPEAK"

def dialogueComment : String := "// Dialogue fix: give silent characters a voice"

def speakLine (speech : Speech) (indent : String) : String :=
  indent ++ "..." ++ speakDirective ++ "(" ++ quote speech.character ++ ", " ++
    quote speech.emoji ++ ", " ++ quote speech.text ++ "),"

/-- A speaking or exclaiming call with the character's name as its first argument. -/
def speaksFor (character line : String) : Bool :=
  (searchFor (fun text => do
    let rest ← (afterWord? speakDirective text <|> afterWord? "CHARACTER_EXCLAIM" text)
    match skipBlanks (← afterWord? "(" (skipBlanks rest)) with
    | mark :: name =>
      match isQuote mark, after? character.toList name with
      | true, some (closing :: _) => if isQuote closing then some () else none
      | _, _ => none
    | [] => none) line.toList).isSome

def hasDialogue (buffer : Buffer) (record : Span) (character : String) : Except Fault Bool := do
  liftFault .stale (buffer.require record)
  return (buffer.spanLines record).any (speaksFor character)

/-- A narrator counts as late when it stands more than this many lines below the opening. -/
def lateNarrator : Nat := 5

/-- The line that new dialogue goes before: the last celebration, else the last cheering crowd,
else the last late narrator, else the closing line. -/
def insertionPoint (buffer : Buffer) (steps : Span) : Except Fault Nat := do
  liftFault .stale (buffer.require steps)
  let levels ← stepLevelLines buffer.lines steps.start (steps.stop - 1)
  let named (name : String) := levels.filter fun line =>
    (buffer.line? line).bind spreadDirective? = some name
  let late := (named "NARRATOR").filter (steps.start + lateNarrator < ·)
  return ((named "CELEBRATION").getLast? <|> (named "CROWD_CHEER").getLast? <|>
    late.getLast?).getD (steps.stop - 1)

def entranceDirectives : List String :=
  ["ENTER_FROM_LEFT", "ENTER_FROM_RIGHT", "DROP_IN", "CHARGE_IN_LEFT", "CHARGE_IN_RIGHT"]

/-- The line just below the first entrance. -/
def entranceLine (buffer : Buffer) (steps : Span) : Except Fault (Option Nat) := do
  liftFault .stale (buffer.require steps)
  let levels ← stepLevelLines buffer.lines steps.start (steps.stop - 1)
  return (levels.find? fun line =>
    ((buffer.line? line).bind spreadDirective?).any (entranceDirectives.contains ·)).map (· + 1)

/-- The indent of the nearest step-level line at or above `index`, else of the last one, else two
columns more than that of the opening line. -/
def stepIndent (buffer : Buffer) (steps : Span) (index : Nat) : Except Fault String := do
  let levels ← stepLevelLines buffer.lines steps.start (steps.stop - 1)
  let filled := levels.filter fun line => !(buffer.line? line).all isBlankText
  let text (line : Nat) := (buffer.line? line).getD ""
  return match (filled.filter (· ≤ index)).getLast? <|> filled.getLast? with
  | some line => indentOf (text line)
  | none => indentOf (text steps.start) ++ "  "

/-- The first speech of each character that does not speak yet. -/
def missingSpeeches (buffer : Buffer) (record : Span) (added : List String) :
    List Speech → Except Fault (List Speech)
  | [] => .ok []
  | speech :: rest =>
    if added.contains speech.character then missingSpeeches buffer record added rest
    else do
      let spoken ← hasDialogue buffer record speech.character
      if spoken then missingSpeeches buffer record added rest
      else
        let others ← missingSpeeches buffer record (speech.character :: added) rest
        return speech :: others

/-- Inserts dialogue and the closing line as one block under a comment. -/
def insertDialogue (fixes : SpeechFixes) : Work Nat := do
  let site ← get
  let point ← Work.ofExcept (insertionPoint site.buffer site.steps)
  let indent ← Work.ofExcept (stepIndent site.buffer site.steps point)
  let missing ← Work.ofExcept
    (missingSpeeches site.buffer site.record [] (fixes.dialogue ++ fixes.closing.toList))
  if !missing.isEmpty then
    Work.insert point ((indent ++ dialogueComment) :: missing.map (speakLine · indent))
  return missing.length

/-- Inserts the opening line below the first entrance, unless it is there already. -/
def insertOpening (opening : Speech) : Work Nat := do
  let site ← get
  match ← Work.ofExcept (entranceLine site.buffer site.steps) with
  | none => return 0
  | some below =>
    if (site.buffer.line? below).any (speaksFor opening.character) then return 0
    else
      let indent ← Work.ofExcept (stepIndent site.buffer site.steps (below - 1))
      Work.insert below [speakLine opening indent]
      return 1

/-- Applies one row at its record and answers how many lines of speech went in. -/
def applyRow (fixes : SpeechFixes) : Work Nat := do
  let dialogue ← insertDialogue fixes
  match fixes.opening with
  | none => return dialogue
  | some opening => return dialogue + (← insertOpening opening)

structure SpeechReport where
  inserted : Nat
  records : List (String × Nat)
  importAdded : Bool
  issues : List Issue

/-- The records of the rows, as far as they can be found. -/
def locateRows (buffer : Buffer) : List FixRow → List (Location × FixRow) × List Issue
  | [] => ([], [])
  | row :: rest =>
    let (located, issues) := locateRows buffer rest
    match locate buffer row.id with
    | .error fault => (located, .malformed row.id fault :: issues)
    | .ok none => (located, .notFound row.id :: issues)
    | .ok (some location) =>
      if location.steps.isSome then ((location, row) :: located, issues)
      else (located, .withoutSteps row.id :: issues)

/-- From the bottom of the file up; rows of one record keep their order. -/
def bottomUp (located : List (Location × FixRow)) : List (Location × FixRow) :=
  located.mergeSort fun a b => decide (b.1.record.start ≤ a.1.record.start)

/-- The record of a row, located again when an earlier row has moved it. -/
def refreshed (buffer : Buffer) (location : Location) (id : String) : Except Fault Location :=
  if buffer.isValid location.record then .ok location
  else
    match locate buffer id with
    | .error fault => .error (.nesting fault)
    | .ok none => .error (.misuse .missingPart)
    | .ok (some found) => .ok found

/-- The lines inserted for each row, in the order of work. -/
def applyRows : List (Location × FixRow) → Job (List (String × Nat))
  | [] => return []
  | (location, row) :: rest => do
    let current ← Job.ofExcept (refreshed (← get).buffer location row.id)
    let (_, count) ← Job.site current (applyRow row.fixes)
    if count ≠ 0 then Job.note s!"apply-fixes: {row.id} +{count} {speakDirective}"
    let others ← applyRows rest
    return if count ≠ 0 then (row.id, count) :: others else others

/-- The counts of each record added up, records in the order in which they come first. -/
def countByRecord (counts : List (String × Nat)) : List (String × Nat) :=
  (counts.map (·.1)).eraseDups.map fun id =>
    (id, sumOf (·.2) (counts.filter (·.1 == id)))

/-- Imports the speaking directive. -/
def importSpeech (module : String) : Job (Bool × List Issue) := do
  let bench ← get
  let (buffer, outcome) := ensureImport bench.buffer speakDirective module
  set { bench with buffer }
  return (outcome = .added, if outcome = .withoutNames then [.missingImport module] else [])

/-- Applies all rows, and imports the speaking directive if any line went in. -/
def applyFixes (module : String) (rows : List FixRow) : Job SpeechReport := do
  let (located, issues) := locateRows (← get).buffer rows
  let counts ← applyRows (bottomUp located)
  let inserted := sumOf (·.2) counts
  let (added, more) ← if inserted ≠ 0 then importSpeech module else pure (false, [])
  let all := issues ++ more
  Job.noteAll (all.map fun issue => "apply-fixes: " ++ issue.text)
  return ⟨inserted, countByRecord counts, added, all⟩

end Stagecraft
