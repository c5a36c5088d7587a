import Stagecraft.Fault
import Stagecraft.Text.Digit

/-!
Where the records of a file are. A record is found by the line that holds its id: it opens on the
nearest line above that ends an assignment or stands alone with a brace, and it closes where the
braces are balanced again. Its steps are the array after `steps:`.
-/

namespace Stagecraft

/-- A record and its array of steps, if it has one. -/
structure Location where
  id : String
  idLine : Nat
  record : Span
  steps : Option Span
  deriving DecidableEq, Repr

def openingWindow : Nat := 5

def recordReach : Nat := 4000

def stepsSearchReach : Nat := 200

def stepsReach : Nat := 2000

/-- What follows `id:` and blanks, where a word begins. -/
def afterIdKey? (before : Option Char) (text : List Char) : Option (List Char) :=
  if before.any isWord then none else (afterWord? "id:" text).map skipBlanks

/-- The first quoted id of a line. -/
def idOn? (line : String) : Option String :=
  search (fun before text => do
    let (id, _) ← matchedName? (← afterIdKey? before text)
    return id) none line.toList

/-- Whether the line holds this id, between quotes of one kind. -/
def hasId (id line : String) : Bool :=
  (search (fun before text => do
    match ← afterIdKey? before text with
    | mark :: quoted =>
      if isQuote mark then after? (id.toList ++ [mark]) quoted else none
    | [] => none) none line.toList).isSome

/-- A brace alone on the line, or at its end after an equals sign. -/
def opensRecord (line : String) : Bool :=
  match (stripBlanks line.toList).reverse with
  | '\x7b' :: before =>
    before.isEmpty || (before.dropWhile isBlank).head? == some '='
  | _ => false

def opensSteps (line : String) : Bool :=
  match afterWord? "steps:" (skipBlanks line.toList) with
  | some rest => (skipBlanks rest).head? == some '['
  | none => false

/-- The nearest opening line at `line` or at most `window` lines above it. -/
def openingAbove (lines : List String) (window : Nat) (line : Nat) : Option Nat :=
  match window, line with
  | 0, _ | _, 0 => if (lines[line]?).any opensRecord then some line else none
  | window + 1, above + 1 =>
    if (lines[above + 1]?).any opensRecord then some (above + 1)
    else openingAbove lines window above

/-- The same for a line that may lie outside the file. -/
def findOpening (lines : List String) (window line : Nat) : Except Fault (Option Nat) :=
  if line < lines.length then .ok (openingAbove lines window line) else .error Misuse.outOfRange

def requireClose (marks : Brackets) (lines : List String) (start stop : Nat) : Except Nesting Nat :=
  match matchingClose marks lines start stop with
  | some close => .ok close
  | none => .error (.unbalanced marks start stop)

/-- The number of the first line that satisfies `test`, counted from `index`. -/
def firstLine (test : String → Bool) (index : Nat) : List String → Option Nat
  | [] => none
  | line :: rest => if test line then some index else firstLine test (index + 1) rest

/-- The opening and the closing line of the steps among the lines from `start` up to `stop`. -/
def stepsBounds (lines : List String) (start stop : Nat) : Except Nesting (Option (Nat × Nat)) :=
  let head := (lines.take (min stop (start + stepsSearchReach + 1))).drop start
  match firstLine opensSteps start head with
  | none => .ok none
  | some first => do
    let last ← requireClose .square lines first (min stop (first + stepsReach + 1))
    return some (first, last)

/-- Locates the record whose id stands on `idLine`. -/
def locateAt (buffer : Buffer) (id : String) (idLine : Nat) : Except Nesting Location :=
  match openingAbove buffer.lines openingWindow idLine with
  | none => .error (.noOpening id openingWindow)
  | some first =>
    match matchingClose .curly buffer.lines first (first + recordReach + 1) with
    | none => .error (.neverCloses id first)
    | some last => do
      let steps ← stepsBounds buffer.lines first (last + 1)
      return ⟨id, idLine, buffer.span first (last + 1),
        steps.map fun (opening, closing) => buffer.span opening (closing + 1)⟩

/-- The record whose id is on the first line that holds it; `none` when no line does. -/
def locate (buffer : Buffer) (id : String) : Except Nesting (Option Location) :=
  match firstLine (hasId id) 0 buffer.lines with
  | none => .ok none
  | some line => (locateAt buffer id line).map some

/-- The records of a file from top to bottom, and those that could not be bounded. -/
structure Survey where
  found : List Location
  issues : List Issue

def Survey.addFound (location : Location) (survey : Survey) : Survey :=
  if location.steps.isSome then { survey with found := location :: survey.found } else survey

def Survey.addIssue (issue : Issue) (survey : Survey) : Survey :=
  { survey with issues := issue :: survey.issues }

/-- Scans on behind each record it finds. A record that ends above its own id line would be found
again and again, and the scan would never end. -/
def surveyFrom (buffer : Buffer) (line : Nat) : Except Fault Survey :=
  if inside : line < buffer.lines.length then
    match idOn? buffer.lines[line] with
    | none => surveyFrom buffer (line + 1)
    | some id =>
      match locateAt buffer id line with
      | .error fault => (surveyFrom buffer (line + 1)).map (·.addIssue (.malformed id fault))
      | .ok location =>
        if line < location.record.stop then
          (surveyFrom buffer location.record.stop).map (·.addFound location)
        else .error .endless
  else .ok ⟨[], []⟩
termination_by buffer.lines.length - line

def findAll (buffer : Buffer) : Except Fault Survey := surveyFrom buffer 0

/-- The name a line exports or defines. -/
def constantName? (line : String) : Option String :=
  let text := skipBlanks line.toList
  let unexported := match afterWord? "export" text with
    | some rest => if rest.head?.any isBlank then skipBlanks rest else text
    | none => text
  match afterWord? "const" unexported with
  | some rest =>
    match rest.head?.any isBlank, skipBlanks rest with
    | true, c :: name =>
      if startsName c then some (String.ofList (c :: name.takeWhile continuesName)) else none
    | _, _ => none
  | none => none

/-- The stage a name carries: its number at the end, or one for a default without a number. -/
def stageOfName (name : String) : String :=
  let digits := (name.toList.reverse.takeWhile isDecimalDigit).reverse
  let stem := String.ofList (name.toList.take (name.length - digits.length))
  if !digits.isEmpty && (endsWith stem "_STAGE_" || endsWith stem "_DEFAULT_") then
    String.ofList digits
  else if endsWith name "_DEFAULT" then "1"
  else ""

/-- The stage of the nearest constant at or above a line; empty when there is none. -/
def stageAbove (lines : List String) : Nat → String
  | 0 => ((lines[0]?).bind constantName?).elim "" stageOfName
  | line + 1 =>
    match (lines[line + 1]?).bind constantName? with
    | some name => stageOfName name
    | none => stageAbove lines line

def stageFor (lines : List String) (line : Nat) : Except Fault String :=
  if line < lines.length then .ok (stageAbove lines line) else .error Misuse.outOfRange

end Stagecraft
