import Stagecraft.Decimal.Dyadic
import Stagecraft.Directive.Table
import Stagecraft.Edit.Work
import Stagecraft.Literal.Numeral
import Stagecraft.Record.StepLevel

/-!
Removing redundant steps. Five passes run over each record, from the last record to the first; a
pass picks whole blocks or directive lines and removes them from the bottom up.
-/

namespace Stagecraft

inductive Pass where
  | cameraShake
  | duplicates
  | idleBlocks
  | cheerBlocks
  | crowdCheer
  deriving DecidableEq, Repr

namespace Pass

def all : List Pass := [cameraShake, duplicates, idleBlocks, cheerBlocks, crowdCheer]

def name : Pass → String
  | cameraShake => "camera_shake"
  | duplicates => "duplicates"
  | idleBlocks => "idle_blocks"
  | cheerBlocks => "cheer_blocks"
  | crowdCheer => "crowd_cheer"

end Pass

/-- A step written out as an object, on lines of its own. -/
structure Block where
  span : Span
  text : String

def startsBlock (line : String) : Bool :=
  let trimmed := strip line
  trimmed == "\x7b" || startsWith trimmed "\x7b parallel:"

/-- The block that starts on a line and ends before line `stop`. -/
def blockAt (buffer : Buffer) (stop line : Nat) : Except Fault Block := do
  let close ← liftFault .nesting (requireClose .curly buffer.lines line stop)
  let span := buffer.span line (close + 1)
  return ⟨span, buffer.spanText span⟩

/-- The lines strictly between the ends of the steps that start a member. -/
def levelsOf (buffer : Buffer) (steps : Span) : Except Fault (List Nat) :=
  stepLevelLines buffer.lines steps.start (steps.stop - 1)

def lineAt (buffer : Buffer) (index : Nat) : String := (buffer.line? index).getD ""

/-- The blocks of the steps in order. -/
def stepBlocks (buffer : Buffer) (steps : Span) : Except Fault (List Block) := do
  let levels ← levelsOf buffer steps
  (levels.filter fun line => startsBlock (lineAt buffer line)).mapM
    (blockAt buffer (steps.stop - 1))

/-- The step-level lines that spread a directive, with its name. -/
def directiveLines (buffer : Buffer) (steps : Span) : Except Fault (List (Nat × String)) := do
  let levels ← levelsOf buffer steps
  return levels.filterMap fun line =>
    (spreadDirective? (lineAt buffer line)).map fun name => (line, name)

def linesNamed (name : String) (directives : List (Nat × String)) : List Nat :=
  (directives.filter (·.2 == name)).map (·.1)

def animAt? (text : List Char) : Option (QuotedName × List Char) :=
  (afterWord? "anim:" text).bind fun rest => quotedName? (skipBlanks rest)

theorem animAt?_length {text rest : List Char} {found : QuotedName}
    (read : animAt? text = some (found, rest)) : rest.length < text.length := by
  obtain ⟨after, lead, quoted⟩ := Option.bind_eq_some_iff.mp read
  have whole := eq_append_of_after? lead
  have inner := quotedName?_length quoted
  have blanks := skipBlanks_length_le after
  rw [whole, List.length_append]
  omega

/-- Every animation a text names, without overlap. -/
def animsIn : List Char → List String
  | [] => []
  | c :: rest =>
    match _ : animAt? (c :: rest) with
    | some (found, after) => String.ofList found.name :: animsIn after
    | none => animsIn rest
termination_by text => text.length
decreasing_by
  · exact animAt?_length ‹_›
  · exact Nat.lt_succ_self _

def Block.anims (block : Block) : List String := animsIn block.text.toList

/-- The first intensity a text declares, in the order of doubles; none counts as zero. -/
def Block.intensity (block : Block) : Nat :=
  (searchFor (fun rest => do
    let (whole, fraction, _) ← Numeral.mantissa? (skipBlanks (← afterWord? "intensity:" rest))
    let places := fraction.getD []
    return decimalBits (ofDigits (whole ++ places)) (-(places.length : Int)))
    block.text.toList).getD 0

def busyKinds : List String :=
  ["emote", "react", "text_popup", "spawn", "spawn_character", "move", "camera_shake",
    "screen_flash"]

/-- The block names an action that is more than an animation. -/
def Block.isBusy (block : Block) : Bool :=
  (searchFor (fun rest => do
    let (found, _) ← quotedName? (skipBlanks (← afterWord? "action:" rest))
    if busyKinds.contains (String.ofList found.name) then some () else none)
    block.text.toList).isSome

/-- Lines from the end of one block to the start of the next. -/
def gapBetween (before after : Block) : Int := (after.span.start : Int) - before.span.stop + 1

/-- All but the first strongest block of a cluster of three or more. -/
def weakerShakes (cluster : List Block) : List Span :=
  if cluster.length < 3 then [] else
  let strongest := (cluster.map Block.intensity).foldl max 0
  (cluster.eraseIdx (cluster.findIdx (·.intensity == strongest))).map (·.span)

/-- Blocks that shake the camera, in clusters whose members are at most `reach` lines apart. -/
def shakeClusters (reach : Int) (blocks : List Block) : List (List Block) :=
  (blocks.filter fun block => holds block.text "camera_shake").splitBy
    fun before after => decide (gapBetween before after ≤ reach)

def excessShakes (reach : Int) (buffer : Buffer) (steps : Span) : Except Fault (List Span) := do
  let blocks ← stepBlocks buffer steps
  return (shakeClusters reach blocks).flatMap weakerShakes

/-- The lines whose trimmed text is that of the directive line before them. -/
def repeatsAfter (buffer : Buffer) (before : Option String) : List Nat → List Nat
  | [] => []
  | line :: rest =>
    let text := strip (lineAt buffer line)
    let others := repeatsAfter buffer (some text) rest
    if before = some text then line :: others else others

def repeatedDirectives (buffer : Buffer) (steps : Span) : Except Fault (List Span) := do
  let directives ← directiveLines buffer steps
  return (repeatsAfter buffer none (directives.map (·.1))).map fun line =>
    buffer.span line (line + 1)

/-- It names at least one animation, and all it names is this one. -/
def Block.showsOnly (anim : String) (block : Block) : Bool :=
  !block.anims.isEmpty && block.anims.all (· == anim)

def idleOnly (buffer : Buffer) (steps : Span) : Except Fault (List Span) := do
  let blocks ← stepBlocks buffer steps
  return (blocks.filter fun block => block.showsOnly idleAnim && !block.isBusy).map (·.span)

/-- Cheering written by hand above the first celebration. -/
def earlyCheers (buffer : Buffer) (steps : Span) : Except Fault (List Span) := do
  let directives ← directiveLines buffer steps
  match linesNamed "CELEBRATION" directives with
  | [] => return []
  | first :: _ =>
    let blocks ← stepBlocks buffer steps
    return ((blocks.takeWhile fun block => block.span.start < first).filter
      (·.showsOnly cheerAnim)).map (·.span)

/-- Going up from `line`, a celebration comes before anything but blanks, comments and speech. -/
def followsCelebration (buffer : Buffer) (levels : List Nat) (opening : Nat) : Nat → Bool
  | 0 => false
  | line + 1 =>
    if line ≤ opening then false
    else
      let trimmed := strip (lineAt buffer line)
      let name := spreadDirective? trimmed
      if name = some "CELEBRATION" ∧ line ∈ levels then true
      else if trimmed ≠ "" ∧ !startsWith trimmed "//" ∧ name ≠ some "CHARACTER_SPEAK" then false
      else followsCelebration buffer levels opening line

def lateCrowdCheers (buffer : Buffer) (steps : Span) : Except Fault (List Span) := do
  let levels ← levelsOf buffer steps
  let directives ← directiveLines buffer steps
  return ((linesNamed "CROWD_CHEER" directives).filter
    (followsCelebration buffer levels steps.start)).map fun line => buffer.span line (line + 1)

/-- What a pass would remove, from top to bottom; `reach` is the distance within a cluster. -/
def Pass.doomed (reach : Int) (buffer : Buffer) (steps : Span) :
    Pass → Except Fault (List Span)
  | cameraShake => excessShakes reach buffer steps
  | duplicates => repeatedDirectives buffer steps
  | idleBlocks => idleOnly buffer steps
  | cheerBlocks => earlyCheers buffer steps
  | crowdCheer => lateCrowdCheers buffer steps

def removeEach : List Span → Work Unit
  | [] => pure ()
  | span :: rest => do
    Work.requireSpan span
    Work.delete span.start span.stop
    removeEach rest

/-- Runs one pass at a record and answers how many spans went. -/
def Pass.run (reach : Int) (pass : Pass) : Work Nat := do
  let site ← get
  let spans ← Work.ofExcept (pass.doomed reach site.buffer site.steps)
  removeEach spans.reverse
  return spans.length

structure PruneReport where
  removed : List (Pass × Nat)
  issues : List Issue

namespace PruneReport

def count (report : PruneReport) (pass : Pass) : Nat :=
  sumOf (·.2) (report.removed.filter (·.1 == pass))

def total (report : PruneReport) : Nat := sumOf (·.2) report.removed

def followedBy (first second : PruneReport) : PruneReport :=
  ⟨first.removed ++ second.removed, first.issues ++ second.issues⟩

end PruneReport

/-- The passes at one record. A block without an end stops them there. -/
def runPasses (reach : Int) (location : Location) : List Pass → Job PruneReport
  | [] => return ⟨[], []⟩
  | pass :: rest => do
    match ← Job.catchNesting (Job.site location (pass.run reach)) with
    | .error fault =>
      Job.note s!"structural: skipped {location.id} during {pass.name}: {fault.message}"
      return ⟨[], [.malformed location.id fault]⟩
    | .ok (after, removed) =>
      if removed ≠ 0 then Job.note s!"structural: {location.id} {pass.name} -{removed}"
      let others ← runPasses reach after rest
      return ⟨(pass, removed) :: others.removed, others.issues⟩

def pruneEach (reach : Int) : List Location → Job PruneReport
  | [] => return ⟨[], []⟩
  | location :: rest => do
    Job.ofExcept (liftFault .stale ((← get).buffer.require location.record))
    let first ← runPasses reach location Pass.all
    let others ← pruneEach reach rest
    return first.followedBy others

def defaultReach : Int := 3

/-- All passes over all records, from the last record up. -/
def prune (reach : Int) : Job PruneReport := do
  let survey ← Job.ofExcept (findAll (← get).buffer)
  let report ← pruneEach reach survey.found.reverse
  return ⟨report.removed, survey.issues ++ report.issues⟩

end Stagecraft
