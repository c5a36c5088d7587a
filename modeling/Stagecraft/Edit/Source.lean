import Stagecraft.Audit.Sheet
import Stagecraft.Edit.Entrance
import Stagecraft.Edit.Prune
import Stagecraft.Settings

/-!
Jobs on whole files. A source is read with one kind of line end and written back only when the job
changed something and the run is not a trial.
-/

namespace Stagecraft

/-- Where the messages of a job go. -/
abbrev Note := String → Shell Unit

/-- What a job did to a file. -/
structure Edited (α : Type) where
  path : String
  report : α
  written : Bool

def noteAll (note : Note) : List String → Shell Unit
  | [] => return ()
  | message :: rest => do
    note message
    noteAll note rest

/-- A job on a text, from its first line on. -/
def Job.onText {α : Type} (job : Job α) (text : String) : EStateM.Result Fault Bench α :=
  job ⟨Buffer.ofText (unifiedNewlines text), []⟩

/-- Reads a source and does a job on it. The messages of a job that fails are noted too. -/
def onSource {α : Type} (note : Note) (path : String) (job : Job α) : Shell (α × Buffer) := do
  match job.onText (← Shell.read path) with
  | .ok value bench =>
    noteAll note bench.log
    return (value, bench.buffer)
  | .error fault bench =>
    noteAll note bench.log
    throw fault

/-- Does a job on a source; `changes` tells whether its report is of any change. -/
def editSource {α : Type} (note : Note) (path : String) (trial : Bool) (job : Job α)
    (changes : α → Bool) : Shell (Edited α) := do
  let (report, buffer) ← onSource note path job
  let written := changes report && !trial
  if written then Shell.write path buffer.text
  return ⟨path, report, written⟩

/-- Notes the issues of a file under the label of a job. -/
def Job.noteIssues (label path : String) (issues : List Issue) : Job Unit :=
  Job.noteAll (issues.map fun issue => s!"{label}: {Path.name path}: {issue.text}")

def pruneSource (note : Note) (settings : Settings) (trial : Bool) (path : String) :
    Shell (Edited PruneReport) :=
  editSource note path trial
    (do
      let report ← prune settings.shakeClusterLines
      Job.noteIssues "structural" path report.issues
      return report)
    (·.total != 0)

def mergeSource (note : Note) (settings : Settings) (trial : Bool) (path : String) :
    Shell (Edited MergeReport) :=
  editSource note path trial
    (do
      let report ← mergeEntrances settings.templateModule
      Job.noteIssues "parallelize" path report.issues
      return report)
    (!·.groups.isEmpty)

/-- Applies the rows of one zone to its file. -/
def applyToZone (note : Note) (settings : Settings) (trial : Bool) (zone : String)
    (rows : List FixRow) : Shell (Edited SpeechReport) := do
  let path := settings.zoneFile zone
  if ← Shell.isFile path then
    editSource note path trial (applyFixes settings.templateModule rows) (·.inserted != 0)
  else
    let issue := Issue.zoneFileNotFound zone
    note s!"apply-fixes: {issue.text} ({path})"
    return ⟨path, ⟨0, [], false, [issue]⟩, false⟩

/-- Applies the fixes of a sheet, zone by zone in order. -/
def applySheet (note : Note) (settings : Settings) (trial : Bool) (sheet : String) :
    Shell (List (Edited SpeechReport)) := do
  let rows ← Shell.ofExcept (readFixSheet sheet (← Shell.read sheet))
  (sortedNames (rows.map (·.zone))).mapM fun zone =>
    applyToZone note settings trial zone (rows.filter (·.zone == zone))

def auditSource (note : Note) (chooser : Chooser) (path : String) : Shell Audit := do
  return (← onSource note path (auditBuffer (zoneOf path) chooser)).1

/-- Audits files one after the other. -/
def auditSources (note : Note) (chooser : Chooser) : List String → Shell Audit
  | [] => return ⟨[], []⟩
  | path :: rest => do
    let audit ← auditSource note chooser path
    noteAll note (audit.issues.map fun issue => s!"audit: {Path.name path}: {issue.text}")
    note s!"audit: {Path.name path} {audit.rows.length} records"
    let others ← auditSources note chooser rest
    return ⟨audit.rows ++ others.rows, audit.issues ++ others.issues⟩

/-- Writes a sheet row by row, with the directories it needs. -/
def writeSheet (path : String) (rows : List Csv.Row) : Shell Unit := do
  let directory := Path.parent path
  if directory != "" then Shell.makeDirectories directory
  Shell.writeParts path (rows.map fun row => String.ofList (Csv.writeRow row))

/-- Audits files into a sheet; an empty path stands for no sheet. -/
def auditInto (note : Note) (chooser : Chooser) (sheet : String) (actionColumns : Int)
    (paths : List String) : Shell Audit := do
  let audit ← auditSources note chooser paths
  if sheet != "" then
    writeSheet sheet (auditRows actionColumns.toNat audit.rows)
    note s!"audit: wrote {audit.rows.length} rows to {sheet}"
  return audit

end Stagecraft
