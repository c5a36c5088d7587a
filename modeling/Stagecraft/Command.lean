import Stagecraft.Command.Help
import Stagecraft.Edit.Source
import Stagecraft.RunLog

/-!
The commands: each works on files, tells what it did, and enters it into the manifest of its run.
-/

namespace Stagecraft

namespace Pass

def label : Pass → String
  | cameraShake => "Excess camera shakes"
  | duplicates => "Duplicate template spreads"
  | idleBlocks => "Standalone Idle_A blocks"
  | cheerBlocks => "Standalone Cheering blocks"
  | crowdCheer => "CROWD_CHEER after CELEBRATION"

end Pass

namespace Command

def say (line : String) : Shell Unit := Shell.print (line ++ "\n")

def sayAll : List String → Shell Unit
  | [] => return ()
  | line :: rest => do
    say line
    sayAll rest

def texts (issues : List Issue) : Json := Json.strings (issues.map (·.text))

def skipped (issues : List Issue) : List String :=
  issues.map fun issue => s!"  skipped {issue.text}"

/-- The value of a switch, unless it is empty. -/
def given (value : Option String) : Option String := value.filter (· != "")

def settingsOf (settings : Settings) (line : CommandLine) : Settings :=
  { settings with
    vignettesDir := (given line.vignettesDir).getD settings.vignettesDir
    auditCsv := (given line.csv).getD settings.auditCsv }

def startRun (command : Command) (settings : Settings) (line : CommandLine) : Shell RunLog := do
  match given line.runDir with
  | some directory => RunLog.start directory
  | none => RunLog.start (RunLog.freshDirectory settings.dataRoot command.name (← Shell.now))

/-- The files given, or else all sources. -/
def filesOf (settings : Settings) (line : CommandLine) : Shell (List String) :=
  if line.files.isEmpty then settings.sourceFiles else return line.files

def trialMark (line : CommandLine) : String := if line.dryRun then " (DRY RUN)" else ""

def tallyJson (rows : List AuditRow) : Json :=
  .obj ((tallyBuckets rows).map fun (bucket, count) => (bucket.label, Json.count count))

def runAudit (chooser : Chooser) (settings : Settings) (line : CommandLine) (run : RunLog) :
    Shell Unit := do
  let paths ← filesOf settings line
  let audit ← auditInto run.note chooser settings.auditCsv settings.maxActionColumns paths
  run.enterStep "audit" [("files", Json.strings paths), ("rows", Json.count audit.rows.length),
    ("tally", tallyJson audit.rows), ("errors", texts audit.issues)]
  let count (bucket : Bucket) := audit.rows.countP (·.bucket == bucket)
  say s!"Written {audit.rows.length} vignettes -> {settings.auditCsv}"
  say (s!"QUALITY:  GOOD={count .good}  MINOR={count .minorIssues}  " ++
    s!"FIXES={count .needsFixes}  REWORK={count .needsRework}")
  sayAll (skipped audit.issues)

def countsJson (count : Pass → Nat) : Entries Json :=
  Pass.all.map fun pass => (pass.name, Json.count (count pass))

def pruneLines (edited : Edited PruneReport) : List String :=
  let report := edited.report
  let name := Path.name edited.path
  let removed := (Pass.all.filter (report.count · != 0)).map fun pass =>
    s!"  {pass.label}: -{report.count pass}"
  (if report.total = 0 then [s!"-- {name} -- (no structural fixes needed)"]
    else s!"-- {name} --" :: removed) ++ skipped report.issues

/-- Works on files one after the other and tells of each when it is done. -/
def eachFile {α : Type} (work : String → Shell (Edited α)) (lines : Edited α → List String) :
    List String → Shell (List (Edited α))
  | [] => return []
  | path :: rest => do
    let edited ← work path
    sayAll (lines edited)
    let others ← eachFile work lines rest
    return edited :: others

/-- The entries of the files by path. -/
def byPath {α : Type} (entry : α → Json) (files : List (Edited α)) : Json :=
  .obj (Entries.ofPairs (files.map fun edited => (edited.path, entry edited.report)))

def runStructural (settings : Settings) (line : CommandLine) (run : RunLog) : Shell Unit := do
  say ("Structural fixes" ++ trialMark line)
  let paths ← filesOf settings line
  let files ← eachFile (pruneSource run.note settings line.dryRun) pruneLines paths
  let total (pass : Pass) : Nat := sumOf (·.report.count pass) files
  let entry (report : PruneReport) : Json :=
    .obj (countsJson report.count ++ [("errors", texts report.issues)])
  run.enterStep "structural" [("dry_run", .bool line.dryRun), ("files", byPath entry files),
    ("totals", .obj (countsJson total))]
  say s!"Total structural fixes: {sumOf total Pass.all}"
  sayAll (Pass.all.map fun pass => s!"  {pass.label}: {total pass}")

def mergeLines (edited : Edited MergeReport) : List String :=
  let report := edited.report
  let name := Path.name edited.path
  let groups := report.groups.map fun group =>
    let names := join ", " group.characters
    s!"  {group.id} {group.side.lower}: [{names}] -> {group.side.groupDirective}"
  (if report.groups.isEmpty then [s!"-- {name} -- (no entrance runs)"]
    else (s!"-- {name}: {report.groups.length} groups parallelized " ++
      s!"({report.stepsSaved} expanded steps saved)") :: groups) ++ skipped report.issues

def mergeEntry (report : MergeReport) : Json :=
  let group (group : MergedGroup) : Json := .obj [("record", .str group.id),
    ("side", .str group.side.label), ("characters", Json.strings group.characters)]
  .obj [("groups", .arr (report.groups.map group)), ("steps_saved", Json.count report.stepsSaved),
    ("imports_added", Json.strings report.importsAdded), ("errors", texts report.issues)]

def runParallelize (settings : Settings) (line : CommandLine) (run : RunLog) : Shell Unit := do
  say ("Parallelizing consecutive entrances" ++ trialMark line)
  let paths ← filesOf settings line
  let files ← eachFile (mergeSource run.note settings line.dryRun) mergeLines paths
  let groups := sumOf (·.report.groups.length) files
  let saved := sumOf (·.report.stepsSaved) files
  run.enterStep "parallelize" [("dry_run", .bool line.dryRun), ("files", byPath mergeEntry files),
    ("groups", Json.count groups), ("steps_saved", Json.count saved)]
  say s!"Total: {groups} entrance groups parallelized ({saved} expanded steps saved)"

def speechLines (edited : Edited SpeechReport) : List String :=
  let report := edited.report
  s!"-- {Path.name edited.path} --" ::
    report.records.map (fun (id, count) => s!"  {id}: +{count}") ++ skipped report.issues ++
    [s!"  -> {report.inserted} {speakDirective} lines inserted"]

def recordsJson (records : List (String × Nat)) : Json :=
  .obj (records.map fun (id, count) => (id, Json.count count))

def speechEntry (report : SpeechReport) : Json :=
  .obj [("inserted", Json.count report.inserted), ("records", recordsJson report.records),
    ("errors", texts report.issues)]

/-- Tells of the files of a sheet, once all are done. -/
def tellSpeech (settings : Settings) (line : CommandLine) (run : RunLog)
    (files : List (Edited SpeechReport)) : Shell Unit := do
  sayAll (files.flatMap speechLines)
  let total := sumOf (·.report.inserted) files
  run.enterStep "apply_fixes" [("dry_run", .bool line.dryRun), ("csv", .str settings.auditCsv),
    ("files", byPath speechEntry files), ("total", Json.count total)]
  say (s!"Total: {total} {speakDirective} insertions across {files.length} zone files" ++
    trialMark line)

/-- A sheet without its columns is refused, with exit code two. -/
def runApplyFixes (settings : Settings) (line : CommandLine) (run : RunLog) : Shell Nat := do
  let outcome ← try
      let files ← applySheet run.note settings line.dryRun settings.auditCsv
      pure (Except.ok files)
    catch
      | .columns fault => pure (Except.error fault)
      | fault => throw fault
  match outcome with
  | .ok files =>
    tellSpeech settings line run files
    return 0
  | .error fault =>
    run.note s!"apply-fixes: aborted: {fault.message}"
    say s!"error: {fault.message}"
    return 2

/-- Carries out a command and answers with the exit code. -/
def perform (chooser : Chooser) (environment : Settings) (command : Command) (line : CommandLine) :
    Shell Nat := do
  let settings := settingsOf environment line
  let run ← startRun command settings line
  match command with
  | audit => runAudit chooser settings line run; return 0
  | structural => runStructural settings line run; return 0
  | parallelize => runParallelize settings line run; return 0
  | applyFixes => runApplyFixes settings line run

/-- Carries out a command line. Help is an answer; misuse has exit code two. -/
def execute (chooser : Chooser) (environment : Settings) (arguments : List String) : Shell Nat :=
  match readCommandLine arguments with
  | .ok (command, line) => perform chooser environment command line
  | .error (.help asked) => do
    Shell.print ((asked.map Help.ofCommand).getD Help.overview)
    return 0
  | .error .misuse => return 2

end Command

end Stagecraft
