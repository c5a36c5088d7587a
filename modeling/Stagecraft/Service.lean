import Stagecraft.Command

/-!
The maintenance service: the same work as the commands, one call at a time within one run. Each
call answers with an object.
-/

namespace Stagecraft

structure Service where
  settings : Settings
  run : RunLog

inductive ServiceCall where
  | analyze (path : String)
  | exportAudit (sheet : Option String)
  | structuralFix (path : String) (trial : Bool)
  | parallelizeEntrances (path : String) (trial : Bool)
  | applyFixes (sheet : Option String) (trial : Bool)
  deriving DecidableEq, Repr

namespace Service

def start (settings : Settings) (runDir : Option String) : Shell Service := do
  match Command.given runDir with
  | some directory => return ⟨settings, ← RunLog.start directory⟩
  | none =>
    let directory := RunLog.freshDirectory settings.dataRoot "vignette-service" (← Shell.now)
    return ⟨settings, ← RunLog.start directory⟩

/-- A path as it is, or among the sources, or the file of a zone. -/
def resolve (service : Service) (path : String) : Shell String := do
  if (← Shell.find path).isSome then return path
  let source := Path.join service.settings.vignettesDir path
  if (← Shell.find source).isSome then return source
  return service.settings.zoneFile path

def sheetOf (service : Service) (sheet : Option String) : String :=
  (Command.given sheet).getD service.settings.auditCsv

def recordJson (row : AuditRow) : Json :=
  .obj [("vignette_id", .str row.id), ("stage", .str row.stage),
    ("quality_score", .str row.bucket.label), ("changes_needed", .str row.changes),
    ("story_summary", .str row.summary), ("action_count", Json.count row.actions.length),
    ("actions", Json.strings row.actions)]

def analyze (service : Service) (chooser : Chooser) (path : String) : Shell Json := do
  let path ← service.resolve path
  let audit ← auditSource service.run.note chooser path
  return .obj [("path", .str path), ("records", .arr (audit.rows.map recordJson)),
    ("errors", Command.texts audit.issues)]

def exportAudit (service : Service) (chooser : Chooser) (sheet : String) : Shell Json := do
  let settings := service.settings
  let paths ← settings.sourceFiles
  let audit ← auditInto service.run.note chooser sheet settings.maxActionColumns paths
  return .obj [("csv_path", .str sheet), ("rows", Json.count audit.rows.length),
    ("tally", Command.tallyJson audit.rows), ("errors", Command.texts audit.issues)]

def structuralFix (service : Service) (path : String) (trial : Bool) : Shell Json := do
  let path ← service.resolve path
  let edited ← pruneSource service.run.note service.settings trial path
  let report := edited.report
  return .obj [("path", .str path), ("counts", .obj (Command.countsJson report.count)),
    ("total", Json.count report.total), ("written", .bool edited.written),
    ("errors", Command.texts report.issues)]

def parallelizeEntrances (service : Service) (path : String) (trial : Bool) : Shell Json := do
  let path ← service.resolve path
  let edited ← mergeSource service.run.note service.settings trial path
  let report := edited.report
  let group (group : MergedGroup) : Json := .obj [("record_id", .str group.id),
    ("side", .str group.side.label), ("characters", Json.strings group.characters)]
  return .obj [("path", .str path), ("groups", .arr (report.groups.map group)),
    ("steps_saved", Json.count report.stepsSaved),
    ("imports_added", Json.strings report.importsAdded), ("written", .bool edited.written),
    ("errors", Command.texts report.issues)]

def fileJson (edited : Edited SpeechReport) : Json :=
  let report := edited.report
  .obj [("path", .str edited.path), ("inserted", Json.count report.inserted),
    ("records", Command.recordsJson report.records), ("errors", Command.texts report.issues),
    ("import_added", .bool report.importAdded), ("written", .bool edited.written)]

/-- A sheet without its columns is an answer, not a fault. -/
def applyFixes (service : Service) (sheet : String) (trial : Bool) : Shell Json :=
  try
    let files ← applySheet service.run.note service.settings trial sheet
    return .obj [("ok", .bool true), ("files", .arr (files.map fileJson)),
      ("total", Json.count (sumOf (·.report.inserted) files))]
  catch
    | .columns fault => return .obj [("ok", .bool false),
        ("errors", Json.strings ["csv_header:" ++ fault.message]), ("files", .arr [])]
    | fault => throw fault

def answer (service : Service) (chooser : Chooser) : ServiceCall → Shell Json
  | .analyze path => service.analyze chooser path
  | .exportAudit sheet => service.exportAudit chooser (service.sheetOf sheet)
  | .structuralFix path trial => service.structuralFix path trial
  | .parallelizeEntrances path trial => service.parallelizeEntrances path trial
  | .applyFixes sheet trial => service.applyFixes (service.sheetOf sheet) trial

end Service

end Stagecraft
