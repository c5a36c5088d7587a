import Stagecraft.Edit.Work
import Stagecraft.Quality.Report
import Stagecraft.Vignette.Summary

/-!
The audit of a file: one scored row for each record that can be read.
-/

namespace Stagecraft

structure AuditRow where
  zone : String
  stage : String
  id : String
  promptScore : String
  bucket : Bucket
  changes : String
  description : String
  summary : String
  feedback : String
  slots : List String
  actions : List String
  deriving DecidableEq, Repr

structure Audit where
  rows : List AuditRow
  issues : List Issue

namespace Value

mutual

/-- A value as the cell of a sheet: null is empty, and a list shows its items with plus signs
between them. -/
def cell : Value → String
  | null => ""
  | list items => join "+" (cells items)
  | value => value.text

def cells : List Value → List String
  | [] => []
  | value :: rest => value.cell :: cells rest

end

end Value

/-- Names in order, each one once. -/
def sortedNames (names : List String) : List String :=
  names.eraseDups.mergeSort codesLe

def noteUnresolved (zone : String) (vignette : Vignette) : Job Unit :=
  if vignette.unresolved.isEmpty then pure ()
  else
    let names := (Value.list ((sortedNames vignette.unresolved).map Value.str)).inner
    Job.note s!"audit: {zone}/{vignette.id} unknown directives {names}"

/-- The row of a vignette read at a location; its own id counts unless it is empty. -/
def auditVignette (zone : String) (chooser : Chooser) (lines : List String) (location : Location)
    (vignette : Vignette) : Except Fault AuditRow := do
  let report ← liftFault .misuse (evaluate rules chooser vignette)
  let stage ← stageFor lines location.idLine
  let summary ← liftFault .misuse vignette.summary
  let actions ← liftFault .misuse vignette.tokens
  return {
    zone, stage, summary, actions
    id := if vignette.id = "" then location.id else vignette.id
    promptScore := vignette.promptScore
    bucket := report.bucket
    changes := renderFixes report.fixes
    description := vignette.description
    feedback := ((Fields.get? vignette.feedback "message").getD .null).cell
    slots := vignette.trigger.map (·.2.cell) }

/-- A record whose text cannot be read is an issue; any other fault ends the audit. -/
def auditRecord (zone : String) (chooser : Chooser) (location : Location) : Job Audit := do
  let buffer := (← get).buffer
  match readRecord buffer location with
  | .error (.unreadable error) =>
    Job.note s!"audit: {zone}/{location.id} unreadable: {error.message}"
    return ⟨[], [.unreadable location.id]⟩
  | .error fault => throw fault
  | .ok vignette =>
    noteUnresolved zone vignette
    let row ← Job.ofExcept (auditVignette zone chooser buffer.lines location vignette)
    return ⟨[row], []⟩

def auditRecords (zone : String) (chooser : Chooser) : List Location → Job Audit
  | [] => return ⟨[], []⟩
  | location :: rest => do
    let first ← auditRecord zone chooser location
    let others ← auditRecords zone chooser rest
    return ⟨first.rows ++ others.rows, first.issues ++ others.issues⟩

/-- Audits every record of a file, from top to bottom. -/
def auditBuffer (zone : String) (chooser : Chooser) : Job Audit := do
  let survey ← Job.ofExcept (findAll (← get).buffer)
  let audit ← auditRecords zone chooser survey.found
  return { audit with issues := survey.issues ++ audit.issues }

/-- How many rows are in each bucket. -/
def tallyBuckets (rows : List AuditRow) : List (Bucket × Nat) :=
  Bucket.all.map fun bucket => (bucket, rows.countP (·.bucket == bucket))

end Stagecraft
