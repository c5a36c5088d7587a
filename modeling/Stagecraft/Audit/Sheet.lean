import Stagecraft.Audit
import Stagecraft.Edit.Speech
import Stagecraft.Sheet

/-!
The audit sheet: one line for each record, with columns for the slots of its trigger and for its
actions behind the fixed ones. People edit the sheet, and the fixes are read back from it.
-/

namespace Stagecraft

def auditColumns : List String :=
  ["zone", "stage", "vignette_id", "prompt_score", "action_count", "quality_score",
    "changes_needed", "description", "story_summary", "feedback_message"]

def fixColumns : List String := ["zone", "vignette_id", "quality_score", "changes_needed"]

/-- `label` with the numbers from one to `count`. -/
def numbered (label : String) (count : Nat) : List String :=
  (List.range count).map fun place => label ++ toString (place + 1)

def auditHeader (slotColumns actionColumns : Nat) : Csv.Row :=
  auditColumns ++ numbered "Slot" slotColumns ++ numbered "Action" actionColumns

/-- Exactly `width` cells: the rest stays empty, and what does not fit is cut off. -/
def fitted (width : Nat) (cells : List String) : List String :=
  cells.take width ++ List.replicate (width - cells.length) ""

def AuditRow.cells (slotColumns actionColumns : Nat) (row : AuditRow) : Csv.Row :=
  [row.zone, row.stage, row.id, row.promptScore, toString row.actions.length, row.bucket.label,
    row.changes, row.description, row.summary, row.feedback] ++
    fitted slotColumns row.slots ++ fitted actionColumns row.actions

/-- The header and the rows. There are as many columns for slots as the row with the most slots
needs. -/
def auditRows (actionColumns : Nat) (rows : List AuditRow) : List Csv.Row :=
  let slotColumns := (rows.map (·.slots.length)).foldl max 0
  auditHeader slotColumns actionColumns :: rows.map (·.cells slotColumns actionColumns)

def auditSheet (actionColumns : Nat) (rows : List AuditRow) : String :=
  Csv.write (auditRows actionColumns rows)

def fixableLabels : List String := (Bucket.all.filter (·.isFixable)).map (·.label)

/-- The fixes of a row in a fixable bucket, if it has any. -/
def fixRow? (row : SheetRow) : Option FixRow :=
  let cell (column : String) := (row.lookup column).getD ""
  let fixes := SpeechFixes.parseColumn (cell "changes_needed")
  if fixableLabels.contains (cell "quality_score") && !fixes.isEmpty then
    some ⟨cell "zone", cell "vignette_id", cell "quality_score", fixes⟩
  else none

def readFixSheet (path text : String) : Except Fault (List FixRow) := do
  let rows ← readSheet path fixColumns text
  return rows.filterMap fixRow?

end Stagecraft
