import Stagecraft.Audit.Sheet
import Stagecraft.Proofs.Sheet

/-!
An audit sheet read for its fixes. The cells of a row come back under their columns, and a row is
taken just when its bucket is fixable and its fixes hold a speech.
-/

namespace Stagecraft

variable {slotColumns actionColumns : Nat} {row : AuditRow} {rows : List AuditRow}
  {column path : String}

/-- The names of the numbered columns begin like none of the columns that are read. -/
theorem ne_numbered {label name : String} {count : Nat} (numbers : name ∈ numbered label count)
    (apart : label.toList.head? ≠ column.toList.head?) (filled : label ≠ "") : name ≠ column := by
  obtain ⟨place, -, rfl⟩ := List.mem_map.mp numbers
  rintro rfl
  apply apart
  cases letters : label.toList with
  | nil => exact absurd (String.toList_eq_nil_iff.mp letters) filled
  | cons c rest => simp [letters]

/-- The fixed columns of a row. -/
def AuditRow.fixed (row : AuditRow) : Entries String :=
  auditColumns.zip [row.zone, row.stage, row.id, row.promptScore, toString row.actions.length,
    row.bucket.label, row.changes, row.description, row.summary, row.feedback]

theorem length_fitted (width : Nat) (cells : List String) : (fitted width cells).length = width := by
  simp only [fitted, List.length_append, List.length_take, List.length_replicate]
  omega

theorem length_numbered (label : String) (count : Nat) : (numbered label count).length = count := by
  simp [numbered]

/-- The cells fill the columns of the header. -/
theorem underHeader_cells :
    underHeader (auditHeader slotColumns actionColumns) (row.cells slotColumns actionColumns) =
      Entries.ofPairs (row.fixed ++
        (numbered "Slot" slotColumns ++ numbered "Action" actionColumns).zip
          (fitted slotColumns row.slots ++ fitted actionColumns row.actions)) := by
  have same : (auditHeader slotColumns actionColumns).length =
      (row.cells slotColumns actionColumns).length := by
    simp [auditHeader, AuditRow.cells, auditColumns, length_fitted, length_numbered]
  rw [underHeader, same, Nat.sub_self, List.replicate_zero, List.append_nil]
  simp only [auditHeader, AuditRow.cells, List.append_assoc]
  rw [List.zip_append (by rfl)]
  rfl

theorem lookup_underHeader (read : column ∈ fixColumns) :
    (underHeader (auditHeader slotColumns actionColumns)
      (row.cells slotColumns actionColumns)).lookup column =
        (Entries.ofPairs row.fixed).lookup column := by
  rw [underHeader_cells]
  apply Entries.lookup_ofPairs_append
  intro pair member
  have first : column.toList.head? ≠ some 'S' ∧ column.toList.head? ≠ some 'A' := by
    simp only [fixColumns, List.mem_cons, List.not_mem_nil, or_false] at read
    rcases read with rfl | rfl | rfl | rfl <;> decide
  rcases List.mem_append.mp (List.of_mem_zip member).1 with slots | actions
  · exact ne_numbered slots first.1.symm (by decide)
  · exact ne_numbered actions first.2.symm (by decide)

/-- What is read from the row of a record. -/
def AuditRow.fixRow? (row : AuditRow) : Option FixRow :=
  let fixes := SpeechFixes.parseColumn row.changes
  if row.bucket.isFixable && !fixes.isEmpty then
    some ⟨row.zone, row.id, row.bucket.label, fixes⟩
  else none

theorem contains_label (bucket : Bucket) :
    fixableLabels.contains bucket.label = bucket.isFixable := by
  cases bucket <;> decide

theorem fixRow?_cells :
    fixRow? (underHeader (auditHeader slotColumns actionColumns)
      (row.cells slotColumns actionColumns)) = row.fixRow? := by
  have cell (column value : String) (read : column ∈ fixColumns)
      (found : (Entries.ofPairs row.fixed).lookup column = some value) :
      (underHeader (auditHeader slotColumns actionColumns)
        (row.cells slotColumns actionColumns)).lookup column = some value := by
    rw [lookup_underHeader read, found]
  have zone := cell "zone" row.zone (by decide) rfl
  have id := cell "vignette_id" row.id (by decide) rfl
  have score := cell "quality_score" row.bucket.label (by decide) rfl
  have changes := cell "changes_needed" row.changes (by decide) rfl
  rw [fixRow?, AuditRow.fixRow?]
  simp only [zone, id, score, changes, Option.getD_some, contains_label]

theorem isFilled_cells :
    isFilled (underHeader (auditHeader slotColumns actionColumns)
      (row.cells slotColumns actionColumns)) = true := by
  have found : (Entries.ofPairs row.fixed).lookup "quality_score" = some row.bucket.label := rfl
  have blank : isBlankText row.bucket.label = false := by
    cases row.bucket <;> decide
  have score : (underHeader (auditHeader slotColumns actionColumns)
      (row.cells slotColumns actionColumns)).lookup "quality_score" = some row.bucket.label := by
    rw [lookup_underHeader (by decide), found]
  exact List.any_eq_true.mpr ⟨_, Entries.mem_of_lookup score, by simp [blank]⟩

theorem fixColumns_in_header :
    fixColumns.filter (!(auditHeader slotColumns actionColumns).contains ·) = [] := by
  rw [List.filter_eq_nil_iff]
  intro column read
  have present : column ∈ auditColumns := by
    revert column
    decide
  simp [auditHeader, present]

theorem filterMap_underHeader :
    (((rows.map (·.cells slotColumns actionColumns)).map
      (underHeader (auditHeader slotColumns actionColumns))).filter isFilled).filterMap fixRow? =
        rows.filterMap AuditRow.fixRow? := by
  induction rows with
  | nil => rfl
  | cons row rows ih =>
    rw [List.map_cons, List.map_cons, List.filter_cons, if_pos isFilled_cells,
      List.filterMap_cons, List.filterMap_cons, fixRow?_cells, ih]

/-- A sheet gives the rows of its records with fixes, in order. -/
theorem readFixSheet_auditSheet (sound : Sound (auditRows actionColumns rows)) :
    readFixSheet path (auditSheet actionColumns rows) = .ok (rows.filterMap AuditRow.fixRow?) := by
  have filled : ∀ row ∈ auditRows actionColumns rows, row ≠ [] := by
    intro row member
    rcases List.mem_cons.mp member with rfl | member
    · simp [auditHeader, auditColumns]
    · obtain ⟨row, -, rfl⟩ := List.mem_map.mp member
      simp [AuditRow.cells]
  have read : Csv.read (auditSheet actionColumns rows) = auditRows actionColumns rows :=
    sound.read_write filled
  have sheet : readSheet path fixColumns (auditSheet actionColumns rows) = .ok _ :=
    readSheet_of_read read sound.withinLimit fixColumns_in_header
  rw [readFixSheet, sheet]
  exact congrArg Except.ok filterMap_underHeader

end Stagecraft
