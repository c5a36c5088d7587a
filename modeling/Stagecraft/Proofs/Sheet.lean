import Stagecraft.Edit.Source
import Stagecraft.Proofs.Csv
import Stagecraft.Proofs.Disk
import Stagecraft.Proofs.Entries

/-!
Sheets come back as they were written. What could be lost on the way is a cell that a carriage
return ends or that is too long, a row of blanks, and a column whose name is there twice.
-/

namespace Stagecraft

/-- Each cell of the sheet can be read: it is not too long, and it ends no row. -/
def Sound (sheet : List Csv.Row) : Prop :=
  ∀ row ∈ sheet, ∀ cell ∈ row, Csv.Readable cell.toList ∧ codeCount cell.toList ≤ cellLimit

instance (sheet : List Csv.Row) : Decidable (Sound sheet) :=
  inferInstanceAs (Decidable (∀ row ∈ sheet, ∀ cell ∈ row, _ ∧ _))

variable {sheet rows : List Csv.Row} {header row : Csv.Row} {path text : String}
  {required : List String} {world later : World} {u : Unit}

theorem Sound.withinLimit (sound : Sound sheet) : sheet.all withinLimit = true := by
  rw [List.all_eq_true]
  intro row member
  rw [Stagecraft.withinLimit, List.all_eq_true]
  intro cell inside
  simpa using (sound row member cell inside).2

theorem Sound.read_write (sound : Sound sheet) (filled : ∀ row ∈ sheet, row ≠ []) :
    Csv.read (Csv.write sheet) = sheet :=
  Csv.read_write filled fun row member cell inside => (sound row member cell inside).1

theorem readSheet_of_read (read : Csv.read text = header :: rows)
    (limits : (header :: rows).all withinLimit = true)
    (columns : required.filter (!header.contains ·) = []) :
    readSheet path required text = .ok ((rows.map (underHeader header)).filter isFilled) := by
  have first : withinLimit header = true := by
    rw [List.all_cons, Bool.and_eq_true] at limits
    exact limits.1
  simp only [readSheet, read, List.headD_cons, first, columns, limits, Bool.not_true,
    Bool.false_eq_true, if_false, List.isEmpty_nil, List.tail_cons]

/-- Each cell of a row that fills the header is under its own name. -/
theorem underHeader_of_nodup (distinct : header.Nodup) (wide : row.length = header.length) :
    underHeader header row = header.zip row := by
  have keys : ((header.zip row).map (·.1)).Nodup := by
    rw [List.map_fst_zip (Nat.le_of_eq wide.symm)]
    exact distinct
  rw [underHeader, wide, Nat.sub_self, List.replicate_zero, List.append_nil,
    Entries.ofPairs_of_nodup keys]

theorem isFilled_zip (wide : row.length = header.length) :
    isFilled (header.zip row) = row.any (!isBlankText ·) := by
  calc
    isFilled (header.zip row) = ((header.zip row).map (·.2)).any (!isBlankText ·) := by
      rw [List.any_map]
      rfl
    _ = row.any (!isBlankText ·) := by rw [List.map_snd_zip (Nat.le_of_eq wide)]

theorem filter_underHeader (distinct : header.Nodup)
    (wide : ∀ row ∈ rows, row.length = header.length)
    (filled : ∀ row ∈ rows, ∃ cell ∈ row, isBlankText cell = false) :
    (rows.map (underHeader header)).filter isFilled = rows.map header.zip := by
  have mapped : rows.map (underHeader header) = rows.map header.zip :=
    List.map_congr_left fun row member => underHeader_of_nodup distinct (wide row member)
  rw [mapped, List.filter_eq_self]
  intro entries member
  obtain ⟨row, inside, rfl⟩ := List.mem_map.mp member
  obtain ⟨cell, here, solid⟩ := filled row inside
  rw [isFilled_zip (wide row inside), List.any_eq_true]
  exact ⟨cell, here, by simp [solid]⟩

theorem join_empty (parts : List String) :
    join "" parts = String.ofList (parts.flatMap String.toList) := by
  induction parts with
  | nil => rfl
  | cons part others ih =>
    cases others with
    | nil => simp [join]
    | cons next others =>
      rw [join] at ih ⊢
      rw [String.intercalate_cons_of_ne_nil (List.cons_ne_nil _ _), ih, String.append_empty]
      simp

/-- What a command writes as a sheet is there afterwards. -/
theorem read_of_writeSheet_on (ran : (writeSheet path sheet).on world = (.ok u, later)) :
    later.disk.read path = .ok (Csv.write sheet) := by
  have text : join "" (sheet.map fun row => String.ofList (Csv.writeRow row)) =
      Csv.write sheet := by
    rw [join_empty, List.flatMap_map]
    simp [Csv.write]
  rw [← text]
  simp only [writeSheet] at ran
  split at ran
  · obtain ⟨_, middle, -, wrote⟩ := Shell.bind_on.mp ran
    exact Shell.read_of_writeParts_on wrote
  · exact Shell.read_of_writeParts_on ran

/-- Rows written under a header come back in order, each cell by the name of its column, whatever
commas, quotes and line feeds they hold. -/
theorem readSheet_written (named : header ≠ []) (distinct : header.Nodup)
    (wide : ∀ row ∈ rows, row.length = header.length)
    (filled : ∀ row ∈ rows, ∃ cell ∈ row, isBlankText cell = false)
    (unreturned : ∀ row ∈ header :: rows, ∀ cell ∈ row, '\r' ∉ cell.toList)
    (short : ∀ row ∈ header :: rows, ∀ cell ∈ row, codeCount cell.toList ≤ cellLimit)
    (present : required ⊆ header)
    (wrote : (writeSheet path (header :: rows)).on world = (.ok u, later)) :
    ∃ text, later.disk.read path = .ok text ∧
      readSheet path required text = .ok (rows.map header.zip) := by
  have sound : Sound (header :: rows) := fun row member cell inside =>
    ⟨.inr (unreturned row member cell inside), short row member cell inside⟩
  have celled : ∀ row ∈ header :: rows, row ≠ [] := by
    intro row member
    rcases List.mem_cons.mp member with rfl | inside
    · exact named
    · rw [← List.length_pos_iff, wide row inside]
      exact List.length_pos_iff.mpr named
  have columns : required.filter (!header.contains ·) = [] := by
    rw [List.filter_eq_nil_iff]
    intro column asked
    simp [present asked]
  refine ⟨_, read_of_writeSheet_on wrote, ?_⟩
  rw [readSheet_of_read (sound.read_write celled) sound.withinLimit columns,
    filter_underHeader distinct wide filled]

/-- A world without files. -/
def bareWorld : World := ⟨Disk.empty, [], ⟨0⟩⟩

/-- Whether a sheet can be written where there are no files. -/
def isWritable (sheet : List Csv.Row) : Bool := ((writeSheet "sheet.csv" sheet).on bareWorld).1.isOk

/-- Nothing is in the way of a sheet but a row that no file can take, and a row need not be put
together for that. -/
theorem isWritable_eq : isWritable sheet =
    sheet.all fun row => !(codes (Csv.writeRow row)).any isSurrogate := by
  have place : Disk.empty.placeForFile "sheet.csv" = .ok ["sheet.csv"] := by decide +kernel
  have wrote (text : String) :
      (Shell.ofAnswer (Plan.request (.write "sheet.csv" text))).on bareWorld =
        (.ok (), { bareWorld with disk := Disk.empty.put ["sheet.csv"] (.file text) }) := by
    change (((bareWorld.update (·.write "sheet.csv" text)).1.mapError Fault.path),
      (bareWorld.update (·.write "sheet.csv" text)).2) = _
    rw [World.update]
    simp only [bareWorld, Disk.write, place]
    rfl
  have whole : (sheet.map fun row => String.ofList (Csv.writeRow row)).all isWhole =
      sheet.all fun row => !(codes (Csv.writeRow row)).any isSurrogate := by
    rw [List.all_map]
    simp only [Function.comp_def, isWhole, String.toList_ofList]
  have direct : Path.parent "sheet.csv" = "" := by decide +kernel
  rw [isWritable, writeSheet, direct, ← whole, ← Shell.writable_snd]
  change ((Shell.writeParts _ _).on _).1.isOk = _
  rw [Shell.writeParts]
  cases Shell.writable (sheet.map fun row => String.ofList (Csv.writeRow row)) with
  | mk text complete =>
    rw [Shell.bind_on_of_ok (wrote text)]
    cases complete <;> rfl

theorem writeSheet_of_isWritable (writable : isWritable sheet = true) :
    ∃ u later, (writeSheet "sheet.csv" sheet).on bareWorld = (.ok u, later) := by
  rw [isWritable] at writable
  cases ran : (writeSheet "sheet.csv" sheet).on bareWorld with
  | mk answer later =>
    rw [ran] at writable
    cases answer with
    | error fault => cases writable
    | ok u => exact ⟨u, later, rfl⟩

/-- Cells with what else ends a cell or a row, and a name without a character. -/
def tangledSheet : List Csv.Row :=
  [["id", "", "a,\"b\""], ["", "", "\"\n"], [",", " ", "x\n\n,y\"\""], ["\"\"", "", "\x0b"]]

theorem readSheet_written_tangled : ∃ u later text,
    (writeSheet "sheet.csv" tangledSheet).on bareWorld = (.ok u, later) ∧
      later.disk.read "sheet.csv" = .ok text ∧
      readSheet "sheet.csv" ["a,\"b\"", "id"] text =
        .ok (tangledSheet.tail.map (tangledSheet.headD []).zip) := by
  have writable : isWritable tangledSheet = true := by
    rw [isWritable_eq]
    decide +kernel
  obtain ⟨u, later, wrote⟩ := writeSheet_of_isWritable writable
  have present : ["a,\"b\"", "id"] ⊆ tangledSheet.headD [] := by decide
  obtain ⟨text, there, read⟩ := readSheet_written (by decide) (by decide) (by decide)
    (by decide +kernel) (by decide +kernel) (by decide +kernel) present wrote
  exact ⟨u, later, text, wrote, there, read⟩

end Stagecraft
