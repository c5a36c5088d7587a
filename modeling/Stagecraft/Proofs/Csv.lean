import Mathlib.Data.List.TakeWhile
import Stagecraft.Csv

/-!
Rows are read back as they were written. A carriage return ends a row when it is read, and alone it
does not make a cell quoted, so a cell may hold one only beside a comma, a quote or a line feed.
-/

namespace Stagecraft.Csv

variable {cell rest : List Char} {row : Row}

/-- Comes back from a row: quoted, or without a carriage return. -/
def Readable (cell : List Char) : Prop := needsQuotes cell = true ∨ '\r' ∉ cell

instance (cell : List Char) : Decidable (Readable cell) := inferInstanceAs (Decidable (_ ∨ _))

/-- A comma, or the end of a row. -/
def Ends (rest : List Char) : Prop := ∃ c below, rest = c :: below ∧ endsCell c = true

theorem Ends.head_ne_quote (ends : Ends rest) : rest.head? ≠ some '"' := by
  obtain ⟨c, below, rfl, stops⟩ := ends
  rintro ⟨rfl⟩
  cases stops

theorem Ends.takeWhile (ends : Ends rest) : rest.takeWhile (!endsCell ·) = [] := by
  obtain ⟨c, below, rfl, stops⟩ := ends
  rw [List.takeWhile_cons_of_neg (by simp [stops])]

theorem Ends.dropWhile (ends : Ends rest) : rest.dropWhile (!endsCell ·) = rest := by
  obtain ⟨c, below, rfl, stops⟩ := ends
  rw [List.dropWhile_cons_of_neg (by simp [stops])]

theorem readQuoted_doubled (behind : rest.head? ≠ some '"') :
    readQuoted (doubled cell ++ '"' :: rest) = (cell, rest) := by
  induction cell with
  | nil =>
    change readQuoted ('"' :: rest) = ([], rest)
    cases rest with
    | nil => rfl
    | cons c below =>
      have other : c ≠ '"' := fun same => behind (congrArg some same)
      simp [readQuoted, other]
  | cons c cell ih =>
    rw [doubled, List.flatMap_cons, ← doubled]
    by_cases mark : c = '"'
    · simp [readQuoted, mark, ih]
    · simp [readQuoted, mark, ih]

/-- No character of a cell without quotes ends it. -/
theorem inside_of_plain (readable : Readable cell) (plain : needsQuotes cell = false) :
    ∀ c ∈ cell, (!endsCell c) = true ∧ c ≠ '"' := by
  have returns : '\r' ∉ cell := by
    rcases readable with quoted | returns
    · rw [quoted] at plain
      cases plain
    · exact returns
  intro c member
  have marks := List.any_eq_false.mp plain c member
  have other : c ≠ '\r' := by
    rintro rfl
    exact returns member
  simp_all [endsCell]

theorem readCell_plain (inside : ∀ c ∈ cell, (!endsCell c) = true ∧ c ≠ '"') (ends : Ends rest) :
    readCell (cell ++ rest) = (cell, rest) := by
  have unquoted : (cell ++ rest).head? ≠ some '"' := by
    cases cell with
    | nil => exact ends.head_ne_quote
    | cons c cell =>
      have other := (inside c List.mem_cons_self).2
      simpa using other
  have stays : ∀ c ∈ cell, (!endsCell c) = true := fun c member => (inside c member).1
  have parts : readCell (cell ++ rest) =
      ((cell ++ rest).takeWhile (!endsCell ·), (cell ++ rest).dropWhile (!endsCell ·)) := by
    rw [readCell.eq_def]
    split
    · next quoted => simp [quoted] at unquoted
    · rfl
  rw [parts, List.takeWhile_append_of_pos stays, List.dropWhile_append_of_pos stays,
    ends.takeWhile, ends.dropWhile, List.append_nil]

theorem readCell_writeCell (readable : Readable cell) (ends : Ends rest) :
    readCell (writeCell cell ++ rest) = (cell, rest) := by
  rw [writeCell]
  cases quotes : needsQuotes cell with
  | true =>
    have body : readQuoted (doubled cell ++ '"' :: rest) = (cell, rest) :=
      readQuoted_doubled ends.head_ne_quote
    simp [readCell, body, ends.takeWhile, ends.dropWhile]
  | false => exact readCell_plain (inside_of_plain readable quotes) ends

theorem readCells_of_comma {text : List Char} (found : readCell text = (cell, ',' :: rest)) :
    readCells text = (cell :: (readCells rest).1, (readCells rest).2) := by
  rw [readCells.eq_def]
  split
  · next same =>
    rw [found] at same
    cases same
    rfl
  · next other same =>
    rw [found] at same
    cases same
    exact absurd rfl (other rest)

theorem readCells_of_feed {text : List Char} (found : readCell text = (cell, '\n' :: rest)) :
    readCells text = ([cell], rest) := by
  rw [readCells.eq_def]
  split
  · next same =>
    rw [found] at same
    cases same
  · next same =>
    rw [found] at same
    cases same
    rfl

theorem readCells_writeCells {cells : List (List Char)} (filled : cells ≠ [])
    (readable : ∀ cell ∈ cells, Readable cell) :
    readCells (writeCells cells ++ rest) = (cells, rest) := by
  induction cells with
  | nil => exact absurd rfl filled
  | cons cell others ih =>
    have first := readable cell List.mem_cons_self
    cases others with
    | nil =>
      have found : readCell (writeCell cell ++ '\n' :: rest) = (cell, '\n' :: rest) :=
        readCell_writeCell first ⟨'\n', rest, rfl, rfl⟩
      simpa [writeCells] using readCells_of_feed found
    | cons next others =>
      have later := ih (List.cons_ne_nil _ _) fun cell member =>
        readable cell (List.mem_cons_of_mem _ member)
      have found : readCell (writeCell cell ++ ',' :: (writeCells (next :: others) ++ rest)) =
          (cell, ',' :: (writeCells (next :: others) ++ rest)) :=
        readCell_writeCell first ⟨',', _, rfl, rfl⟩
      simpa [writeCells, later] using readCells_of_comma found

/-- Begins neither with a line feed nor with a carriage return. -/
def Opens (text : List Char) : Prop := text.head? ≠ some '\n' ∧ text.head? ≠ some '\r'

theorem readRow_of_opens {text : List Char} (opens : Opens text) :
    readRow text = ((readCells text).1.map String.ofList, (readCells text).2) := by
  rw [readRow.eq_def]
  split
  · exact absurd rfl opens.2
  · exact absurd rfl opens.1
  · rfl

theorem opens_writeCell (readable : Readable cell) (filled : cell ≠ []) :
    Opens (writeCell cell ++ rest) := by
  rw [writeCell]
  cases quotes : needsQuotes cell with
  | true => simp [Opens]
  | false =>
    cases cell with
    | nil => exact absurd rfl filled
    | cons c cell =>
      have inside := (inside_of_plain readable quotes c List.mem_cons_self).1
      simp_all [Opens, endsCell]

theorem opens_writeCells {others : List (List Char)} (readable : Readable cell)
    (several : cell :: others ≠ [[]]) : Opens (writeCells (cell :: others) ++ rest) := by
  cases others with
  | nil =>
    have filled : cell ≠ [] := by
      rintro rfl
      exact several rfl
    rw [writeCells, List.append_assoc]
    exact opens_writeCell readable filled
  | cons next others =>
    have written : writeCells (cell :: next :: others) =
        writeCell cell ++ ',' :: writeCells (next :: others) := rfl
    rw [written, List.append_assoc]
    cases cell with
    | nil => simp [Opens, writeCell, needsQuotes]
    | cons c cell => exact opens_writeCell readable (List.cons_ne_nil _ _)

theorem readRow_writeRow (filled : row ≠ []) (readable : ∀ cell ∈ row, Readable cell.toList) :
    readRow (writeRow row ++ rest) = (row, rest) := by
  rw [writeRow.eq_def]
  split
  · -- The quotes of a single empty cell are more than `writeCell` would write.
    have found : readCell ('"' :: '"' :: '\n' :: rest) = ([], '\n' :: rest) := rfl
    rw [List.cons_append, List.cons_append, List.cons_append, List.nil_append,
      readRow_of_opens (by simp [Opens]), readCells_of_feed found]
    rfl
  · next several =>
    have cells : ∀ cell ∈ row.map String.toList, Readable cell := by
      intro cell member
      obtain ⟨text, present, rfl⟩ := List.mem_map.mp member
      exact readable text present
    have whole : readCells (writeCells (row.map String.toList) ++ rest) =
        (row.map String.toList, rest) :=
      readCells_writeCells (by simpa using filled) cells
    have opens : Opens (writeCells (row.map String.toList) ++ rest) := by
      cases row with
      | nil => exact absurd rfl filled
      | cons text others =>
        apply opens_writeCells (cells text.toList (by simp))
        intro single
        apply several
        simpa [String.toList_eq_nil_iff] using single
    rw [readRow_of_opens opens, whole]
    simp

theorem writeRow_ne_nil : writeRow row ≠ [] := by
  rw [writeRow.eq_def]
  split
  · simp
  · generalize row.map String.toList = cells
    rw [writeCells.eq_def]
    split <;> simp

theorem readRows_writeRow (filled : row ≠ []) (readable : ∀ cell ∈ row, Readable cell.toList) :
    readRows (writeRow row ++ rest) = row :: readRows rest := by
  rw [readRows.eq_def, dif_neg (by simp [writeRow_ne_nil])]
  have taken : readRow (writeRow row ++ rest) = (row, rest) := readRow_writeRow filled readable
  split
  next found =>
  rw [taken] at found
  cases found
  rfl

/-- What is read is what was written. -/
theorem read_write {rows : List Row} (filled : ∀ row ∈ rows, row ≠ [])
    (readable : ∀ row ∈ rows, ∀ cell ∈ row, Readable cell.toList) :
    read (write rows) = rows := by
  rw [read, write, String.toList_ofList]
  induction rows with
  | nil => rw [List.flatMap_nil, readRows.eq_def, dif_pos rfl]
  | cons row rows ih =>
    have first : readRows (writeRow row ++ rows.flatMap writeRow) =
        row :: readRows (rows.flatMap writeRow) :=
      readRows_writeRow (filled row List.mem_cons_self) (readable row List.mem_cons_self)
    have later := ih (fun row member => filled row (List.mem_cons_of_mem _ member))
      (fun row member => readable row (List.mem_cons_of_mem _ member))
    rw [List.flatMap_cons, first, later]

end Stagecraft.Csv
