import Stagecraft.Text.Scan

/-!
Rows of cells between commas. A cell that holds a comma, a quote or a line feed is written between
quotes, with every quote in it twice. Reading also takes carriage returns at the end of a row, text
behind a closing quote, and a quote that is never closed.
-/

namespace Stagecraft.Csv

abbrev Row := List String

def needsQuotes (cell : List Char) : Bool := cell.any fun c => c == ',' || c == '"' || c == '\n'

def doubled (cell : List Char) : List Char :=
  cell.flatMap fun c => if c = '"' then ['"', '"'] else [c]

def writeCell (cell : List Char) : List Char :=
  if needsQuotes cell then '"' :: doubled cell ++ ['"'] else cell

/-- Cells with commas between them and a line feed at the end. -/
def writeCells : List (List Char) → List Char
  | [] => ['\n']
  | [cell] => writeCell cell ++ ['\n']
  | cell :: rest => writeCell cell ++ ',' :: writeCells rest

/-- A single empty cell is quoted; without quotes it would be a row without cells. -/
def writeRow : Row → List Char
  | [""] => ['"', '"', '\n']
  | row => writeCells (row.map String.toList)

def write (rows : List Row) : String := String.ofList (rows.flatMap writeRow)

def endsCell (c : Char) : Bool := c == ',' || c == '\n' || c == '\r'

/-- The text up to the closing quote, and what follows it. -/
def readQuoted : List Char → List Char × List Char
  | '"' :: '"' :: rest => let (body, after) := readQuoted rest; ('"' :: body, after)
  | '"' :: rest => ([], rest)
  | c :: rest => let (body, after) := readQuoted rest; (c :: body, after)
  | [] => ([], [])

/-- A cell and what follows it. Quotes count at its beginning only. -/
def readCell : List Char → List Char × List Char
  | '"' :: rest =>
    let (body, after) := readQuoted rest
    (body ++ after.takeWhile (!endsCell ·), after.dropWhile (!endsCell ·))
  | text => (text.takeWhile (!endsCell ·), text.dropWhile (!endsCell ·))

theorem readQuoted_length_le (text : List Char) : (readQuoted text).2.length ≤ text.length := by
  induction text using readQuoted.induct with
  | case1 rest ih => simp only [readQuoted, List.length_cons]; omega
  | case2 rest other => simp [readQuoted]
  | case3 c rest _ _ ih => simp only [readQuoted, List.length_cons]; omega
  | case4 => simp [readQuoted]

theorem readCell_length_le (text : List Char) : (readCell text).2.length ≤ text.length := by
  rw [readCell.eq_def]
  split
  · next rest =>
    have body := readQuoted_length_le rest
    have tail := (List.dropWhile_suffix (!endsCell ·) (l := (readQuoted rest).2)).length_le
    simp only [List.length_cons]
    omega
  · exact (List.dropWhile_suffix (!endsCell ·)).length_le

/-- What follows the end of a row. -/
def belowRow : List Char → List Char
  | '\r' :: '\n' :: below | _ :: below => below
  | [] => []

theorem belowRow_length_le (text : List Char) : (belowRow text).length ≤ text.length - 1 := by
  rw [belowRow.eq_def]
  split <;> simp

/-- The cells of a row, and the text below it. -/
def readCells (text : List Char) : List (List Char) × List Char :=
  match found : readCell text with
  | (cell, ',' :: rest) =>
    have : rest.length < text.length := by
      have bound := readCell_length_le text
      rw [found] at bound
      exact bound
    let (cells, below) := readCells rest
    (cell :: cells, below)
  | (cell, rest) => ([cell], belowRow rest)
termination_by text.length

theorem readCells_length (text : List Char) : (readCells text).2.length ≤ text.length - 1 := by
  fun_induction readCells text with
  | case1 text cell rest found smaller cells below row ih =>
    rw [row] at ih
    simp only at ih ⊢
    omega
  | case2 text cell rest _ found =>
    have bound := readCell_length_le text
    rw [found] at bound
    exact Nat.le_trans (belowRow_length_le rest) (Nat.sub_le_sub_right bound 1)

/-- A line without any character is a row without cells. -/
def readRow : List Char → Row × List Char
  | '\r' :: below => ([], belowRow ('\r' :: below))
  | '\n' :: below => ([], below)
  | text => let (cells, below) := readCells text; (cells.map String.ofList, below)

theorem readRow_length (text : List Char) : (readRow text).2.length ≤ text.length - 1 := by
  rw [readRow.eq_def]
  split
  · exact belowRow_length_le _
  · simp
  · exact readCells_length text

def readRows (text : List Char) : List Row :=
  if filled : text = [] then [] else
  match taken : readRow text with
  | (row, below) =>
    have : below.length < text.length := by
      have bound := readRow_length text
      have positive := List.length_pos_iff.mpr filled
      rw [taken] at bound
      simp only at bound
      omega
    row :: readRows below
termination_by text.length

def read (text : String) : List Row := readRows text.toList

end Stagecraft.Csv
