import Stagecraft.Csv
import Stagecraft.Entries
import Stagecraft.Fault

/-!
Sheets: rows under a header, with each cell found by the name of its column. A sheet without a
required column is refused, so that no row is read against the wrong columns.
-/

namespace Stagecraft

/-- A row of a sheet by column. -/
abbrev SheetRow := Entries String

/-- The most characters a cell may have to be read. -/
def cellLimit : Nat := 131072

def withinLimit (row : Csv.Row) : Bool := row.all (codeCount ·.toList ≤ cellLimit)

/-- A missing cell is empty, and a cell beyond the header is dropped. Of two columns with one name
the last counts. -/
def underHeader (header cells : Csv.Row) : SheetRow :=
  Entries.ofPairs (header.zip (cells ++ List.replicate (header.length - cells.length) ""))

/-- At least one cell holds more than blanks. -/
def isFilled (row : SheetRow) : Bool := row.any fun (_, cell) => !isBlankText cell

/-- The filled rows of a sheet; `path` is where it lies. -/
def readSheet (path : String) (required : List String) (text : String) :
    Except Fault (List SheetRow) :=
  let rows := Csv.read text
  let header := rows.headD []
  let missing := required.filter (!header.contains ·)
  if !withinLimit header then .error .cellTooLong
  else if !missing.isEmpty then .error (.columns ⟨path, missing⟩)
  else if !rows.all withinLimit then .error .cellTooLong
  else .ok ((rows.tail.map (underHeader header)).filter isFilled)

end Stagecraft
