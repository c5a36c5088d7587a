import Stagecraft.Text.Scan

/-!
Nesting depth over lines. A line counts as a whole: openings less closings, wherever they stand in
it, so a region ends on the first line after which the count is back to zero.
-/

namespace Stagecraft

/-- A pair of marks that open and close a region. -/
structure Brackets where
  opening : String
  closing : String
  deriving DecidableEq, Repr

def Brackets.square : Brackets := ⟨"[", "]"⟩

def Brackets.curly : Brackets := ⟨"\x7b", "\x7d"⟩

/-- Openings less closings. -/
def lineDelta (marks : Brackets) (line : String) : Int :=
  occurrences marks.opening.toList line.toList - occurrences marks.closing.toList line.toList

def totalDelta (marks : Brackets) : List String → Int
  | [] => 0
  | line :: rest => lineDelta marks line + totalDelta marks rest

/-- Depth gained over the lines from `start` up to `stop`. -/
def depthAt (marks : Brackets) (lines : List String) (start stop : Nat) : Int :=
  totalDelta marks ((lines.take stop).drop start)

/-- The first of the lines after which the depth is zero; the first line is number `index`. -/
def closeFrom (marks : Brackets) (depth : Int) (index : Nat) : List String → Option Nat
  | [] => none
  | line :: rest =>
    if depth + lineDelta marks line = 0 then some index
    else closeFrom marks (depth + lineDelta marks line) (index + 1) rest

/-- The line before `stop` that closes what line `start` opens. -/
def matchingClose (marks : Brackets) (lines : List String) (start stop : Nat) : Option Nat :=
  closeFrom marks 0 start ((lines.take stop).drop start)

theorem closeFrom_bounds {marks : Brackets} {lines : List String} {depth : Int} {index found : Nat}
    (close : closeFrom marks depth index lines = some found) :
    index ≤ found ∧ found < index + lines.length := by
  induction lines generalizing depth index with
  | nil => simp [closeFrom] at close
  | cons line rest ih =>
    rw [closeFrom] at close
    split at close
    · simp only [Option.some.injEq] at close
      subst close
      simp
    · have bounds := ih close
      simp only [List.length_cons]
      omega

theorem matchingClose_bounds {marks : Brackets} {lines : List String} {start stop found : Nat}
    (close : matchingClose marks lines start stop = some found) :
    start ≤ found ∧ found < stop ∧ found < lines.length := by
  have bounds := closeFrom_bounds close
  simp only [List.length_drop, List.length_take] at bounds
  omega

end Stagecraft
