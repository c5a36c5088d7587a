import Stagecraft.Record.Location
import Stagecraft.Record.StepLevel

/-!
Searching by line numbers that may be negative: the last line is also number -1, the one before it
-2, and a search that starts below zero goes on with the first line. Since -1 stands for no line as
well, a search that ends there has found nothing. From zero on these searches agree with those over
plain line numbers.
-/

namespace Stagecraft

/-- The lines from number `first` up to number `stop`. -/
def linesAround (lines : List String) (first stop : Int) : Except Fault (List String) :=
  let size : Int := lines.length
  if stop ≤ first then .ok []
  else if first < -size ∨ size < stop then .error Misuse.outOfRange
  else .ok (((lines ++ lines).take (size + stop).toNat).drop (size + first).toNat)

/-- The number of the line that is `place` lines behind line `first`. -/
def numberAround (first : Int) (place : Nat) : Option Int :=
  if first + place = -1 then none else some (first + place)

/-- The line from `first` to `last` that closes what line `first` opens. -/
def closeAround (marks : Brackets) (lines : List String) (first last : Int) :
    Except Fault (Option Int) := do
  let searched ← linesAround lines first (min (last + 1) lines.length)
  return (closeFrom marks 0 0 searched).bind (numberAround first)

def requireCloseAround (marks : Brackets) (lines : List String) (first last : Int) :
    Except Fault Int := do
  match ← closeAround marks lines first last with
  | some close => return close
  | none => throw (.nesting (.unbalanced marks first (last + 1)))

/-- The opening and the closing line of the steps from line `first` to line `last`. -/
def stepsAround (lines : List String) (first last : Int) : Except Fault (Option (Int × Int)) := do
  let stop := min (min (last + 1) (first + stepsSearchReach + 1)) lines.length
  let head ← linesAround lines first stop
  match (firstLine opensSteps 0 head).bind (numberAround first) with
  | none => return none
  | some opening =>
    let close ← requireCloseAround .square lines opening (min last (opening + stepsReach))
    return some (opening, close)

/-- The step-level lines strictly between two lines. -/
def levelsAround (lines : List String) (opening closing : Int) : Except Fault (List Int) := do
  let first ← linesAround lines opening (opening + 1)
  let inner ← linesAround lines (opening + 1) closing
  let places := levelOneFrom (totalDelta .square first) 0 inner
  return places.map fun (place : Nat) => opening + 1 + place

/-- Nothing lies above a line below zero, or within a window below zero. -/
def openingAround (lines : List String) (window line : Int) : Except Fault (Option Nat) :=
  if line < 0 ∨ window < 0 then .ok none else findOpening lines window.toNat line.toNat

def stageAround (lines : List String) (line : Int) : Except Fault String :=
  if line < 0 then .ok "" else stageFor lines line.toNat

theorem linesAround_natCast (lines : List String) {start stop : Nat}
    (inside : stop ≤ lines.length) :
    linesAround lines start stop = .ok ((lines.take stop).drop start) := by
  simp only [linesAround]
  split
  · next low =>
    have low : stop ≤ start := by omega
    rw [List.drop_eq_nil_of_le (Nat.le_trans (List.length_take_le stop lines) low)]
  · split
    · next outside => omega
    · have last : ((lines.length : Int) + stop).toNat = lines.length + stop := by omega
      have first : ((lines.length : Int) + start).toNat = lines.length + start := by omega
      rw [last, first, List.take_length_add_append, List.drop_length_add_append]

theorem closeFrom_add (marks : Brackets) (depth : Int) (shift index : Nat) (lines : List String) :
    closeFrom marks depth (shift + index) lines =
      (closeFrom marks depth index lines).map (shift + ·) := by
  induction lines generalizing depth index with
  | nil => rfl
  | cons line rest ih =>
    simp only [closeFrom]
    split
    · rfl
    · exact ih (depth + lineDelta marks line) (index + 1)

theorem closeAround_natCast (marks : Brackets) (lines : List String) (start stop : Nat) :
    closeAround marks lines start (stop - 1 : Int) =
      .ok ((matchingClose marks lines start stop).map Int.ofNat) := by
  have bound : min ((stop : Int) - 1 + 1) lines.length = (min stop lines.length : Nat) := by omega
  have shifted := closeFrom_add marks 0 start 0 ((lines.take stop).drop start)
  have cut : lines.take (min stop lines.length) = lines.take stop := by
    rw [← List.take_take, List.take_length]
  simp only [closeAround, bound, linesAround_natCast lines (Nat.min_le_right _ _), cut,
    matchingClose, bind, Except.bind, pure, Except.pure, Except.ok.injEq]
  rw [Nat.add_zero] at shifted
  rw [shifted]
  cases closeFrom marks 0 0 ((lines.take stop).drop start) with
  | none => rfl
  | some place =>
    have whole : ¬ (start : Int) + place = -1 := by omega
    simp [numberAround, whole]

end Stagecraft
