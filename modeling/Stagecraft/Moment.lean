import Stagecraft.Decimal.Notation
import Stagecraft.Text.Scan

/-!
Moments in time as microseconds since the beginning of 1970, and how logs and run directories write
them.
-/

namespace Stagecraft

structure Moment where
  micros : Nat
  deriving DecidableEq, Repr

namespace Moment

/-- Year, month and day of a number of days since the beginning of 1970. Years are counted from
March on, so that a leap day is the last one of its year. -/
def date (days : Nat) : Nat × Nat × Nat :=
  let shifted := days + 719468
  let era := shifted / 146097
  let dayOfEra := shifted % 146097
  let yearOfEra := (dayOfEra - dayOfEra / 1460 + dayOfEra / 36524 - dayOfEra / 146096) / 365
  let dayOfYear := dayOfEra - (365 * yearOfEra + yearOfEra / 4 - yearOfEra / 100)
  let month := (5 * dayOfYear + 2) / 153
  let year := yearOfEra + era * 400
  let day := dayOfYear - (153 * month + 2) / 5 + 1
  if month < 10 then (year, month + 3, day) else (year + 1, month - 9, day)

def padded (width n : Nat) : String := String.ofList (padLeft width (Nat.toDigits 10 n))

/-- The date with a mark between its parts, and the time of day likewise. -/
def parts (moment : Moment) (dateMark timeMark : String) : String × String :=
  let seconds := moment.micros / 1000000
  let (year, month, day) := date (seconds / 86400)
  let time := seconds % 86400
  (join dateMark [padded 4 year, padded 2 month, padded 2 day],
    join timeMark [padded 2 (time / 3600), padded 2 (time / 60 % 60), padded 2 (time % 60)])

def fraction (moment : Moment) : Nat := moment.micros % 1000000

/-- As in `2024-03-01T09:30:00.000250Z`; a fraction of zero is left out. -/
def text (moment : Moment) : String :=
  let (date, time) := moment.parts "-" ":"
  let fraction := if moment.fraction = 0 then "" else "." ++ padded 6 moment.fraction
  date ++ "T" ++ time ++ fraction ++ "Z"

/-- As in `20240301T093000000250`. -/
def stamp (moment : Moment) : String :=
  let (date, time) := moment.parts "" ""
  date ++ "T" ++ time ++ padded 6 moment.fraction

end Moment

end Stagecraft
