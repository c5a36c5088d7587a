/-!
Limits of what can be read. They keep a text from taking more time or room than it deserves; what
lies within them is read exactly.
-/

namespace Stagecraft

/-- A limit that a text goes beyond. -/
inductive Limit where
  /-- A whole number with too many digits. -/
  | digits
  /-- Values within values, too deep. -/
  | nesting
  deriving DecidableEq, Repr

def Limit.message : Limit → String
  | digits => "a whole number has too many digits"
  | nesting => "values are nested too deep"

/-- The most digits a whole number may have; zeros in front count. -/
def digitLimit : Nat := 4300

/-- The room for values within values. What stands in a list has three units less of it than the
list itself, and what stands in an object or a call two units less. -/
def nestingRoom : Nat := 994

/-- The room that every value needs. -/
def leastRoom : Nat := 3

/-- The room inside a value that takes `cost` units, if enough is left. -/
def roomInside? (cost room : Nat) : Option Nat :=
  if room < cost + leastRoom then none else some (room - cost)

/-- Whether a whole number is written with no more digits than that. -/
def hasFewDigits (n : Int) : Bool := n.natAbs < Nat.pow 10 digitLimit

end Stagecraft
