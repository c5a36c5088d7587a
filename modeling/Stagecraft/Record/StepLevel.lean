import Stagecraft.Fault

/-!
Step-level lines: those that start a direct member of an array of steps, where the depth counted
from its opening line is exactly one.
-/

namespace Stagecraft

def isStepLevel (lines : List String) (opening line : Nat) : Bool :=
  depthAt .square lines opening line == 1

/-- The numbers of the lines before which the depth is one; the first line is number `index` and
has depth `depth` before it. -/
def levelOneFrom (depth : Int) (index : Nat) : List String → List Nat
  | [] => []
  | line :: rest =>
    let others := levelOneFrom (depth + lineDelta .square line) (index + 1) rest
    if depth = 1 then index :: others else others

/-- The step-level lines strictly between the opening and the closing line of an array. -/
def stepLevelLines (lines : List String) (opening closing : Nat) : Except Fault (List Nat) :=
  match lines[opening]? with
  | none => .error Misuse.outOfRange
  | some line =>
    if closing ≤ lines.length then
      .ok (levelOneFrom (lineDelta .square line) (opening + 1)
        ((lines.take closing).drop (opening + 1)))
    else .error Misuse.outOfRange

end Stagecraft
