import Stagecraft.Fault
import Stagecraft.Step

/-!
Directives: named templates that a record calls to insert steps. A template takes its arguments in
order, may have defaults for the last ones, and refuses a call with too few or too many.
-/

namespace Stagecraft

/-- Takes arguments from the front of a call. -/
abbrev Arguments := StateT (List Value) (Except Misuse)

namespace Arguments

def required : Arguments Value
  | value :: rest => .ok (value, rest)
  | [] => .error .wrongKind

def optional (default : Value) : Arguments Value
  | value :: rest => .ok (value, rest)
  | [] => .ok (default, [])

def done : Arguments Unit
  | [] => .ok ((), [])
  | _ :: _ => .error .wrongKind

def one (first : Arguments Value) : Arguments Value := do
  let a ← first
  done
  return a

def two (first second : Arguments Value) : Arguments (Value × Value) := do
  let a ← first
  let b ← second
  done
  return (a, b)

def three (first second third : Arguments Value) : Arguments (Value × Value × Value) := do
  let a ← first
  let b ← second
  let c ← third
  done
  return (a, b, c)

end Arguments

structure Directive where
  name : String
  template : Arguments (List Step)

def Directive.call (directive : Directive) (args : List Value) : Except Misuse (List Step) := do
  let (steps, _) ← directive.template.run args
  return steps.map fun step => { step with directive := some directive.name }

/-- What iterating over a value gives: the items of a list, the characters of a text, the keys of
an object. -/
def Value.members : Value → Except Misuse (List Value)
  | .list items => .ok items
  | .str text => .ok ((letters text).map .str)
  | .object entries => .ok (entries.map fun entry => .str entry.1)
  | _ => .error .wrongKind

def idleAnim : String := "Idle_A"

def cheerAnim : String := "Cheering"

def gestureAnim : String := "Waving"

def idle (who : Value) : Action := Action.animate who idleAnim

end Stagecraft
