import Stagecraft.Directive.Beat
import Stagecraft.Directive.Entrance
import Stagecraft.Directive.Movement
import Stagecraft.Directive.Prop
import Stagecraft.Directive.Speech
import Stagecraft.Text.Scan

/-!
The directives by name, and the lines that call one.
-/

namespace Stagecraft

open Directive in
def directives : List Directive := entrances ++ movements ++ props ++ speeches ++ beats

def findDirective? (name : String) : Option Directive :=
  directives.find? fun directive => directive.name == name

/-- The steps a call stands for; `none` when no directive has the name. -/
def expand (name : String) (args : List Value) : Except Misuse (Option (List Step)) :=
  match findDirective? name with
  | none => .ok none
  | some directive => (directive.call args).map some

/-- The name of the directive whose call a line spreads. -/
def spreadDirective? (line : String) : Option String := do
  match ← afterWord? "..." (skipBlanks line.toList) with
  | c :: rest =>
    if startsName c then
      let _ ← after? ['('] (skipBlanks (rest.dropWhile continuesName))
      return String.ofList (c :: rest.takeWhile continuesName)
    else none
  | [] => none

end Stagecraft
