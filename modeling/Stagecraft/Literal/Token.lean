import Stagecraft.Limit
import Stagecraft.Value.Text

/-!
Tokens of the literal notation, and what can be wrong with a text written in it.
-/

namespace Stagecraft

inductive Lexeme where
  | int (n : Int)
  | float (x : Float)
  | str (text : String)
  | name (id : String)
  | punct (mark : Char)
  | ellipsis

structure Token where
  lexeme : Lexeme
  offset : Nat

def Lexeme.isPunct (mark : Char) : Lexeme → Bool
  | .punct other => other == mark
  | _ => false

/-- A lexeme as messages show it. -/
def Lexeme.display : Lexeme → String
  | int n => (Value.int n).inner
  | float x => (Value.float x).inner
  | str text => Stagecraft.display text
  | name id => Stagecraft.display id
  | punct mark => Stagecraft.display mark.toString
  | ellipsis => Stagecraft.display "..."

/-- What was found in a wrong place; `none` is the end of the text. -/
def displayFound (found : Option Lexeme) : String :=
  match found with
  | some lexeme => lexeme.display
  | none => "None"

inductive SyntaxProblem where
  | character (code : Nat)
  | value (found : Option Lexeme)
  | key (found : Option Lexeme)
  | separator (closer : Char) (found : Option Lexeme)
  | trailing (found : Lexeme)

def SyntaxProblem.message : SyntaxProblem → String
  | character code => "unexpected character " ++ display (ofCodes [code])
  | value found => "unexpected token " ++ displayFound found
  | key found => "unexpected object key " ++ displayFound found
  | separator closer found =>
    "expected ',' or " ++ display closer.toString ++ ", found " ++ displayFound found
  | trailing found => "trailing content " ++ found.display

/-- A problem and the number of codes before it. -/
structure SyntaxError where
  problem : SyntaxProblem
  offset : Nat

def SyntaxError.message (e : SyntaxError) : String :=
  e.problem.message ++ " at offset " ++ toString e.offset

/-- Why a text is not read: it is not written in the notation, or it goes beyond a limit. -/
inductive ReadFault where
  | malformed (error : SyntaxError)
  | beyond (limit : Limit)

end Stagecraft
