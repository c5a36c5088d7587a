import Stagecraft.Decimal.Notation
import Stagecraft.Text.Quoted
import Stagecraft.Value

/-!
Values as text. A text stands for itself; inside a list or an object it is quoted.
-/

namespace Stagecraft.Value

def commas (parts : List String) : String := ", ".intercalate parts

mutual

/-- A value as it stands inside another one. -/
def inner : Value → String
  | null => "None"
  | bool truth => if truth then "True" else "False"
  | int n => toString n
  | float x => numberStyle.text x
  | str text => display text
  | list items => "[" ++ commas (innerItems items) ++ "]"
  | object entries => "\x7b" ++ commas (innerEntries entries) ++ "\x7d"
  | name id => "Name(name=" ++ display id ++ ")"
  | call id args =>
    let items := innerItems args
    let tail := if items.length = 1 then ",)" else ")"
    "Call(name=" ++ display id ++ ", args=(" ++ commas items ++ tail ++ ")"
  | spread value => "Spread(value=" ++ inner value ++ ")"

def innerItems : List Value → List String
  | [] => []
  | value :: rest => inner value :: innerItems rest

def innerEntries : Fields → List String
  | [] => []
  | (key, value) :: rest => (display key ++ ": " ++ inner value) :: innerEntries rest

end

def text : Value → String
  | str text => text
  | value => value.inner

/-- An absent field reads as null. -/
def textOf (value : Option Value) : String := (value.getD .null).text

/-- The word for the kind of a value. -/
def kind : Value → String
  | null => "NoneType"
  | bool _ => "bool"
  | int _ => "int"
  | float _ => "float"
  | str _ => "str"
  | list _ => "list"
  | object _ => "dict"
  | name _ => "Name"
  | call _ _ => "Call"
  | spread _ => "Spread"

end Stagecraft.Value
