import Stagecraft.Decimal.Dyadic
import Stagecraft.Entries

/-!
Values read from the text of a record: data, and the names, calls and spreads that stand for
templates. An object keeps its entries in the order of their first keys.
-/

namespace Stagecraft

inductive Value where
  | null
  | bool (truth : Bool)
  | int (n : Int)
  | float (x : Float)
  | str (text : String)
  | list (items : List Value)
  | object (entries : List (String × Value))
  | name (id : String)
  | call (id : String) (args : List Value)
  | spread (value : Value)
  deriving Inhabited

/-- Entries of an object. -/
abbrev Fields := Entries Value

def Fields.get? (fields : Fields) (key : String) : Option Value := fields.lookup key

namespace Value

/-- Everything but null, false, zero and what is empty counts as present. -/
def isPresent : Value → Bool
  | null => false
  | bool truth => truth
  | int n => n != 0
  | float x => !(x == 0.0)
  | str text => text != ""
  | list items => !items.isEmpty
  | object entries => !entries.isEmpty
  | name _ | call _ _ | spread _ => true

/-- The value if it is present. -/
def present? (value : Value) : Option Value := if value.isPresent then some value else none

mutual

/-- Names and calls become the text of their name, and spread elements are left out of lists. -/
def plain : Value → Value
  | list items => list (plainItems items)
  | object entries => object (plainEntries entries)
  | name id | call id _ => str id
  | value => value

def plainItems : List Value → List Value
  | [] => []
  | spread _ :: rest => plainItems rest
  | value :: rest => plain value :: plainItems rest

def plainEntries : Fields → Fields
  | [] => []
  | (key, value) :: rest => (key, plain value) :: plainEntries rest

end

/-- A number; the truth values count as one and zero. -/
inductive Number where
  | int (n : Int)
  | float (x : Float)

def Number.same : Number → Number → Bool
  | int m, int n => m == n
  | int n, float x | float x, int n => floatIsInt x n
  | float x, float y => x == y

def number? : Value → Option Number
  | bool truth => some (.int (if truth then 1 else 0))
  | int n => some (.int n)
  | float x => some (.float x)
  | _ => none

mutual

/-- Equality of data: numbers by what they amount to, objects without regard to order. -/
def same : Value → Value → Bool
  | null, null => true
  | str a, str b => a == b
  | list a, list b => sameItems a b
  | object a, object b => a.length == b.length && sameEntries a b
  | name a, name b => a == b
  | call a args, call b others => a == b && sameItems args others
  | spread a, spread b => same a b
  | bool a, b => sameNumber (.int (if a then 1 else 0)) b
  | int a, b => sameNumber (.int a) b
  | float a, b => sameNumber (.float a) b
  | _, _ => false

def sameItems : List Value → List Value → Bool
  | [], [] => true
  | a :: rest, b :: others => same a b && sameItems rest others
  | _, _ => false

/-- Each entry has its equal among the others. -/
def sameEntries : Fields → Fields → Bool
  | [], _ => true
  | (key, a) :: rest, others =>
    (match Fields.get? others key with
    | some b => same a b
    | none => false) && sameEntries rest others

def sameNumber (a : Number) (b : Value) : Bool :=
  match b.number? with
  | some b => a.same b
  | none => false

end

def isText (text : String) : Value → Bool
  | str other => other == text
  | _ => false

mutual

/-- Lists and objects cannot serve as a key, nor can what holds one. -/
def isKey : Value → Bool
  | list _ | object _ => false
  | call _ args => areKeys args
  | spread value => isKey value
  | _ => true

def areKeys : List Value → Bool
  | [] => true
  | value :: rest => isKey value && areKeys rest

end

end Value

end Stagecraft
