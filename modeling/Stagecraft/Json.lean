import Stagecraft.Decimal.Notation
import Stagecraft.Entries
import Stagecraft.Text.Quoted

/-!
JSON data, and how it is written: on one line, or with an indent of two columns for each level. All
characters but the printable ones of ASCII are escaped.
-/

namespace Stagecraft

inductive Json where
  | null
  | bool (truth : Bool)
  | int (n : Int)
  | float (x : Float)
  | str (text : String)
  | arr (items : List Json)
  | obj (members : List (String × Json))
  deriving Inhabited

namespace Json

/-- Numbers as in records, with words of their own for what is no number. -/
def floatStyle : NumberStyle := { numberStyle with infinity := "Infinity", undefined := "NaN" }

def unitEscape (code : Nat) : List Char := '\\' :: 'u' :: hexDigits 4 code

/-- A character beyond the first 65536 is escaped as two surrogate units. -/
def codeEscape (code : Nat) : List Char :=
  if code < 0x10000 then unitEscape code
  else unitEscape (0xd800 + (code - 0x10000) / 0x400) ++
    unitEscape (0xdc00 + (code - 0x10000) % 0x400)

def escapeChar (c : Char) : List Char :=
  if c = '"' || c = '\\' then ['\\', c]
  else if c = '\n' then ['\\', 'n']
  else if c = '\r' then ['\\', 'r']
  else if c = '\t' then ['\\', 't']
  else if c = '\x0c' then ['\\', 'f']
  else if c = '\x08' then ['\\', 'b']
  else if ' ' ≤ c && c ≤ '~' then [c]
  else codeEscape c.toNat

/-- Half a surrogate pair is escaped by itself. -/
def escapeCode (code : Nat) : List Char :=
  if isSurrogate code then unitEscape code else escapeChar (Char.ofNat code)

def quoted (text : String) : String :=
  String.ofList ('"' :: (codes text.toList).flatMap escapeCode ++ ['"'])

/-- What stands between the parts of a value at a depth, and how a key is set off. -/
structure Layout where
  gap : Nat → String
  separator : String
  colon : String

def oneLine : Layout := ⟨fun _ => "", ", ", ": "⟩

def indented : Layout :=
  ⟨fun depth => "\n" ++ String.ofList (List.replicate (2 * depth) ' '), ",", ": "⟩

/-- Parts between two marks; nothing stands between the marks where there are none. -/
def enclose (layout : Layout) (depth : Nat) (opening closing : String) (parts : List String) :
    String :=
  if parts.isEmpty then opening ++ closing
  else opening ++ layout.gap (depth + 1) ++
    (layout.separator ++ layout.gap (depth + 1)).intercalate parts ++ layout.gap depth ++ closing

mutual

def writeAt (layout : Layout) (depth : Nat) : Json → String
  | null => "null"
  | bool truth => if truth then "true" else "false"
  | int n => toString n
  | float x => floatStyle.text x
  | str text => quoted text
  | arr items => enclose layout depth "[" "]" (writeItems layout (depth + 1) items)
  | obj members =>
    enclose layout depth "\x7b" "\x7d" (writeMembers layout (depth + 1) members)

def writeItems (layout : Layout) (depth : Nat) : List Json → List String
  | [] => []
  | item :: rest => writeAt layout depth item :: writeItems layout depth rest

def writeMembers (layout : Layout) (depth : Nat) : List (String × Json) → List String
  | [] => []
  | (key, value) :: rest =>
    (quoted key ++ layout.colon ++ writeAt layout depth value) :: writeMembers layout depth rest

end

def write (layout : Layout) (value : Json) : String := writeAt layout 0 value

/-- Everything but null, false, zero and what is empty counts as present. -/
def isPresent : Json → Bool
  | null => false
  | bool truth => truth
  | int n => n != 0
  | float x => !(x == 0.0)
  | str text => text != ""
  | arr items => !items.isEmpty
  | obj members => !members.isEmpty

def strings (texts : List String) : Json := arr (texts.map str)

def count (n : Nat) : Json := int n

end Json

end Stagecraft
