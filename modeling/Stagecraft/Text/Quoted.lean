import Stagecraft.Text.Code
import Stagecraft.Text.Printable

/-!
Texts as messages quote them: between apostrophes, or between double quotes where that saves an
escape, with every character that cannot be printed written as its code.
-/

namespace Stagecraft

def hexDigits (width n : Nat) : List Char :=
  let digits := Nat.toDigits 16 n
  List.replicate (width - digits.length) '0' ++ digits

/-- The shortest escape that holds the code. -/
def codeEscape (code : Nat) : List Char :=
  if code < 0x100 then '\\' :: 'x' :: hexDigits 2 code
  else if code < 0x10000 then '\\' :: 'u' :: hexDigits 4 code
  else '\\' :: 'U' :: hexDigits 8 code

def displayChar (mark c : Char) : List Char :=
  if c = mark || c = '\\' then ['\\', c]
  else if c = '\n' then ['\\', 'n']
  else if c = '\r' then ['\\', 'r']
  else if c = '\t' then ['\\', 't']
  else if isPrintable c then [c]
  else codeEscape c.toNat

/-- Half a surrogate pair is no character and always escaped. -/
def displayCode (mark : Char) (code : Nat) : List Char :=
  if isSurrogate code then codeEscape code else displayChar mark (Char.ofNat code)

/-- Double quotes stand around a text that holds an apostrophe and no double quote. -/
def displayMark (text : List Char) : Char :=
  if text.contains '\'' && !text.contains '"' then '"' else '\''

def display (text : String) : String :=
  let mark := displayMark text.toList
  String.ofList (mark :: (codes text.toList).flatMap (displayCode mark) ++ [mark])

end Stagecraft
