import Stagecraft.Json
import Stagecraft.Limit
import Stagecraft.Text.Digit
import Stagecraft.Text.Scan

/-!
Reading JSON. Numbers that are no numbers are taken by their words; a key given twice has its last
value; nothing but space may stand before or after the value.
-/

namespace Stagecraft.Json

def isSpace (c : Char) : Bool := c == ' ' || c == '\t' || c == '\n' || c == '\r'

def skipSpace (text : List Char) : List Char := text.dropWhile isSpace

/-- The character that a letter behind a backslash stands for. -/
def escaped? : Char → Option Char
  | '"' => some '"'
  | '\\' => some '\\'
  | '/' => some '/'
  | 'b' => some '\x08'
  | 'f' => some '\x0c'
  | 'n' => some '\n'
  | 'r' => some '\r'
  | 't' => some '\t'
  | _ => none

/-- The units up to the closing quote, and what follows it. A unit is a character as it stands, or
the code of an escape. -/
def textBody? : List Char → Option (List Nat × List Char)
  | [] => none
  | '"' :: rest => some ([], rest)
  | '\\' :: 'u' :: a :: b :: c :: d :: rest => do
    let code ← hexCode? a b c d
    let (body, after) ← textBody? rest
    return (code :: body, after)
  | '\\' :: letter :: rest => do
    let c ← escaped? letter
    let (body, after) ← textBody? rest
    return (c.toNat :: body, after)
  | c :: rest =>
    if c = '\\' ∨ c < ' ' then none
    else do
      let (body, after) ← textBody? rest
      return (c.toNat :: body, after)

/-- The code of a high and a low surrogate unit. -/
def pairCode? (high low : Nat) : Option Nat :=
  if isSurrogate high && isSurrogate low && high < 0xdc00 && 0xdc00 ≤ low then
    some (0x10000 + (high - 0xd800) * 0x400 + (low - 0xdc00))
  else none

/-- The characters of a unit: only an escape names half a pair. -/
def unitChars (unit : Nat) : List Char :=
  if isSurrogate unit then codeChars unit else [Char.ofNat unit]

/-- Puts the two units of each pair together. -/
def joinPairs : List Nat → List Char
  | first :: second :: rest =>
    match pairCode? first second with
    | some code => codeChars code ++ joinPairs rest
    | none => unitChars first ++ joinPairs (second :: rest)
  | [unit] => unitChars unit
  | [] => []

def text? (chars : List Char) : Option (String × List Char) :=
  (textBody? chars).map fun (body, after) => (String.ofList (joinPairs body), after)

def takeDigits (text : List Char) : List Char × List Char :=
  (text.takeWhile Char.isDigit, text.dropWhile Char.isDigit)

/-- Digits without a needless zero in front. -/
def whole? : List Char → Option (List Char × List Char)
  | '0' :: rest => some (['0'], rest)
  | c :: rest => if c.isDigit then some (takeDigits (c :: rest)) else none
  | [] => none

/-- A point and at least one digit, if they are there. -/
def fraction (text : List Char) : Option (List Char) × List Char :=
  match text with
  | '.' :: rest =>
    match takeDigits rest with
    | ([], _) => (none, text)
    | (digits, rest) => (some digits, rest)
  | _ => (none, text)

/-- The mark of an exponent, a sign, and at least one digit, if they are there. -/
def exponent (text : List Char) : Option Int × List Char :=
  match text with
  | mark :: signed =>
    let (negative, unsigned) := match signed with
      | '-' :: rest => (true, rest)
      | '+' :: rest => (false, rest)
      | rest => (false, rest)
    match mark = 'e' || mark = 'E', takeDigits unsigned with
    | true, (digit :: digits, rest) =>
      let n : Int := ofDigits (digit :: digits)
      (some (if negative then -n else n), rest)
    | _, _ => (none, text)
  | [] => (none, text)

/-- Why a text is not read as JSON. -/
inductive Unread where
  | malformed
  | beyond (limit : Limit)
  deriving DecidableEq, Repr

def orMalformed {α : Type} (found : Option α) : Except Unread α :=
  found.elim (.error .malformed) .ok

/-- A number with a fraction or an exponent is a double; only another one has few digits. -/
def magnitude (negative : Bool) (text : List Char) : Except Unread (Json × List Char) :=
  match whole? text with
  | none => .error .malformed
  | some (digits, rest) =>
    let (places, rest) := fraction rest
    let (power, rest) := exponent rest
    if places.isNone && power.isNone then
      let n : Int := ofDigits digits
      if digitLimit < digits.length then .error (.beyond .digits)
      else .ok (int (if negative then -n else n), rest)
    else
      let places := places.getD []
      let x := floatOfDecimal (ofDigits (digits ++ places)) (power.getD 0 - places.length)
      .ok (float (if negative then -x else x), rest)

def infinite (negative : Bool) : Json :=
  let x := floatOfBits infinityBits
  float (if negative then -x else x)

/-- The words for single values. -/
def words : List (String × Json) :=
  [("null", null), ("true", bool true), ("false", bool false),
    ("NaN", float (floatOfBits (infinityBits + hiddenBit / 2))), ("Infinity", infinite false),
    ("-Infinity", infinite true)]

def word? (text : List Char) : Option (Json × List Char) :=
  words.findSome? fun (word, value) =>
    (after? word.toList text).map fun rest => (value, rest)

/-- A value without parts. -/
def leaf (chars : List Char) : Except Unread (Json × List Char) :=
  match word? chars, chars with
  | some found, _ => .ok found
  | none, '"' :: rest => orMalformed ((text? rest).map fun (body, after) => (str body, after))
  | none, '-' :: rest => magnitude true rest
  | none, _ => magnitude false chars

/-- How deep values may be nested. -/
def nestingLimit : Nat := 990

mutual

/-- A value and what follows it. Every second step uses up a character, so `fuel` of twice the
length of the text is enough; `room` is how much deeper it may go. -/
def value : Nat → Nat → List Char → Except Unread (Json × List Char)
  | 0, _, _ => .error .malformed
  | fuel + 1, room, text =>
    match skipSpace text, room with
    | '[' :: _, 0 | '\x7b' :: _, 0 => .error (.beyond .nesting)
    | '[' :: rest, room + 1 =>
      match skipSpace rest with
      | ']' :: rest => .ok (arr [], rest)
      | rest => (items fuel room rest).map fun (items, after) => (arr items, after)
    | '\x7b' :: rest, room + 1 =>
      match skipSpace rest with
      | '\x7d' :: rest => .ok (obj [], rest)
      | rest => (members fuel room rest).map fun (members, after) =>
        (obj (Entries.ofPairs members), after)
    | chars, _ => leaf chars

/-- The items up to the closing bracket. -/
def items : Nat → Nat → List Char → Except Unread (List Json × List Char)
  | 0, _, _ => .error .malformed
  | fuel + 1, room, text => do
    let (item, rest) ← value fuel room text
    match skipSpace rest with
    | ',' :: rest =>
      let (others, after) ← items fuel room rest
      return (item :: others, after)
    | ']' :: after => return ([item], after)
    | _ => throw .malformed

/-- The members up to the closing brace. -/
def members : Nat → Nat → List Char → Except Unread (List (String × Json) × List Char)
  | 0, _, _ => .error .malformed
  | fuel + 1, room, text =>
    match skipSpace text with
    | '"' :: quoted => do
      let (key, rest) ← orMalformed (text? quoted)
      match skipSpace rest with
      | ':' :: rest =>
        let (value, rest) ← value fuel room rest
        match skipSpace rest with
        | ',' :: rest =>
          let (others, after) ← members fuel room rest
          return ((key, value) :: others, after)
        | '\x7d' :: after => return ([(key, value)], after)
        | _ => throw .malformed
      | _ => throw .malformed
    | _ => .error .malformed

end

def ofText (text : String) : Except Unread Json := do
  let chars := text.toList
  let (value, rest) ← value (2 * chars.length + 2) nestingLimit chars
  if (skipSpace rest).isEmpty then return value else throw .malformed

end Stagecraft.Json
