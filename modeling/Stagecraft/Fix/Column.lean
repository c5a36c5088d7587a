import Stagecraft.Fix.Basic

/-!
Reading fixes back from the column of a sheet. What is worded like no speech fix is advice.
-/

namespace Stagecraft

namespace Speech

/-- A field with its quoted text. -/
def readField? (key : String) (text : List Char) : Option (String × List Char) := do
  readQuoted? (skipBlanks (← afterWord? key text))

def skipComma? (text : List Char) : Option (List Char) := (afterWord? "," text).map skipBlanks

/-- The three fields in their order and the brace behind them. -/
def readFields? (text : List Char) : Option Speech := do
  let (character, rest) ← readField? "character:" text
  let (emoji, rest) ← readField? "emoji:" (← skipComma? rest)
  let (line, rest) ← readField? "text:" (← skipComma? rest)
  let _ ← afterWord? "\x7d" (skipBlanks rest)
  return ⟨character, emoji, line⟩

/-- The first place with the three fields, before any closing brace. -/
def fieldsInside? : List Char → Option Speech
  | [] => none
  | c :: rest =>
    match readFields? (c :: rest) with
    | some speech => some speech
    | none => if c = '\x7d' then none else fieldsInside? rest

/-- An opening brace and the three fields right behind it. -/
def readBraced? (text : List Char) : Option Speech := do
  readFields? (skipBlanks (← afterWord? "\x7b" (skipBlanks text)))

/-- The first place on the line where someone enters and the fields follow. -/
def afterEntrance? : List Char → Option Speech
  | [] => none
  | c :: rest =>
    match (afterWord? " enters:" (c :: rest)).bind readBraced? with
    | some speech => some speech
    | none => if c = '\n' then none else afterEntrance? rest

end Speech

namespace Fix

/-- Addressed to someone before the first colon. -/
def readDialogue? (text : List Char) : Option Speech := do
  let named ← afterWord? "Add dialogue for " text
  match named.takeWhile (· != ':'), named.dropWhile (· != ':') with
  | _ :: _, ':' :: rest => Speech.fieldsInside? (← afterWord? "\x7b" (skipBlanks rest))
  | _, _ => none

/-- May stand anywhere in the text; at least one character names who enters. -/
def readOpening? (text : List Char) : Option Speech :=
  searchFor (fun rest => do
    match ← afterWord? "add opening emote after " rest with
    | c :: named => if c = '\n' then none else Speech.afterEntrance? named
    | [] => none) text

def readClosing? (text : List Char) : Option Speech := do
  Speech.readBraced? (← afterWord? "Add closing emote before celebration:" text)

def parse (text : String) : Fix :=
  let trimmed := stripBlanks text.toList
  match readDialogue? trimmed, readOpening? trimmed, readClosing? trimmed with
  | some speech, _, _ => dialogue speech
  | none, some speech, _ => opening speech
  | none, none, some speech => closing speech
  | none, none, none => advice (String.ofList trimmed)

end Fix

/-- The speech fixes of one row: lines for characters, and at most one line each to open and to
close the scene. -/
structure SpeechFixes where
  dialogue : List Speech
  opening : Option Speech
  closing : Option Speech
  deriving DecidableEq, Repr

namespace SpeechFixes

def none : SpeechFixes := ⟨[], .none, .none⟩

def isEmpty (fixes : SpeechFixes) : Bool :=
  fixes.dialogue.isEmpty && fixes.opening.isNone && fixes.closing.isNone

/-- The first opening and the first closing line count; advice is dropped. -/
def ofFixes : List Fix → SpeechFixes
  | [] => none
  | .dialogue speech :: rest =>
    let others := ofFixes rest
    { others with dialogue := speech :: others.dialogue }
  | .opening speech :: rest => { ofFixes rest with opening := some speech }
  | .closing speech :: rest => { ofFixes rest with closing := some speech }
  | .advice _ :: rest => ofFixes rest

def parseColumn (text : String) : SpeechFixes :=
  if text = "" then none else ofFixes ((cut fixSeparator text).map Fix.parse)

end SpeechFixes

end Stagecraft
