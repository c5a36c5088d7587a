import Stagecraft.Fix.Quote
import Stagecraft.Vignette.Tokens

/-!
Fixes suggested for a vignette, and how a sheet words them. A speech fix gives a character a line;
advice is for a person to read.
-/

namespace Stagecraft

/-- A line for a character, with the mood it is said in. -/
structure Speech where
  character : String
  emoji : String
  text : String
  deriving DecidableEq, Repr

inductive Fix where
  | dialogue (speech : Speech)
  | opening (speech : Speech)
  | closing (speech : Speech)
  | advice (message : String)
  deriving DecidableEq, Repr

/-- The three fields of a speech. -/
def Speech.fields (speech : Speech) : String :=
  "character: " ++ quote speech.character ++ ", emoji: " ++ quote speech.emoji ++
    ", text: " ++ quote speech.text

def Fix.render : Fix → String
  | dialogue speech => "Add dialogue for " ++ prettyText speech.character ++
      ": \x7b action: 'emote', " ++ speech.fields ++ " \x7d"
  | opening speech => "Scene is silent - add opening emote after " ++
      prettyText speech.character ++ " enters: \x7b " ++ speech.fields ++ " \x7d"
  | closing speech => "Add closing emote before celebration: \x7b " ++ speech.fields ++ " \x7d"
  | advice message => message

def fixSeparator : String := " | "

/-- The column of a sheet that holds the fixes. -/
def renderFixes (fixes : List Fix) : String := join fixSeparator (fixes.map Fix.render)

end Stagecraft
