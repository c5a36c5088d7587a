import Stagecraft.Text.Scan
import Stagecraft.Vignette

/-!
Actions as compact tokens: what happens, to whom, how and where, between colons.
-/

namespace Stagecraft

/-- A name for reading: blanks for underscores, and a question mark where there is none. -/
def pretty (name : Value) : String :=
  if name.isPresent then replaceChar '_' " " name.text else "?"

def prettyText (name : String) : String := pretty (.str name)

/-- The pretty name in an optional field. -/
def prettyOf (name : Option Value) : String := pretty (name.getD .null)

namespace Action

/-- The texts of a list of texts. -/
def textsOf? : List Value → Option (List String)
  | [] => some []
  | .str text :: rest => (textsOf? rest).map (text :: ·)
  | _ :: _ => none

/-- Who or what takes part: a character, a crowd, or an asset. -/
def who? (action : Action) : Except Misuse (Option String) :=
  match present? action "character", present? action "characters", present? action "asset" with
  | some character, _, _ => .ok (some character.text)
  | none, some (.list crowd), _ =>
    (textsOf? crowd).elim (.error .wrongKind) fun names => .ok (some (join "+" names))
  | none, some crowd, _ => .ok (some crowd.text)
  | none, none, some asset => .ok (some asset.text)
  | none, none, none => .ok none

/-- The text of a present field, as a list of no or one part. -/
def part (action : Action) (key : String) : List String :=
  ((present? action key).map (·.text)).toList

/-- Where the action leads, or else where it is. -/
def placePart (action : Action) : List String :=
  match present? action "to", present? action "position" with
  | some target, _ => ["→" ++ target.text]
  | none, some position => ["@" ++ position.text]
  | none, none => []

/-- Parts that are not present are skipped. A comma in a text becomes a semicolon. -/
def token (action : Action) : Except Misuse String := do
  let who ← action.who?
  let kind := ((Fields.get? action "action").getD "?").text
  let named := (who.filter (· != "")).toList
  let texts := (action.part "text").map (replaceChar ',' ";")
  return join ":" ([kind] ++ named ++ action.part "anim" ++ action.part "effect" ++
    action.part "sound" ++ action.part "emoji" ++ texts ++ action.placePart ++
    action.part "color")

end Action

/-- One token for each action. -/
def Vignette.tokens (vignette : Vignette) : Except Misuse (List String) :=
  vignette.actions.mapM Action.token

end Stagecraft
