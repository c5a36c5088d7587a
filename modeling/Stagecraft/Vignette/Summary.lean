import Stagecraft.Vignette.Tokens

/-!
The story of a vignette in words, one beat for each step.
-/

namespace Stagecraft

/-- What the story has shown so far: the characters and the props on stage. -/
structure Shown where
  characters : List Value
  props : List String

namespace Shown

def nothing : Shown := ⟨[], []⟩

end Shown

namespace Beat

def captions (actions : List Action) : List String :=
  (Action.ofKind "text_popup" actions).filterMap fun action =>
    (action.present? "text").map fun text => "[" ++ text.text ++ "]"

/-- Characters that appear for the first time. -/
def arrivals (shown : List Value) : List Action → Except Misuse (List Value × List String)
  | [] => .ok (shown, [])
  | spawn :: rest =>
    match spawn.present? "character" with
    | none => arrivals shown rest
    | some who =>
      if !who.isKey then .error .wrongKind
      else if shown.any who.same then arrivals shown rest
      else do
        let (all, parts) ← arrivals (who :: shown) rest
        return (all, (pretty who ++ " enters.") :: parts)

def newProps (shown : List String) (spawns : List Action) : List String :=
  (spawns.map fun spawn => prettyOf (Fields.get? spawn "asset")).filter (!shown.contains ·)

def propParts (names : List String) : List String :=
  if names.isEmpty then []
  else if names.length ≤ 3 then [join ", " names ++ " appear."]
  else [toString names.length ++ " props appear."]

/-- The props of a beat that have a name of their own. -/
def namedProps (spawns : List Action) : List String :=
  spawns.filterMap fun spawn => (spawn.present? "asset").map pretty

def growths (actions : List Action) : List String :=
  (Action.ofKind "grow" actions).map fun action =>
    prettyOf (action.either "character" "asset") ++ " grows."

def emotes (actions : List Action) : List String :=
  (Action.ofKind "emote" actions).filterMap fun (action : Action) =>
    let who := prettyOf (Fields.get? action "character")
    match action.present? "text", action.present? "emoji" with
    | some text, _ =>
      let emoji := Value.textOf (Fields.get? action "emoji")
      some (who ++ " (" ++ emoji ++ "): \"" ++ text.text ++ "\"")
    | none, some emoji => some (who ++ " feels " ++ emoji.text ++ ".")
    | none, none => none

def movers (actions : List Action) : List String :=
  match ((Action.ofKind "move" actions).map fun action =>
    prettyOf (action.either "character" "asset")).eraseDups with
  | [] => []
  | names => [join " & " names ++ " move."]

/-- Standing, walking and running are not worth a word. -/
def isPlainAnim (name : String) : Bool :=
  name == "" || startsWith name "Idle" || startsWith name "Walking" || startsWith name "Running"

/-- The animation of an action and the one who shows it. -/
def performance? (action : Action) : Option (String × String) :=
  let name := ((action.present? "anim").map (·.text)).getD ""
  if isPlainAnim name then none else some (name, prettyOf (Fields.get? action "character"))

def performances (actions : List Action) : List String :=
  let shown := (Action.ofKind "animate" actions).filterMap performance?
  (shown.map (·.1)).eraseDups.map fun name =>
    let who := (shown.filter (·.1 == name)).map (·.2)
    (if who.length ≤ 2 then join " & " who ++ " do " else "Everyone does ") ++
      prettyText name ++ "."

def effects (actions : List Action) : List String :=
  match ((Action.ofKind "react" actions).map fun action =>
    Value.textOf (Fields.get? action "effect")).eraseDups with
  | [] => []
  | names => ["[FX: " ++ join ", " names ++ "]"]

def when (present : Bool) (part : String) : List String := if present then [part] else []

/-- Only the first flash counts. -/
def flashes (actions : List Action) : List String :=
  ((Action.ofKind "screen_flash" actions).head?.map fun action =>
    "[flash " ++ Value.textOf (Fields.get? action "color") ++ "]").toList

/-- The parts of a beat in order. A pause is told only when nothing else is. -/
def parts (shown : Shown) (actions : List Action) : Except Misuse (Shown × List String) := do
  let spawns := Action.ofKind "spawn" actions
  let (characters, entering) ← arrivals shown.characters (Action.ofKind "spawn_character" actions)
  let told := captions actions ++ entering ++ propParts (newProps shown.props spawns) ++
    growths actions ++ emotes actions ++ movers actions ++ performances actions ++
    effects actions ++
    when (actions.any (Action.isAnyKind ["camera_shake", "camera_zoom"])) "[shake]" ++
    flashes actions ++ when (actions.any (Action.isKind "crowd_react")) "[crowd reacts]"
  let pause := when (told.isEmpty && actions.any (Action.isKind "delay")) "[pause]"
  return (⟨characters, namedProps spawns ++ shown.props⟩, told ++ pause)

end Beat

/-- The beats of the steps, without those that tell nothing. -/
def beatsOf (shown : Shown) : List Step → Except Misuse (List String)
  | [] => .ok []
  | step :: rest => do
    let (after, parts) ← Beat.parts shown step.actions
    let others ← beatsOf after rest
    return if parts.isEmpty then others else join " " parts :: others

def Vignette.summary (vignette : Vignette) : Except Misuse String := do
  let beats ← beatsOf .nothing vignette.steps
  return if beats.isEmpty then "(empty)" else join " " beats

end Stagecraft
