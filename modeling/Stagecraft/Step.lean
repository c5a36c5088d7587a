import Stagecraft.Value

/-!
Steps of a vignette: actions that happen at once, and the delay after them.
-/

namespace Stagecraft

instance : Coe String Value := ⟨.str⟩

/-- An action is the object that describes it. -/
abbrev Action := Fields

/-- `directive` names the template the step comes from. -/
structure Step where
  actions : List Action
  delay : Value
  directive : Option String

namespace Action

/-- A field that is there and present. -/
def present? (action : Action) (key : String) : Option Value :=
  (Fields.get? action key).bind Value.present?

/-- The first present one of two fields, or else the second one as it is. -/
def either (action : Action) (first second : String) : Option Value :=
  match present? action first with
  | some value => some value
  | none => Fields.get? action second

def isKind (kind : String) (action : Action) : Bool :=
  (Fields.get? action "action").any (Value.isText kind)

def isAnyKind (kinds : List String) (action : Action) : Bool := kinds.any (isKind · action)

/-- The actions of one kind, in order. -/
def ofKind (kind : String) (actions : List Action) : List Action := actions.filter (isKind kind)

def spawnCharacter (who position : Value) : Action :=
  [("action", "spawn_character"), ("character", who), ("position", position)]

def animate (who anim : Value) : Action :=
  [("action", "animate"), ("character", who), ("anim", anim)]

def sound (name : Value) : Action := [("action", "sfx"), ("sound", name)]

def react (effect position : Value) : Action :=
  [("action", "react"), ("effect", effect), ("position", position)]

def emote (who emoji : Value) : Action :=
  [("action", "emote"), ("character", who), ("emoji", emoji)]

/-- A text that is not present is left out. -/
def say (who emoji text : Value) : Action :=
  emote who emoji ++ (if text.isPresent then [("text", text)] else [])

/-- `role` tells whether a character or an asset moves. -/
def moveAs (role : String) (who target style : Value) : Action :=
  [("action", "move"), (role, who), ("to", target), ("style", style)]

def move (who target : Value) : Action := moveAs "character" who target "linear"

def moveAsset (asset target : Value) : Action := moveAs "asset" asset target "linear"

def spawn (asset position : Value) : Action :=
  [("action", "spawn"), ("asset", asset), ("position", position)]

def dropped (asset position : Value) : Action :=
  spawn asset position ++ ([("spawnStyle", "drop")] : Action)

def shake (intensity duration : Value) : Action :=
  [("action", "camera_shake"), ("intensity", intensity), ("duration", duration)]

def flash (color duration : Value) : Action :=
  [("action", "screen_flash"), ("color", color), ("duration", duration)]

def popup (text size : Value) : Action :=
  [("action", "text_popup"), ("text", text), ("position", "center"), ("size", size)]

def crowd (characters anim : Value) : Action :=
  [("action", "crowd_react"), ("characters", characters), ("anim", anim)]

end Action

def step (delay : Float) (actions : List Action) : Step := ⟨actions, .float delay, none⟩

end Stagecraft
