import Stagecraft.Vignette.Tokens

/-!
What the quality rules look at: the actions of a vignette step by step, counted in many ways.
-/

namespace Stagecraft

structure Scene where
  steps : List (List Action)
  description : String

def Scene.ofVignette (vignette : Vignette) : Scene :=
  ⟨vignette.steps.map (·.actions), vignette.description⟩

/-- Each item once, at its first place, with the number of its equals. -/
def tally {α : Type} (same : α → α → Bool) (items : List α) : List (α × Nat) :=
  (items.eraseDupsBy same).map fun item => (item, items.countP (same item))

/-- The entries counted at least `least` times. -/
def frequent {α : Type} (same : α → α → Bool) (least : Nat) (items : List α) : List (α × Nat) :=
  (tally same items).filter (least ≤ ·.2)

/-- The values, unless one of them cannot serve as a key. -/
def asKeys (values : List Value) : Except Misuse (List Value) :=
  if Value.areKeys values then .ok values else .error .wrongKind

/-- The numbers, from one on, of the places that satisfy `test`. -/
def placesFrom {α : Type} (test : α → Bool) (place : Nat) : List α → List Nat
  | [] => []
  | item :: rest =>
    let others := placesFrom test (place + 1) rest
    if test item then place :: others else others

/-- The same with a test of an item and the one before it. -/
def pairPlacesFrom {α : Type} (test : Option α → α → Bool) (before : Option α) (place : Nat) :
    List α → List Nat
  | [] => []
  | item :: rest =>
    let others := pairPlacesFrom test (some item) (place + 1) rest
    if test before item then place :: others else others

def mechanicalKinds : List String := ["animate", "sfx", "move", "spawn_character"]

def narrativeKinds : List String := ["emote", "text_popup", "spawn", "grow", "react"]

namespace Scene

def actions (scene : Scene) : List Action := scene.steps.flatten

def totalActions (scene : Scene) : Nat := scene.actions.length

def totalSteps (scene : Scene) : Nat := scene.steps.length

def ofKind (scene : Scene) (kind : String) : List Action := Action.ofKind kind scene.actions

def countKinds (scene : Scene) (kinds : List String) : Nat :=
  scene.actions.countP (Action.isAnyKind kinds)

/-- The characters that are brought on stage, each as often as that happens. -/
def spawned (scene : Scene) : List String :=
  (scene.ofKind "spawn_character").filterMap fun action =>
    (action.present? "character").map (·.text)

def characters (scene : Scene) : List String := scene.spawned.eraseDups

def emoteCount (scene : Scene) : Nat := (scene.ofKind "emote").length

/-- The characters without an emote of their own. -/
def silent (scene : Scene) : Except Misuse (List String) := do
  let speaking ← asKeys ((scene.ofKind "emote").map fun action =>
    (Fields.get? action "character").getD .null)
  return scene.characters.filter fun name => !speaking.any (Value.isText name)

/-- Steps spent on entrances, at three for each, in percent of all steps. -/
def entrancePercent (scene : Scene) : Float :=
  if scene.totalSteps = 0 then 0.0
  else Float.ofNat (scene.spawned.length * 3) / Float.ofNat scene.totalSteps * 100.0

/-- Entrances take more than half of the steps. -/
def mostlyEntrances (scene : Scene) : Bool :=
  scene.totalSteps < scene.spawned.length * 6

/-- The characters that appear at a position whose name holds the side. -/
def entrants (scene : Scene) (side : String) : List String :=
  (scene.ofKind "spawn_character").filterMap fun action =>
    let position := ((action.present? "position").map (·.text)).getD ""
    if holds position side then (action.present? "character").map (·.text) else none

/-- What tells an action from others: its kind, who does it, and the animation or effect. -/
def actionKey (action : Action) : String :=
  Value.textOf (Fields.get? action "action") ++ ":" ++
    Value.textOf (action.either "character" "asset") ++ ":" ++
    Value.textOf (action.either "anim" "effect")

/-- The keys of the actions in sorted order. -/
def stepKey (actions : List Action) : String :=
  join "|" ((actions.map actionKey).mergeSort codesLe)

/-- The steps that have actions and equal the step before them. -/
def duplicateSteps (scene : Scene) : List Nat :=
  pairPlacesFrom (fun before step =>
    stepKey step != "" && before.any fun previous => stepKey step == stepKey previous)
    none 1 scene.steps

def isIdle : List Action → Bool
  | [action] => action.isKind "animate" && (Fields.get? action "anim").any (Value.isText idleAnim)
  | _ => false

/-- Standing still, unless it follows a move or an emote. -/
def idleSteps (scene : Scene) : List Nat :=
  pairPlacesFrom (fun before step =>
    isIdle step && !before.any (·.any (Action.isAnyKind ["move", "emote"]))) none 1 scene.steps

def gestureCount (scene : Scene) : Nat :=
  (scene.ofKind "animate").countP fun action =>
    (Fields.get? action "anim").any (Value.isText gestureAnim)

/-- Effects that appear three times or more at one position. -/
def repeatedEffects (scene : Scene) : List ((String × String) × Nat) :=
  frequent (· == ·) 3 ((scene.ofKind "react").map fun (action : Action) =>
    (Value.textOf (Fields.get? action "effect"),
      ((action.present? "position").map (·.text)).getD ""))

/-- Those who cheer twice or more. -/
def repeatCelebrators (scene : Scene) : Except Misuse (List (Value × Nat)) := do
  let cheers := (scene.ofKind "animate").filter fun (action : Action) =>
    holds (((action.present? "anim").map (·.text)).getD "") "Cheer"
  let who ← asKeys (cheers.map fun action => (Fields.get? action "character").getD .null)
  return frequent Value.same 2 who

def shakeSteps (scene : Scene) : List Nat :=
  placesFrom (·.any (Action.isKind "camera_shake")) 1 scene.steps

def mechanicalCount (scene : Scene) : Nat := scene.countKinds mechanicalKinds

def narrativeCount (scene : Scene) : Nat := scene.countKinds narrativeKinds

/-- Characters that go to one place three times or more. -/
def repeatedMoves (scene : Scene) : Except Misuse (List ((String × String) × Nat)) := do
  let moves := (scene.ofKind "move").map fun action =>
    ((Fields.get? action "character").getD .null, (Fields.get? action "to").getD .null)
  let _ ← asKeys (moves.flatMap fun (who, target) => [who, target])
  let same (a b : Value × Value) : Bool := a.1.same b.1 && a.2.same b.2
  return (frequent same 3 moves).map fun ((who, target), count) =>
    ((who.text, target.text), count)

end Scene

end Stagecraft
