import Stagecraft.Fix.Basic
import Stagecraft.Quality.Persona
import Stagecraft.Quality.Scene

/-!
The quality rules. Each has a test, which alone decides the verdict, and words the fixes it
suggests when the test holds.
-/

namespace Stagecraft

inductive Severity where
  | high
  | medium
  | advisory
  deriving DecidableEq, Repr

structure Rule where
  name : String
  severity : Severity
  applies : Scene → Except Misuse Bool
  fixes : Chooser → Scene → Except Misuse (List Fix)

namespace Rule

def commas (parts : List String) : String := join ", " parts

def numbers (places : List Nat) : String := commas (places.map toString)

def prettyAll (names : List String) : String := commas (names.map prettyText)

def itemAt {α : Type} (items : List α) (index : Nat) : Except Misuse α :=
  (items[index]?).elim (.error .outOfRange) .ok

def silentCharacters : Rule where
  name := "silent_characters"
  severity := .high
  applies scene := do
    let silent ← scene.silent
    return !silent.isEmpty && 5 < scene.totalActions
  fixes chooser scene := do
    let silent ← scene.silent
    return silent.map fun name => .dialogue ⟨name, "excited", suggestLine name "excited" chooser⟩

def silentScene : Rule where
  name := "silent_scene"
  severity := .medium
  applies scene := .ok
    (scene.emoteCount == 0 && 10 < scene.totalActions && !scene.characters.isEmpty)
  fixes chooser scene := do
    let lead ← itemAt scene.characters 0
    return [.opening ⟨lead, "excited", suggestLine lead "excited" chooser⟩,
      .closing ⟨lead, "star_eyes", suggestLine lead "victory" chooser⟩]

/-- A percentage to the nearest whole number. -/
def wholePercent (part whole : Nat) : Except Misuse Nat :=
  if whole = 0 then .error .zeroDivisor
  else .ok (Float.ofNat part / Float.ofNat whole * 100.0 + 0.5).toUInt64.toNat

def leftAdvice (left : List String) : List Fix :=
  if left.length < 2 then [] else
  let spawns := left.map fun name =>
    "\x7b action: 'spawn_character', character: '" ++ name ++ "', position: 'off-left' \x7d"
  [.advice ("Replace " ++ toString left.length ++ " individual ENTER_FROM_LEFT calls for [" ++
    prettyAll left ++ "] with single group step: \x7b parallel: [" ++ commas spawns ++
    "] \x7d then one shared move step")]

def rightAdvice (right : List String) : List Fix :=
  if right.length < 2 then [] else
  [.advice ("Replace " ++ toString right.length ++ " individual ENTER_FROM_RIGHT calls for [" ++
    prettyAll right ++ "] with single group step")]

def entranceBloat : Rule where
  name := "entrance_bloat"
  severity := .high
  applies scene := .ok (scene.mostlyEntrances && 3 < scene.spawned.length)
  fixes _ scene := do
    let saved := (scene.spawned.length - 2) * 2
    let share ← wholePercent saved scene.totalSteps
    return leftAdvice (scene.entrants "left") ++ rightAdvice (scene.entrants "right") ++
      [.advice ("This saves ~" ++ toString saved ++ " steps (" ++ toString share ++
        "% of vignette)")]

/-- The left side, unless nobody enters there. -/
def enteredSide (scene : Scene) : String :=
  if (scene.entrants "left").isEmpty then "right" else "left"

def otherSide (side : String) : String := if side = "left" then "right" else "left"

def oneSidedEntrances : Rule where
  name := "one_sided_entrances"
  severity := .advisory
  applies scene := .ok (3 ≤ scene.spawned.length &&
    !(!(scene.entrants "left").isEmpty && !(scene.entrants "right").isEmpty) &&
    !scene.mostlyEntrances)
  fixes _ scene :=
    let side := enteredSide scene
    let moved := scene.characters.drop ((scene.characters.length + 1) / 2)
    .ok [.advice ("Move entrances for [" ++ prettyAll moved ++ "] to " ++ otherSide side ++
      " side - currently all " ++ toString scene.spawned.length ++ " enter from " ++ side)]

def actionLabel (action : Action) : String :=
  Value.textOf (Fields.get? action "action") ++ ":" ++
    prettyOf (action.either "character" "asset")

def duplicateSteps : Rule where
  name := "duplicate_steps"
  severity := .high
  applies scene := .ok (!scene.duplicateSteps.isEmpty)
  fixes _ scene := scene.duplicateSteps.mapM fun place => do
    let step ← itemAt scene.steps (place - 1)
    return .advice ("Remove duplicate step " ++ toString place ++ " (same as step " ++
      toString (place - 1) ++ "): [" ++ join " + " (step.map actionLabel) ++ "]")

def idlePadding : Rule where
  name := "idle_padding"
  severity := .medium
  applies scene := .ok (2 < scene.idleSteps.length)
  fixes _ scene := .ok [.advice ("Remove " ++ toString scene.idleSteps.length ++
    " standalone " ++ idleAnim ++ " steps at positions [" ++ numbers scene.idleSteps ++
    "] - these are outside entrance/speech templates and just show characters standing still")]

def gestureAlternatives : List String := ["Interact", "Pointing", "cast_spell", "Cheering", "Jump"]

def swapsFrom (place : Nat) : List String → List String
  | [] => []
  | anim :: rest => ("speech " ++ toString place ++ " → " ++ anim) :: swapsFrom (place + 1) rest

def gestureSpam : Rule where
  name := "gesture_spam"
  severity := .medium
  applies scene := .ok (3 < scene.gestureCount && scene.emoteCount < scene.gestureCount)
  fixes _ scene := .ok [.advice (toString scene.gestureCount ++ " " ++ gestureAnim ++
    " anims before dialogue - replace some with varied anims: " ++
    commas (swapsFrom 1 gestureAlternatives))]

def repeatedEffect : Rule where
  name := "repeated_effect"
  severity := .medium
  applies scene := .ok (!scene.repeatedEffects.isEmpty)
  fixes _ scene := .ok (scene.repeatedEffects.map fun ((effect, position), count) =>
    .advice (effect ++ " at " ++ (if position = "" then "center" else position) ++ " fires " ++
      toString count ++ "x - replace occurrences 2+ with: " ++
      commas (alternativeEffects effect)))

def redundantCelebration : Rule where
  name := "redundant_celebration"
  severity := .medium
  applies scene := do
    let cheering ← scene.repeatCelebrators
    return !cheering.isEmpty
  fixes _ scene := do
    let cheering ← scene.repeatCelebrators
    let names := cheering.map fun (who, count) => pretty who ++ " (" ++ toString count ++ "x)"
    return [.advice ("Characters cheer multiple times: " ++ commas names ++
      " - keep only the final CELEBRATION call; remove earlier manual " ++ cheerAnim ++ " anims")]

/-- The last shake but one is the climax, or the only one. -/
def climaxOf (places : List Nat) : Except Misuse Nat :=
  if 2 ≤ places.length then itemAt places (places.length - 2) else itemAt places 0

def cameraShakeSpam : Rule where
  name := "camera_shake_spam"
  severity := .medium
  applies scene := .ok (3 < (scene.ofKind "camera_shake").length)
  fixes _ scene := do
    let climax ← climaxOf scene.shakeSteps
    return [.advice (toString (scene.ofKind "camera_shake").length ++
      " camera shakes at steps [" ++ numbers scene.shakeSteps ++
      "] - keep only the climax shake (step " ++ toString climax ++ "); remove the rest")]

def mechanicalRatio : Rule where
  name := "mechanical_ratio"
  severity := .high
  applies scene := .ok
    (30 < scene.totalActions && scene.narrativeCount * 3 < scene.mechanicalCount)
  fixes _ scene :=
    let excess := scene.mechanicalCount - scene.narrativeCount * 2
    let ratio := Float.ofNat scene.mechanicalCount / Float.ofNat (max scene.narrativeCount 1)
    .ok [.advice ("Mechanical:story ratio is " ++ oneDecimal ratio ++
      ":1 (target <2:1) - cut ~" ++ toString excess ++ " animate/move/sfx actions and add ~" ++
      toString ((excess + 2) / 3) ++ " emotes or react effects")]

def repeatedMoveTarget : Rule where
  name := "repeated_move_target"
  severity := .medium
  applies scene := do
    let moves ← scene.repeatedMoves
    return !moves.isEmpty
  fixes _ scene := do
    let moves ← scene.repeatedMoves
    return moves.map fun ((who, target), count) =>
      .advice (prettyText who ++ " walks to " ++ target ++ " " ++ toString count ++
        " times - keep first move; replace later ones with moves " ++
        "to different positions (cs-left, ds-right, etc.)")

def noVisualPayoff : Rule where
  name := "no_visual_payoff"
  severity := .medium
  applies scene := .ok (20 < scene.totalActions && (scene.ofKind "react").isEmpty)
  fixes _ scene := .ok [.advice ("No visual effects in " ++ toString scene.totalActions ++
    "-action scene - add: " ++
    "\x7b action: 'react', effect: 'sparkle-magic', position: 'cs-center' \x7d at the climax" ++
    " and \x7b action: 'react', effect: 'confetti-burst', position: 'cs-center' \x7d at the end")]

def noNarrator : Rule where
  name := "no_narrator"
  severity := .advisory
  applies scene := .ok (10 < scene.totalActions && (scene.ofKind "text_popup").isEmpty)
  fixes _ scene := .ok [.advice ("No narrator text - add opening: " ++
    "\x7b action: 'text_popup', text: '" ++
    replaceChar '\'' "\\'" (narratorLine scene.description) ++ "', position: 'center' \x7d")]

end Rule

open Rule in
/-- All rules, in the order in which their fixes are listed. -/
def rules : List Rule :=
  [silentCharacters, silentScene, entranceBloat, oneSidedEntrances, duplicateSteps, idlePadding,
    gestureSpam, repeatedEffect, redundantCelebration, cameraShakeSpam, mechanicalRatio,
    repeatedMoveTarget, noVisualPayoff, noNarrator]

end Stagecraft
