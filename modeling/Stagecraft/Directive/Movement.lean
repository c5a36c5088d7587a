import Stagecraft.Directive.Entrance

/-!
Templates that move characters about the stage, alone and together.
-/

namespace Stagecraft.Directive

open Arguments

def walkTo : Directive := ⟨"WALK_TO", do
  let (who, target) ← two required required
  return [step 1.0 [.animate who "Walking_A", .move who target, .sound "footstep"],
    step 0.3 [idle who]]⟩

def runTo : Directive := ⟨"RUN_TO", do
  let (who, target) ← two required required
  return [step 0.7 [.animate who "Running_A", .move who target, .sound "whoosh"],
    step 0.2 [idle who]]⟩

def jumpTo : Directive := ⟨"JUMP_TO", do
  let (who, target) ← two required required
  return [step 0.2 [.animate who "Running_A"],
    step 0.6 [.moveAs "character" who target "arc", .sound "whoosh"],
    step 0.3 [idle who, .react "dust" target, .sound "thud"]]⟩

def dodge : Directive := ⟨"DODGE", do
  let (who, side) ← two required required
  return [step 0.5 [.animate who "Running_A", .move who (bySide side "cs-left" "cs-right"),
    .sound "whoosh"]]⟩

def circleAround : Directive := ⟨"CIRCLE_AROUND", do
  let who ← one required
  let arc (target : String) : Action := .moveAs "character" who target "arc"
  return [step 0.8 [.animate who "Running_A", arc "cs-right", .sound "footstep"],
    step 0.6 [arc "ds-center"],
    step 0.8 [arc "cs-left", idle who]]⟩

def pace : Directive := ⟨"PACE", do
  let (who, first, second) ← three required (optional "cs-left") (optional "cs-right")
  return [step 0.8 [.animate who "Walking_A", .move who second],
    step 0.8 [.move who first],
    step 0.3 [idle who]]⟩

def convergeMeet : Directive := ⟨"CONVERGE_MEET", do
  let (left, right) ← two required required
  return [step 0.3 [.spawnCharacter left "off-left", .spawnCharacter right "off-right",
      .animate left "Walking_A", .animate right "Walking_A", .sound "footstep"],
    step 1.2 [.move left "cs-left", .move right "cs-right"],
    step 0.3 [idle left, idle right]]⟩

def chase : Directive := ⟨"CHASE", do
  let (chaser, runner, target) ← three required required (optional "cs-right")
  return [step 0.3 [.animate runner "Running_A", .say runner "scared" "Oh no!", .sound "whoosh"],
    step 0.4 [.move runner target, .animate chaser "Running_A",
      .say chaser "angry" "Get back here!"],
    step 0.8 [.move chaser target]]⟩

/-- How many members a value has. -/
def sizeOf? : Value → Option Nat
  | .list items => some items.length
  | .str text => some (codeCount text.toList)
  | .object entries => some entries.length
  | _ => none

/-- The member at a place; the keys of an object are no places. -/
def memberAt (index : Nat) : Value → Except Misuse Value
  | .list items => (items[index]?).elim (.error .outOfRange) .ok
  | .str text => ((letters text)[index]?).elim (.error .outOfRange) fun c => .ok (.str c)
  | .object _ => .error .unknownKey
  | _ => .error .wrongKind

/-- The position of the character at a place; positions are used again from the first one. -/
def cycled (positions : Value) (index : Nat) : Except Misuse Value :=
  match sizeOf? positions with
  | none => .error .wrongKind
  | some 0 => .error .zeroDivisor
  | some size => memberAt (index % size) positions

def scatterMoves (positions : Value) (index : Nat) : List Value → Except Misuse (List Action)
  | [] => .ok []
  | who :: rest => do
    let target ← cycled positions index
    let others ← scatterMoves positions (index + 1) rest
    return .move who target :: others

def scatter : Directive := ⟨"SCATTER", do
  let (characters, positions) ← two required required
  let who ← (characters.members : Except Misuse _)
  let moves ← (scatterMoves positions 0 who : Except Misuse _)
  return [step 0.2 (who.map (.animate · "Running_A") ++ [.sound "whoosh"]), step 0.8 moves]⟩

def gather : Directive := ⟨"GATHER", do
  let (characters, target) ← two required (optional "cs-center")
  let who ← (characters.members : Except Misuse _)
  return [step 0.2 (who.map (.animate · "Walking_A") ++ [.sound "footstep"]),
    step 1.0 (who.map (.move · target)),
    step 0.3 (who.map idle)]⟩

def movements : List Directive :=
  [walkTo, runTo, jumpTo, dodge, circleAround, pace, convergeMeet, chase, scatter, gather]

end Stagecraft.Directive
