import Stagecraft.Directive.Basic

/-!
Templates that bring characters on stage and take them off.
-/

namespace Stagecraft.Directive

open Arguments

/-- Pauses of an entrance: after the appearance, the walk and the stop. -/
structure Pace where
  appear : Float
  walk : Float
  stop : Float

def walking : Pace := ⟨0.3, 1.0, 0.3⟩

def running : Pace := ⟨0.2, 0.8, 0.2⟩

def walkIn (off anim sound : String) (pace : Pace) (who target : Value) : List Step :=
  [step pace.appear [.spawnCharacter who off, .animate who anim, .sound sound],
    step pace.walk [.move who target],
    step pace.stop [idle who]]

def walkOn (off : String) : Value → Value → List Step := walkIn off "Walking_A" "footstep" walking

def chargeOn (off : String) : Value → Value → List Step := walkIn off "Running_A" "whoosh" running

def enterFromLeft : Directive := ⟨"ENTER_FROM_LEFT", do
  let (who, target) ← two required (optional "cs-left")
  return walkOn "off-left" who target⟩

def enterFromRight : Directive := ⟨"ENTER_FROM_RIGHT", do
  let (who, target) ← two required (optional "cs-right")
  return walkOn "off-right" who target⟩

def chargeInLeft : Directive := ⟨"CHARGE_IN_LEFT", do
  let (who, target) ← two required (optional "cs-center")
  return chargeOn "off-left" who target⟩

def chargeInRight : Directive := ⟨"CHARGE_IN_RIGHT", do
  let (who, target) ← two required (optional "cs-center")
  return chargeOn "off-right" who target⟩

def sneakInLeft : Directive := ⟨"SNEAK_IN_LEFT", do
  let (who, target) ← two required (optional "cs-left")
  return [step 0.3 [.spawnCharacter who "off-left", .animate who "Walking_B"],
    step 1.5 [.move who target, .emote who "sneaky"],
    step 0.3 [idle who]]⟩

/-- A member of a group: a character, or a list of a character and its target. A target that is
not present is the default one. -/
def groupMember (default : Value) : Value → Except Misuse (Value × Value)
  | .list [] => .error .outOfRange
  | .list [who] => .ok (who, default)
  | .list (who :: target :: _) => .ok (who, if target.isPresent then target else default)
  | who => .ok (who, default)

def groupSteps (off : String) (members : List (Value × Value)) : List Step :=
  [step 0.3 (members.map (fun m => .spawnCharacter m.1 off) ++
      members.map (fun m => .animate m.1 "Walking_A") ++ [.sound "footstep"]),
    step 1.0 (members.map fun m => .move m.1 m.2),
    step 0.3 (members.map fun m => idle m.1)]

def groupEnter (off : String) (default : Value) : Arguments (List Step) := do
  let group ← one required
  let entries ← (group.members : Except Misuse _)
  let members ← (entries.mapM (groupMember default) : Except Misuse _)
  return groupSteps off members

def groupEnterLeft : Directive := ⟨"GROUP_ENTER_LEFT", groupEnter "off-left" "cs-left"⟩

def groupEnterRight : Directive := ⟨"GROUP_ENTER_RIGHT", groupEnter "off-right" "cs-right"⟩

def dropIn : Directive := ⟨"DROP_IN", do
  let (who, target) ← two required (optional "cs-center")
  return [step 0.8 [.spawnCharacter who target, .animate who "Spawn_Air", .react "dust" target,
      .sound "thud"],
    step 0.3 [idle who]]⟩

def teleportIn : Directive := ⟨"TELEPORT_IN", do
  let (who, target) ← two required (optional "cs-center")
  return [step 0.2 [.flash "white" (.float 0.15), .sound "magic"],
    step 0.5 [.spawnCharacter who target, .react "sparkle-magic" target],
    step 0.3 [idle who]]⟩

/-- One of two answers, by whether a side is the left one. -/
def bySide (side : Value) (left right : String) : Value :=
  if side.isText "left" then left else right

def bounceEntrance : Directive := ⟨"BOUNCE_ENTRANCE", do
  let (who, target, side) ← three required (optional "cs-center") (optional "left")
  return [step 0.2 [.spawnCharacter who (bySide side "off-left" "off-right"),
      .animate who "Running_A", .sound "whoosh"],
    step 0.8 [.moveAs "character" who target "bounce"],
    step 0.3 [idle who, .react "dust" target, .sound "thud"]]⟩

def flee (who target shout : Value) : List Step :=
  [step 0.2 [.animate who "Running_A", .react "scared" "cs-center", .sound "whoosh"],
    step 1.0 [.move who target, .say who "scared" shout]]

def fleeLeft : Directive := ⟨"FLEE_LEFT", do
  let who ← one required
  return flee who "off-left" "AHHHH!"⟩

def fleeRight : Directive := ⟨"FLEE_RIGHT", do
  let who ← one required
  return flee who "off-right" "RUN!"⟩

def exitWalk : Directive := ⟨"EXIT_WALK", do
  let (who, side) ← two required (optional "right")
  return [step 1.2 [.animate who "Walking_A", .move who (bySide side "off-left" "off-right"),
    .sound "footstep"]]⟩

def entrances : List Directive :=
  [enterFromLeft, enterFromRight, chargeInLeft, chargeInRight, sneakInLeft, groupEnterLeft,
    groupEnterRight, dropIn, teleportIn, bounceEntrance, fleeLeft, fleeRight, exitWalk]

end Stagecraft.Directive
