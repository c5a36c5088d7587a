import Stagecraft.Directive.Basic

/-!
Templates for the objects on stage.
-/

namespace Stagecraft.Directive

open Arguments

def scaled (asset position scale : Value) : Action :=
  Action.spawn asset position ++ ([("scale", scale)] : Action)

def grow (asset scale duration : Value) : Action :=
  [("action", "grow"), ("asset", asset), ("scale", scale), ("duration", duration)]

def shrinkPop (asset effect : Value) : Action :=
  [("action", "shrink_pop"), ("asset", asset), ("effect", effect), ("duration", .int 500)]

def objectDrop : Directive := ⟨"OBJECT_DROP", do
  let (asset, position) ← two required required
  return [step 0.5 [.dropped asset position, .sound "thud"],
    step 0.3 [.react "dust" position]]⟩

/-- An object appears at one place and slides to another. -/
def slide (delay : Float) : Arguments (List Step) := do
  let (asset, start, target) ← three required required required
  return [step 0.2 [.spawn asset start, .sound "move"], step delay [.moveAsset asset target]]

def objectSlideIn : Directive := ⟨"OBJECT_SLIDE_IN", slide 0.8⟩

def objectServe : Directive := ⟨"OBJECT_SERVE", slide 0.6⟩

def objectGrowReveal : Directive := ⟨"OBJECT_GROW_REVEAL", do
  let (asset, position, scale) ← three required required (optional (.float 2.0))
  return [step 0.2 [scaled asset position (.float 0.1)],
    step 1.2 [grow asset scale (.int 1000), .react "sparkle-magic" position, .sound "magic"]]⟩

def objectLaunch : Directive := ⟨"OBJECT_LAUNCH", do
  let (asset, start) ← two required required
  return [step 0.3 [.react "fire" start, .shake (.float 0.3) (.float 0.5), .sound "engine"],
    step 1.0 [.moveAs "asset" asset "off-right" "arc", .react "smoke" start]]⟩

def objectSpinIn : Directive := ⟨"OBJECT_SPIN_IN", do
  let (asset, position) ← two required required
  return [step 0.1 [.spawn asset "off-left", .sound "whoosh"],
    step 0.8 [.moveAs "asset" asset position "arc", .react "sparkle-magic" position]]⟩

def objectRain : Directive := ⟨"OBJECT_RAIN", do
  let (asset, count, area) ← three required (optional (.int 8)) (optional "wide")
  return [step 2.0 [[("action", "spawn_rain"), ("asset", asset), ("quantity", count),
    ("position", area)]]]⟩

def objectShrinkPop : Directive := ⟨"OBJECT_SHRINK_POP", do
  let (asset, effect) ← two required (optional "confetti-burst")
  return [step 0.7 [shrinkPop asset effect, .sound "react"]]⟩

def objectFloatUp : Directive := ⟨"OBJECT_FLOAT_UP", do
  let (asset, position) ← two required required
  return [step 0.2 [.spawn asset position, .sound "magic"],
    step 1.0 [.moveAs "asset" asset position "arc", .react "sparkle-magic" position]]⟩

/-- Only the first object of a pile falls without a sound. -/
def pileSteps (position : Value) : List Value → List Step
  | [] => []
  | first :: rest =>
    step 0.3 [.dropped first position] ::
      rest.map fun asset => step 0.3 [.dropped asset position, .sound "thud"]

def objectPile : Directive := ⟨"OBJECT_PILE", do
  let (assets, position) ← two required required
  let pile ← (assets.members : Except Misuse _)
  return pileSteps position pile⟩

def objectTransform : Directive := ⟨"OBJECT_TRANSFORM", do
  let (old, new, position) ← three required required required
  return [step 0.5 [shrinkPop old "sparkle-magic", .sound "magic"],
    step 0.1 [scaled new position (.float 0.1)],
    step 1.0 [grow new (.float 1.5) (.int 800), .react "sparkle-magic" position,
      .sound "react"]]⟩

def objectBounceTo : Directive := ⟨"OBJECT_BOUNCE_TO", do
  let (asset, start, target) ← three required required required
  return [step 0.2 [.spawn asset start, .sound "spawn"],
    step 0.8 [.moveAs "asset" asset target "bounce", .sound "whoosh"]]⟩

def props : List Directive :=
  [objectDrop, objectSlideIn, objectServe, objectGrowReveal, objectLaunch, objectSpinIn,
    objectRain, objectShrinkPop, objectFloatUp, objectPile, objectTransform, objectBounceTo]

end Stagecraft.Directive
