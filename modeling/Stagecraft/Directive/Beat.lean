import Stagecraft.Directive.Basic

/-!
Templates for beats of the whole scene: captions, impacts, pauses, the crowd, the ending.
-/

namespace Stagecraft.Directive

open Arguments

def narrator : Directive := ⟨"NARRATOR", do
  let (text, size) ← two required (optional "large")
  return [step 1.5 [.popup text size]]⟩

def announce : Directive := ⟨"ANNOUNCE", do
  let (text, size) ← two required (optional "huge")
  return [step 1.5 [.popup text size, .sound "react"]]⟩

def impact : Directive := ⟨"IMPACT", do
  let (color, intensity) ← two (optional "white") (optional (.float 0.5))
  return [step 0.6 [.flash color (.float 0.2), .shake intensity (.float 0.5), .sound "impact"]]⟩

def flash : Directive := ⟨"FLASH", do
  let (color, duration) ← two (optional "white") (optional (.float 0.2))
  return [step 0.3 [.flash color duration, .sound "impact"]]⟩

def celebration : Directive := ⟨"CELEBRATION", do
  let (characters, position) ← two required (optional "cs-center")
  let who ← (characters.members : Except Misuse _)
  return [step 0.5 (who.map (.animate · cheerAnim) ++
      [.react "confetti-burst" position, .sound "success"]),
    step 1.0 [.react "celebrating" position]]⟩

def disappointment : Directive := ⟨"DISAPPOINTMENT", do
  let (characters, position) ← two required (optional "cs-center")
  let who ← (characters.members : Except Misuse _)
  return [step 0.5 (who.map (.animate · "Hit_A") ++ [.react "sad-cloud" position, .sound "fail"]),
    step 1.0 [.react "question-marks" position]]⟩

/-- A thousand times a number; a text or a list is repeated as often. -/
def thousandfold : Value → Except Misuse Value
  | .bool truth => .ok (.int (if truth then 1000 else 0))
  | .int n => .ok (.int (n * 1000))
  | .float x => .ok (.float (x * 1000.0))
  | .str text => .ok (.str (String.ofList (List.replicate 1000 text.toList).flatten))
  | .list items => .ok (.list (List.replicate 1000 items).flatten)
  | _ => .error .wrongKind

def dramaticPause : Directive := ⟨"DRAMATIC_PAUSE", do
  let duration ← one (optional (.float 1.5))
  let long ← (thousandfold duration : Except Misuse _)
  return [⟨[[("action", "delay"), ("duration", long)]], duration, none⟩]⟩

/-- The members of a present value, or else everyone. -/
def crowdOf (characters : Value) : Except Misuse Value :=
  if characters.isPresent then (characters.members).map .list else .ok "all"

def crowdCheer : Directive := ⟨"CROWD_CHEER", do
  let characters ← one (optional .null)
  let who ← (crowdOf characters : Except Misuse _)
  return [step 1.0 [.crowd who cheerAnim, .sound "success"]]⟩

def crowdGasp : Directive := ⟨"CROWD_GASP", do
  let characters ← one (optional .null)
  let who ← (crowdOf characters : Except Misuse _)
  return [step 0.8 [.crowd who "Hit_A", .sound "react"]]⟩

def spellCast : Directive := ⟨"SPELL_CAST", do
  let (who, target) ← two required (optional "cs-center")
  return [step 0.5 [.animate who "Casting_Long", .sound "magic"],
    step 0.8 [.react "sparkle-magic" target, .react "magic_circle" target,
      .flash "purple" (.float 0.15)],
    step 0.3 [idle who]]⟩

def workAction : Directive := ⟨"WORK_ACTION", do
  let (who, anim, sound) ← three required required (optional "impact")
  return [step 1.0 [.animate who anim, .sound sound],
    step 1.0 [.animate who anim, .sound sound],
    step 0.3 [idle who]]⟩

def hitReact : Directive := ⟨"HIT_REACT", do
  let (who, position) ← two required (optional .null)
  return [step 0.8 [.animate who "Hit_A",
      .react "explosion-cartoon" (position.present?.getD "cs-center"),
      .shake (.float 0.3) (.float 0.3), .sound "impact"],
    step 1.0 [.emote who "hurt"]]⟩

def dance : Directive := ⟨"DANCE", do
  let who ← one required
  return [step 1.0 [.animate who cheerAnim, .sound "success"],
    step 1.0 [.animate who gestureAnim],
    step 1.0 [.animate who cheerAnim],
    step 0.3 [idle who]]⟩

def vignetteOutro : Directive := ⟨"VIGNETTE_OUTRO", do
  done
  return [step 0.5 [.react "confetti-burst" "cs-center", .crowd "all" cheerAnim,
      .sound "success"],
    step 1.5 [.react "celebrating" "cs-center"]]⟩

def beats : List Directive :=
  [narrator, announce, impact, flash, celebration, disappointment, dramaticPause, crowdCheer,
    crowdGasp, spellCast, workAction, hitReact, dance, vignetteOutro]

end Stagecraft.Directive
