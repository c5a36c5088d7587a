import Stagecraft.Directive.Basic

/-!
Templates for what characters say and feel.
-/

namespace Stagecraft.Directive

open Arguments

def speechSteps (who emoji text : Value) : List Step :=
  [step 2.0 [.animate who gestureAnim, .say who emoji text], step 0.3 [idle who]]

def characterSpeak : Directive := ⟨"CHARACTER_SPEAK", do
  let (who, emoji, text) ← three required required required
  return speechSteps who emoji text⟩

def characterThink : Directive := ⟨"CHARACTER_THINK", do
  let (who, emoji) ← two required required
  return [step 1.5 [.emote who emoji]]⟩

def characterExclaim : Directive := ⟨"CHARACTER_EXCLAIM", do
  let (who, emoji, text) ← three required required required
  return [step 2.0 [.animate who cheerAnim, .say who emoji text, .shake (.float 0.2) (.float 0.3)],
    step 0.3 [idle who]]⟩

def dialogue : Directive := ⟨"DIALOGUE", do
  let first ← required
  let emoji ← required
  let text ← required
  let second ← required
  let answerEmoji ← required
  let answer ← required
  done
  return [step 2.2 [.animate first gestureAnim, .say first emoji text],
    step 2.2 [idle first, .animate second gestureAnim, .say second answerEmoji answer],
    step 0.3 [idle second]]⟩

def emote : Directive := ⟨"EMOTE", do
  let (who, emoji, text) ← three required required (optional .null)
  return [step 1.5 [.say who emoji text]]⟩

def emotionalReact : Directive := ⟨"EMOTIONAL_REACT", do
  let (who, effect, position) ← three required required required
  return [step 0.8 [.react effect position, .animate who "Hit_A"]]⟩

def speeches : List Directive :=
  [characterSpeak, characterThink, characterExclaim, dialogue, emote, emotionalReact]

end Stagecraft.Directive
