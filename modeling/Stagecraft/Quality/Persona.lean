import Stagecraft.Text.Code

/-!
Lines that suit the known characters, and effects that can stand in for one another.
-/

namespace Stagecraft

/-- What a character says when excited, when nervous and in victory. -/
structure Persona where
  name : String
  excited : List String
  nervous : List String
  victory : List String

def personas : List Persona :=
  [ ⟨"skeleton_warrior",
      ["This is BONE-credible!", "My bones are rattling with excitement!", "SKULL-tastic!"],
      ["My knees are literally knocking!", "I can feel it in my bones..."],
      ["No-BODY does it better!", "That was un-BONE-lievably cool!"]⟩,
    ⟨"knight",
      ["For glory!", "By my sword - incredible!", "A knight never gives up!"],
      ["This armor feels heavy...", "Perhaps I should have trained more..."],
      ["Victory is ours!", "A noble triumph!"]⟩,
    ⟨"mage",
      ["My magic is TINGLING!", "Ooh - powerful energy here!", "Spell-tacular!"],
      ["My wand is sparking... that's not normal", "Too much magic!"],
      ["Magic saves the day again!", "That was enchanting!"]⟩,
    ⟨"barbarian",
      ["BARBARIAN SMASH!", "RAAAAH! Let's GO!", "Strongest move EVER!"],
      ["Even barbarians get nervous...", "That looks... scary"],
      ["VICTORY SMASH!", "Barbarian power wins AGAIN!"]⟩,
    ⟨"rogue",
      ["Nobody saw THAT coming!", "Sneaky and stylish!", "Quick fingers FTW!"],
      ["Stay in the shadows...", "Gotta be careful here..."],
      ["Swiped the win!", "Too fast for you!"]⟩,
    ⟨"clown",
      ["HONK HONK! This is hilarious!", "Time for the big show!", "Comedy GOLD!"],
      ["My rubber chicken is sweating...", "Uh oh - pie incoming!"],
      ["TA-DAAAA!", "The crowd goes wild!"]⟩,
    ⟨"skeleton_minion",
      ["Rattle rattle!", "Me too me too!"],
      [],
      ["We did it boss!", "Bones for everyone!"]⟩,
    ⟨"ninja",
      ["Swift like the wind!", "Shadow strike ready!"],
      ["Even ninjas hesitate sometimes...", "Too exposed..."],
      ["Silent but deadly!", "The way of the ninja!"]⟩,
    ⟨"robot",
      ["BEEP BOOP - engaging fun mode!", "Processing... excitement levels MAXIMUM!"],
      ["Error 404: confidence not found", "Systems overloading..."],
      ["Mission accomplished!", "Optimal outcome achieved!"]⟩,
    ⟨"engineer",
      ["The calculations are perfect!", "Science is amazing!"],
      ["The readings are off the charts...", "This wasn't in the manual..."],
      ["Engineering excellence!", "Blueprints to brilliance!"]⟩,
    ⟨"space_ranger",
      ["To infinity!", "Space ranger reporting for awesomeness!"],
      [],
      ["Mission complete, space cadet!", "Stars and stripes forever!"]⟩,
    ⟨"ranger",
      ["Nature calls!", "Into the wild!"],
      [],
      ["The forest provides!", "Ranger's honor!"]⟩,
    ⟨"druid",
      ["The earth speaks!", "Nature's power flows!"],
      [],
      ["Balance is restored!", "The grove celebrates!"]⟩]

def unknownPersonaLine : String := "Let's do this!"

def fallbackLine : String := "Let's go!"

/-- The lines for a mood. -/
def Persona.lines (persona : Persona) (mood : String) : List String :=
  if mood = "excited" then persona.excited
  else if mood = "nervous" then persona.nervous
  else if mood = "victory" then persona.victory
  else []

/-- A choice between phrasings. Which one is taken never changes a verdict. -/
structure Chooser where
  choose : String → List String → String
  choose_mem : ∀ first others, choose first others ∈ first :: others

/-- Takes the option at a place, counted around. -/
def Chooser.at (pick : Int) : Chooser where
  choose first others :=
    (first :: others).getD (pick % (first :: others).length).toNat first
  choose_mem first others := by
    have positive : (0 : Int) < (first :: others).length := by simp
    have low := Int.emod_nonneg pick (Int.ne_of_gt positive)
    have high := Int.emod_lt_of_pos pick positive
    have inside : (pick % (first :: others).length).toNat < (first :: others).length := by omega
    rw [List.getD_eq_getElem?_getD, List.getElem?_eq_getElem inside]
    exact List.getElem_mem inside

/-- A line for the mood, or else an excited one. -/
def suggestLine (character mood : String) (chooser : Chooser) : String :=
  match personas.find? (·.name == character) with
  | none => unknownPersonaLine
  | some persona =>
    match persona.lines mood, persona.excited with
    | first :: others, _ | [], first :: others => chooser.choose first others
    | [], [] => chooser.choose fallbackLine []

def effectAlternatives : List (String × List String) :=
  [("sparkle-magic", ["glow-pulse", "stars-spin", "confetti-burst"]),
    ("fire", ["fire-sneeze", "hot", "dust"]),
    ("dust", ["smoke", "steam", "sparkle-magic"]),
    ("confetti-burst", ["celebrating", "sparkle-magic", "stars-spin"]),
    ("lightning-burst", ["sparkle-magic", "glow-pulse", "fire"]),
    ("smoke", ["dust", "steam", "sparkle-magic"]),
    ("celebrating", ["confetti-burst", "hearts-float", "stars-spin"])]

def defaultAlternatives : List String := ["sparkle-magic", "dust", "confetti-burst"]

def alternativeEffects (effect : String) : List String :=
  (effectAlternatives.lookup effect).getD defaultAlternatives

/-- A short description as it is; of a long one the first sentence, cut where it is still long. -/
def narratorLine (description : String) : String :=
  if codeCount description.toList < 60 then description
  else
    let first := description.toList.takeWhile fun c => c != '.' && c != '!' && c != '?'
    if codeCount first < 80 then String.ofList first ++ "!"
    else takeCodes 77 (String.ofList first) ++ "..."

end Stagecraft
