import Stagecraft.Proofs.Quality.Wording

/-!
Where the characters of a scene come on. The rule on one-sided entrances applies where no character
comes on at a place named for one of the two sides, so nobody contradicts the side that its advice
names. The advice is true of all of them just when each comes on at a place named for some side.
-/

namespace Stagecraft

variable {scene : Scene} {vignette : Vignette} {side : String}

namespace Action

/-- A character is brought on stage. -/
def bringsOn (action : Action) : Bool :=
  action.isKind "spawn_character" && (action.present? "character").isSome

/-- The name of the place where that happens. -/
def place (action : Action) : String := ((action.present? "position").map (·.text)).getD ""

/-- The place is named for a side. -/
def comesFrom (side : String) (action : Action) : Bool := holds action.place side

end Action

section Entrants

/-- Each entrance counts as one character. -/
theorem length_spawned (scene : Scene) :
    scene.spawned.length = scene.actions.countP Action.bringsOn := by
  have named (action : Action) :
      ((action.present? "character").map (·.text)).isSome =
        (action.present? "character").isSome := Option.isSome_map
  calc
    scene.spawned.length = (scene.ofKind "spawn_character").countP
        fun action => ((action.present? "character").map (·.text)).isSome :=
      List.length_filterMap_eq_countP
    _ = (scene.ofKind "spawn_character").countP
        fun action => (action.present? "character").isSome := by simp only [named]
    _ = scene.actions.countP Action.bringsOn := by
      rw [Scene.ofKind, Action.ofKind, List.countP_filter]
      apply List.countP_congr
      intro action _
      rw [Action.bringsOn, Bool.and_comm]

theorem entrants_eq_nil_iff : scene.entrants side = [] ↔
    ∀ action ∈ scene.actions, action.bringsOn → ¬ action.comesFrom side := by
  have here (action : Action) : (if action.comesFrom side then
        (action.present? "character").map (·.text) else none) = none ↔
      ((action.present? "character").isSome → ¬ action.comesFrom side) := by
    cases action.present? "character" with
    | none => simp
    | some name => simp
  calc
    scene.entrants side = [] ↔ ∀ action ∈ scene.ofKind "spawn_character",
        (if action.comesFrom side then (action.present? "character").map (·.text)
          else none) = none := List.filterMap_eq_nil_iff
    _ ↔ ∀ action ∈ scene.actions, action.bringsOn → ¬ action.comesFrom side := by
      simp only [here, mem_ofKind, Action.bringsOn, Bool.and_eq_true, and_imp]

end Entrants

namespace Rule

theorem enteredSide_cases (scene : Scene) :
    enteredSide scene = "left" ∧ scene.entrants "left" ≠ [] ∨
      enteredSide scene = "right" ∧ scene.entrants "left" = [] := by
  rw [enteredSide]
  cases none : scene.entrants "left" with
  | nil => exact .inr ⟨rfl, rfl⟩
  | cons first others => exact .inl ⟨rfl, List.cons_ne_nil _ _⟩

/-- Where the rule applies, there is nobody on the side that the advice does not name. -/
theorem entrants_otherSide (applies : oneSidedEntrances.applies scene = .ok true) :
    scene.entrants (otherSide (enteredSide scene)) = [] := by
  have verdict := Except.ok.inj applies
  simp only [Bool.and_eq_true, Bool.not_eq_true', Bool.and_eq_false_iff, Bool.not_eq_false',
    List.isEmpty_iff] at verdict
  rcases enteredSide_cases scene with ⟨left, someone⟩ | ⟨right, nobody⟩
  · rw [left]
    exact verdict.1.2.resolve_left someone
  · rw [right]
    exact nobody

end Rule

/-- The advice on one-sided entrances counts three characters or more and names a side. Nobody comes
from the other one; all of them come from the side that is named just when none of them comes on at
a place that is named for no side. -/
theorem oneSided_true_iff
    (applies : Rule.oneSidedEntrances.applies (.ofVignette vignette) = .ok true)
    (chooser : Chooser) :
    ∃ side ∈ ["left", "right"], ∃ moved : String,
      side = Rule.enteredSide (.ofVignette vignette) ∧
      Rule.oneSidedEntrances.fixes chooser (.ofVignette vignette) =
        .ok [.advice ("Move entrances for [" ++ moved ++ "] to " ++ Rule.otherSide side ++
          " side - currently all " ++ toString (vignette.actions.countP Action.bringsOn) ++
          " enter from " ++ side)] ∧
      3 ≤ vignette.actions.countP Action.bringsOn ∧
      (∀ action ∈ vignette.actions, action.bringsOn →
        ¬ action.comesFrom (Rule.otherSide side)) ∧
      ((∀ action ∈ vignette.actions, action.bringsOn → action.comesFrom side) ↔
        ∀ action ∈ vignette.actions, action.bringsOn →
          action.comesFrom "left" ∨ action.comesFrom "right") := by
  let scene := Scene.ofVignette vignette
  have count : scene.spawned.length = vignette.actions.countP Action.bringsOn := by
    rw [length_spawned, actions_ofVignette]
  have apart := entrants_eq_nil_iff.mp (Rule.entrants_otherSide applies)
  rw [actions_ofVignette] at apart
  have several : 3 ≤ scene.spawned.length := by
    have verdict := Except.ok.inj applies
    simp only [Bool.and_eq_true, decide_eq_true_eq] at verdict
    exact verdict.1.1
  have advice : Rule.oneSidedEntrances.fixes chooser scene = .ok [.advice ("Move entrances for [" ++
      Rule.prettyAll (scene.characters.drop ((scene.characters.length + 1) / 2)) ++ "] to " ++
      Rule.otherSide (Rule.enteredSide scene) ++ " side - currently all " ++
      toString scene.spawned.length ++ " enter from " ++ Rule.enteredSide scene)] := rfl
  rw [count] at several advice
  cases Rule.enteredSide_cases scene with
  | inl left =>
    rw [left.1] at apart advice
    apply Exists.intro "left"
    refine ⟨by simp, _, left.1.symm, advice, several, apart, ?_⟩
    constructor
    · intro all action member brings
      exact .inl (all action member brings)
    · intro sided action member brings
      exact (sided action member brings).resolve_right (apart action member brings)
  | inr right =>
    rw [right.1] at apart advice
    apply Exists.intro "right"
    refine ⟨by simp, _, right.1.symm, advice, several, apart, ?_⟩
    constructor
    · intro all action member brings
      exact .inr (all action member brings)
    · intro sided action member brings
      exact (sided action member brings).resolve_left (apart action member brings)

/-- Three characters appear at a place, and then the king waits for a while. -/
def gatheringAt (position : String) : Vignette := staged
  (["king", "queen", "mage"].map (fun name =>
      step 0.3 [.spawnCharacter (.str name) (.str position)]) ++
    List.replicate 15 (step 0.3 [.emote "king" "happy"]))

/-- All come from the left, and the advice says so. -/
theorem oneSided_true_iff_left :
    Rule.oneSidedEntrances.applies (.ofVignette (gatheringAt "off-left")) = .ok true ∧
      (∀ action ∈ (gatheringAt "off-left").actions, action.bringsOn →
        action.comesFrom "left") ∧
      ∃ moved : String, Rule.oneSidedEntrances.fixes (.at 0)
          (.ofVignette (gatheringAt "off-left")) =
        .ok [.advice ("Move entrances for [" ++ moved ++
          "] to right side - currently all 3 enter from left")] := by
  have applies : Rule.oneSidedEntrances.applies (.ofVignette (gatheringAt "off-left")) =
      .ok true := by
    decide +kernel
  obtain ⟨side, -, moved, named, advice, -, -, sided⟩ := oneSided_true_iff applies (.at 0)
  have left : Rule.enteredSide (.ofVignette (gatheringAt "off-left")) = "left" := by
    decide +kernel
  have count : (gatheringAt "off-left").actions.countP Action.bringsOn = 3 := by decide +kernel
  have all : ((gatheringAt "off-left").actions.filter Action.bringsOn).all
      (Action.comesFrom "left") = true := by
    decide +kernel
  rw [named, left] at advice sided
  refine ⟨applies, sided.mpr ?_, moved, ?_⟩
  · intro action member brings
    exact .inl (List.all_eq_true.mp all action (List.mem_filter.mpr ⟨member, brings⟩))
  · rw [advice, count]
    simp only [String.append_assoc]
    rfl

/-- All appear in the middle, and the advice says that they come from the right. -/
theorem oneSided_untrue :
    Rule.oneSidedEntrances.applies (.ofVignette (gatheringAt "cs-center")) = .ok true ∧
      (gatheringAt "cs-center").actions.countP Action.bringsOn = 3 ∧
      Rule.oneSidedEntrances.fixes (.at 0) (.ofVignette (gatheringAt "cs-center")) =
        .ok [.advice ("Move entrances for [mage] to left side - " ++
          "currently all 3 enter from right")] ∧
      ∀ action ∈ (gatheringAt "cs-center").actions, ¬ action.comesFrom "right" := by
  refine ⟨by decide +kernel, by decide +kernel, by decide +kernel, ?_⟩
  have nobody : ((gatheringAt "cs-center").actions.any (Action.comesFrom "right")) = false := by
    decide +kernel
  exact List.any_eq_false.mp nobody

end Stagecraft
