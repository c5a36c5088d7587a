import Stagecraft.Proofs.Quality.Gathering

/-!
What becomes of the verdict on a vignette when more characters enter at its end. What the scene told
before stays as it was, it has more actions and more entrances, and nobody comes to speak: a rule that
counts goes on to apply where it did.
-/

namespace Stagecraft

variable {scene : Scene} {actions : List Action} {kind : String} {vignette : Vignette} {last : Step}

/-- Characters enter, and nothing else happens. -/
structure Enters (actions : List Action) : Prop where
  filled : actions ≠ []
  spawns : ∀ action ∈ actions, action.isKind "spawn_character" = true
  named : ∀ action ∈ actions, (action.present? "character").isSome

namespace Scene

/-- The scene with one more step. -/
def followedBy (scene : Scene) (actions : List Action) : Scene :=
  ⟨scene.steps ++ [actions], scene.description⟩

theorem actions_followedBy : (scene.followedBy actions).actions = scene.actions ++ actions := by
  simp [Scene.actions, followedBy]

theorem totalActions_followedBy :
    (scene.followedBy actions).totalActions = scene.totalActions + actions.length := by
  rw [totalActions, actions_followedBy, List.length_append, totalActions]

theorem totalSteps_followedBy : (scene.followedBy actions).totalSteps = scene.totalSteps + 1 := by
  simp [totalSteps, followedBy]

theorem totalActions_le : scene.totalActions ≤ (scene.followedBy actions).totalActions := by
  rw [totalActions_followedBy]
  exact Nat.le_add_right _ _

theorem ofKind_followedBy :
    (scene.followedBy actions).ofKind kind = scene.ofKind kind ++ Action.ofKind kind actions := by
  rw [ofKind, actions_followedBy, Action.ofKind, List.filter_append, ofKind, Action.ofKind,
    Action.ofKind]

theorem countKinds_followedBy (kinds : List String) :
    (scene.followedBy actions).countKinds kinds =
      scene.countKinds kinds + actions.countP (Action.isAnyKind kinds) := by
  rw [countKinds, actions_followedBy, List.countP_append, countKinds]

theorem pairPlacesFrom_append {α : Type} {test : Option α → α → Bool} {before : Option α}
    {place : Nat} {first second : List α} : pairPlacesFrom test before place (first ++ second) =
      pairPlacesFrom test before place first ++
        pairPlacesFrom test (first.getLast?.or before) (place + first.length) second := by
  induction first generalizing before place with
  | nil => rfl
  | cons item items ih =>
    have last : (item :: items).getLast?.or before = items.getLast?.or (some item) := by
      rw [List.getLast?_cons]
      cases items.getLast? <;> rfl
    rw [List.cons_append, pairPlacesFrom, pairPlacesFrom, ih, last, List.length_cons,
      Nat.add_right_comm place 1, Nat.add_assoc place]
    split <;> rfl

theorem duplicateSteps_prefix : scene.duplicateSteps <+: (scene.followedBy actions).duplicateSteps :=
  ⟨_, pairPlacesFrom_append.symm⟩

theorem idleSteps_prefix : scene.idleSteps <+: (scene.followedBy actions).idleSteps :=
  ⟨_, pairPlacesFrom_append.symm⟩

end Scene

open Scene

/-- An action is of one kind. -/
theorem isKind_unique {action : Action} {other : String} (one : action.isKind kind = true)
    (two : action.isKind other = true) : kind = other := by
  rw [Action.isKind, Option.any_eq_true] at one two
  obtain ⟨value, found, isText⟩ := one
  obtain ⟨value', found', isText'⟩ := two
  rw [found, Option.some.injEq] at found'
  subst found'
  cases value with
  | str text => exact (eq_of_beq isText).symm.trans (eq_of_beq isText')
  | _ => cases isText

theorem duplicateSteps_followedBy : Paired (· ≥ ·) (Rule.duplicateSteps.applies (scene.followedBy actions))
    (Rule.duplicateSteps.applies scene) := by
  refine fades ?_
  simp only [Bool.not_eq_true', List.isEmpty_eq_false_iff]
  exact fun some none => some (List.prefix_nil.mp (none ▸ duplicateSteps_prefix))

theorem idlePadding_followedBy : Paired (· ≥ ·) (Rule.idlePadding.applies (scene.followedBy actions))
    (Rule.idlePadding.applies scene) := by
  refine fades ?_
  simp only [decide_eq_true_eq]
  exact fun many => Nat.lt_of_lt_of_le many idleSteps_prefix.length_le

namespace Enters

variable (enters : Enters actions)

include enters

theorem ofKind (kind : String) (other : kind ≠ "spawn_character") :
    (scene.followedBy actions).ofKind kind = scene.ofKind kind := by
  have none : Action.ofKind kind actions = [] := List.filter_eq_nil_iff.mpr
    fun action member same => other (isKind_unique same (enters.spawns action member))
  rw [ofKind_followedBy, none, List.append_nil]

theorem spawned : ∃ more, more ≠ [] ∧
    (scene.followedBy actions).spawned = scene.spawned ++ more := by
  have all : Action.ofKind "spawn_character" actions = actions :=
    List.filter_eq_self.mpr enters.spawns
  refine ⟨_, ?_, by rw [Scene.spawned, ofKind_followedBy, List.filterMap_append, all]; rfl⟩
  obtain ⟨action, member⟩ := List.exists_mem_of_ne_nil _ enters.filled
  obtain ⟨name, known⟩ := Option.isSome_iff_exists.mp (enters.named action member)
  exact List.ne_nil_of_mem (List.mem_filterMap.mpr ⟨action, member, by rw [known]; rfl⟩)

theorem characters : scene.characters ⊆ (scene.followedBy actions).characters := by
  obtain ⟨more, -, spawned⟩ := @spawned scene _ enters
  intro name member
  rw [Scene.characters, List.mem_eraseDups] at member ⊢
  rw [spawned]
  exact List.mem_append_left _ member

/-- Whoever was silent still is. -/
theorem silent : Paired (fun after before => before ⊆ after) (scene.followedBy actions).silent
    scene.silent := by
  rw [Scene.silent, Scene.silent, enters.ofKind "emote" (by decide)]
  refine .bind_same fun speaking => .value fun name member => ?_
  obtain ⟨present, quiet⟩ := List.mem_filter.mp member
  exact List.mem_filter.mpr ⟨enters.characters present, quiet⟩

theorem emoteCount : (scene.followedBy actions).emoteCount = scene.emoteCount := by
  rw [Scene.emoteCount, enters.ofKind "emote" (by decide), Scene.emoteCount]

/-- At three steps for each entrance the one step does not weigh against them. -/
theorem mostlyEntrances (sparse : scene.mostlyEntrances = true) :
    (scene.followedBy actions).mostlyEntrances = true := by
  obtain ⟨more, filled, spawned⟩ := @spawned scene _ enters
  have some := List.length_pos_iff.mpr filled
  rw [Scene.mostlyEntrances, decide_eq_true_eq] at sparse ⊢
  rw [totalSteps_followedBy, spawned, List.length_append]
  omega

theorem narrativeCount : (scene.followedBy actions).narrativeCount = scene.narrativeCount := by
  have none : actions.countP (Action.isAnyKind narrativeKinds) = 0 := by
    rw [List.countP_eq_zero]
    intro action member told
    obtain ⟨kind, narrative, same⟩ := List.any_eq_true.mp told
    obtain rfl := isKind_unique same (enters.spawns action member)
    exact absurd narrative (by decide)
  rw [Scene.narrativeCount, countKinds_followedBy, none, Nat.add_zero, Scene.narrativeCount]

theorem silentCharacters : Paired (· ≥ ·)
    (Rule.silentCharacters.applies (scene.followedBy actions))
    (Rule.silentCharacters.applies scene) := by
  refine enters.silent.bind fun after before more => fades ?_
  simp only [Bool.and_eq_true, decide_eq_true_eq, Bool.not_eq_true', List.isEmpty_eq_false_iff]
  rintro ⟨someone, acts⟩
  exact ⟨fun none => someone (List.eq_nil_of_subset_nil (none ▸ more)),
    Nat.lt_of_lt_of_le acts totalActions_le⟩

theorem silentScene : Paired (· ≥ ·) (Rule.silentScene.applies (scene.followedBy actions))
    (Rule.silentScene.applies scene) := by
  refine fades ?_
  simp only [enters.emoteCount, Bool.and_eq_true, decide_eq_true_eq, Bool.not_eq_true',
    List.isEmpty_eq_false_iff]
  rintro ⟨⟨quiet, acts⟩, someone⟩
  exact ⟨⟨quiet, Nat.lt_of_lt_of_le acts totalActions_le⟩,
    fun none => someone (List.eq_nil_of_subset_nil (none ▸ enters.characters))⟩

theorem entranceBloat : Paired (· ≥ ·) (Rule.entranceBloat.applies (scene.followedBy actions))
    (Rule.entranceBloat.applies scene) := by
  obtain ⟨more, -, spawned⟩ := @spawned scene _ enters
  refine fades ?_
  simp only [spawned, List.length_append, Bool.and_eq_true, decide_eq_true_eq]
  rintro ⟨sparse, several⟩
  exact ⟨enters.mostlyEntrances sparse, Nat.lt_of_lt_of_le several (Nat.le_add_right _ _)⟩

theorem gestureSpam : Paired (· ≥ ·) (Rule.gestureSpam.applies (scene.followedBy actions))
    (Rule.gestureSpam.applies scene) := by
  simp only [Rule.gestureSpam, Scene.gestureCount, enters.ofKind "animate" (by decide),
    enters.emoteCount]
  exact fades id

theorem repeatedEffect : Paired (· ≥ ·) (Rule.repeatedEffect.applies (scene.followedBy actions))
    (Rule.repeatedEffect.applies scene) := by
  simp only [Rule.repeatedEffect, Scene.repeatedEffects, enters.ofKind "react" (by decide)]
  exact fades id

theorem redundantCelebration : Paired (· ≥ ·)
    (Rule.redundantCelebration.applies (scene.followedBy actions))
    (Rule.redundantCelebration.applies scene) := by
  simp only [Rule.redundantCelebration, Scene.repeatCelebrators,
    enters.ofKind "animate" (by decide)]
  exact .bind_same fun _ => fades id

theorem cameraShakeSpam : Paired (· ≥ ·) (Rule.cameraShakeSpam.applies (scene.followedBy actions))
    (Rule.cameraShakeSpam.applies scene) := by
  simp only [Rule.cameraShakeSpam, enters.ofKind "camera_shake" (by decide)]
  exact fades id

theorem mechanicalRatio : Paired (· ≥ ·) (Rule.mechanicalRatio.applies (scene.followedBy actions))
    (Rule.mechanicalRatio.applies scene) := by
  have mechanical : scene.mechanicalCount ≤ (scene.followedBy actions).mechanicalCount := by
    rw [Scene.mechanicalCount, Scene.mechanicalCount, countKinds_followedBy]
    exact Nat.le_add_right _ _
  refine fades ?_
  simp only [enters.narrativeCount, Bool.and_eq_true, decide_eq_true_eq]
  rintro ⟨acts, turns⟩
  exact ⟨Nat.lt_of_lt_of_le acts totalActions_le, Nat.lt_of_lt_of_le turns mechanical⟩

theorem repeatedMoveTarget : Paired (· ≥ ·)
    (Rule.repeatedMoveTarget.applies (scene.followedBy actions))
    (Rule.repeatedMoveTarget.applies scene) := by
  simp only [Rule.repeatedMoveTarget, Scene.repeatedMoves, enters.ofKind "move" (by decide)]
  exact .bind_same fun _ => fades id

theorem noVisualPayoff : Paired (· ≥ ·) (Rule.noVisualPayoff.applies (scene.followedBy actions))
    (Rule.noVisualPayoff.applies scene) := by
  refine fades ?_
  simp only [enters.ofKind "react" (by decide), Bool.and_eq_true, decide_eq_true_eq]
  rintro ⟨acts, dull⟩
  exact ⟨Nat.lt_of_lt_of_le acts totalActions_le, dull⟩

/-- A rule that counts goes on to apply; the others do not fail. -/
theorem rules_stay : ∀ rule ∈ rules,
    Paired (fun after before => rule.counts = true → after ≥ before)
      (rule.applies (scene.followedBy actions)) (rule.applies scene) := by
  have stays {rule : Rule} (each : Paired (· ≥ ·) (rule.applies (scene.followedBy actions))
      (rule.applies scene)) : Paired (fun after before => rule.counts = true → after ≥ before)
        (rule.applies (scene.followedBy actions)) (rule.applies scene) :=
    each.imp fun _ _ more _ => more
  intro rule member
  simp only [rules, List.mem_cons, List.not_mem_nil, or_false] at member
  -- One-sided entrances and a missing narrator do not count, whatever becomes of them.
  rcases member with rfl | rfl | rfl | rfl | rfl | rfl | rfl | rfl | rfl | rfl | rfl | rfl | rfl |
    rfl
  · exact stays enters.silentCharacters
  · exact stays enters.silentScene
  · exact stays enters.entranceBloat
  · exact .value fun counts => absurd counts (by decide)
  · exact stays duplicateSteps_followedBy
  · exact stays idlePadding_followedBy
  · exact stays enters.gestureSpam
  · exact stays enters.repeatedEffect
  · exact stays enters.redundantCelebration
  · exact stays enters.cameraShakeSpam
  · exact stays enters.mechanicalRatio
  · exact stays enters.repeatedMoveTarget
  · exact stays enters.noVisualPayoff
  · exact .value fun counts => absurd counts (by decide)

end Enters

/-- With one more step in which characters enter, silent or not, a vignette is in the same bucket or
in a worse one. -/
theorem score_joined (enters : Enters last.actions) :
    Paired (fun after before => before ≤ after)
      (score rules (.ofVignette { vignette with steps := vignette.steps ++ [last] }))
      (score rules (.ofVignette vignette)) := by
  have scene : Scene.ofVignette { vignette with steps := vignette.steps ++ [last] } =
      (Scene.ofVignette vignette).followedBy last.actions := by
    rw [Scene.ofVignette, List.map_append]
    rfl
  rw [scene]
  exact score_fade_of_counts enters.rules_stay

/-- The king appears and talks between bursts of confetti. -/
def monologue : List Step :=
  step 0.5 [.spawnCharacter "king" "cs-left"] :: step 0.5 [.emote "king" "happy"] ::
    (List.replicate 2 [step 0.5 [.react "confetti-burst" "cs-center"],
      step 0.5 [.emote "king" "happy"]]).flatten

def intruder : Step := step 0.5 [.spawnCharacter "knight" "cs-right"]

theorem score_joined_intruder : Enters intruder.actions ∧
    score rules (.ofVignette (staged monologue)) = .ok .good ∧
    score rules (.ofVignette (staged (monologue ++ [intruder]))) = .ok .needsFixes ∧
    Bucket.good ≤ .needsFixes := by
  have enters : Enters intruder.actions :=
    ⟨List.cons_ne_nil _ _, List.all_eq_true.mp (by decide), List.all_eq_true.mp (by decide)⟩
  have before : score rules (.ofVignette (staged monologue)) = .ok .good := by
    refine score_of_applies [] ?_ (by decide +kernel)
    exact not_duplicated_iff.mpr (by decide +kernel)
  have after : score rules (.ofVignette (staged (monologue ++ [intruder]))) =
      .ok .needsFixes := by
    refine score_of_applies ["silent_characters"] ?_ (by decide +kernel)
    exact not_duplicated_iff.mpr (by decide +kernel)
  have worse := @score_joined (staged monologue) intruder enters
  refine ⟨enters, before, after, ?_⟩
  change Paired _ (score rules (.ofVignette (staged (monologue ++ [intruder])))) _ at worse
  rw [before, after] at worse
  cases worse with
  | value holds => exact holds

end Stagecraft
