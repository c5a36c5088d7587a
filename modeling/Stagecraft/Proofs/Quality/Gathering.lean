import Stagecraft.Proofs.Quality.Fading
import Stagecraft.Proofs.Quality.Walkers
import Stagecraft.Proofs.Vignette.Playable

/-!
What becomes of the verdict on a vignette when characters that walk on one by one come on together.
-/

namespace Stagecraft

/-- A part of the steps of a vignette: a step that is kept, or characters from one side that walk on
one after the other. -/
inductive Passage where
  | kept (step : Step)
  | run (side : Side) (walkers : List Walker) (several : 2 ≤ walkers.length)

namespace Passage

def alone : Passage → List Step
  | kept step => [step]
  | run side walkers _ => walkers.flatMap side.walkOn

def together : Passage → List Step
  | kept step => [step]
  | run side walkers _ => side.walkTogether walkers

/-- A step that is kept is told from the first step, or from the last one, of a group next to it. -/
def Apart : Passage → Passage → Prop
  | kept step, run side walkers _ => Differs step.actions (side.appearing walkers)
  | run _ walkers _, kept step => Differs (standing walkers) step.actions
  | _, _ => True

end Passage

section Actions

variable {side : Side} {walkers : List Walker} {passages : List Passage} {test : Action → Bool}

theorem actionsOf_walkTogether : actionsOf (side.walkTogether walkers) =
    side.appearing walkers ++ (walking walkers ++ standing walkers) := by
  change side.appearing walkers ++ (walking walkers ++ (standing walkers ++ [])) = _
  rw [List.append_nil]

theorem countP_run (test : Action → Bool) :
    (actionsOf (walkers.flatMap side.walkOn)).countP test =
      walkers.countP (fun walker => test (.spawnCharacter walker.1 side.off)) +
      walkers.countP (fun walker => test (.animate walker.1 "Walking_A")) +
      walkers.length * [Action.sound "footstep"].countP test +
      walkers.countP (fun walker => test (.move walker.1 walker.2)) +
      walkers.countP (fun walker => test (idle walker.1)) := by
  induction walkers with
  | nil => simp [actionsOf]
  | cons walker walkers ih =>
    have here : actionsOf (side.walkOn walker) = [.spawnCharacter walker.1 side.off,
      .animate walker.1 "Walking_A", .sound "footstep", .move walker.1 walker.2,
      idle walker.1] := rfl
    rw [List.flatMap_cons, actionsOf_append, List.countP_append, ih, here]
    simp only [List.countP_cons, List.countP_nil, List.length_cons, Nat.succ_mul]
    omega

theorem countP_group (test : Action → Bool) :
    (actionsOf (side.walkTogether walkers)).countP test =
      walkers.countP (fun walker => test (.spawnCharacter walker.1 side.off)) +
      walkers.countP (fun walker => test (.animate walker.1 "Walking_A")) +
      [Action.sound "footstep"].countP test +
      walkers.countP (fun walker => test (.move walker.1 walker.2)) +
      walkers.countP (fun walker => test (idle walker.1)) := by
  simp only [actionsOf_walkTogether, Side.appearing, walking, standing, List.countP_append,
    List.countP_map, Function.comp_def, Nat.add_assoc]

/-- A group has the actions of its run but for the sounds. -/
theorem countP_group_le (filled : walkers ≠ []) (test : Action → Bool) :
    (actionsOf (side.walkTogether walkers)).countP test ≤
      (actionsOf (walkers.flatMap side.walkOn)).countP test := by
  have sounds : [Action.sound "footstep"].countP test ≤
      walkers.length * [Action.sound "footstep"].countP test :=
    Nat.le_mul_of_pos_left _ (List.length_pos_of_ne_nil filled)
  rw [countP_run, countP_group]
  omega

theorem countP_together_le (test : Action → Bool) (passages : List Passage) :
    (actionsOf (passages.flatMap Passage.together)).countP test ≤
      (actionsOf (passages.flatMap Passage.alone)).countP test := by
  induction passages with
  | nil => exact Nat.le_refl _
  | cons passage passages ih =>
    rw [List.flatMap_cons, List.flatMap_cons, actionsOf_append, actionsOf_append,
      List.countP_append, List.countP_append]
    refine Nat.add_le_add ?_ ih
    cases passage with
    | kept step => exact Nat.le_refl _
    | run side walkers several =>
      exact countP_group_le (List.ne_nil_of_length_pos (by omega)) test

theorem filter_together_eq
    (each : ∀ (side : Side) (walkers : List Walker), walkers ≠ [] →
      (actionsOf (side.walkTogether walkers)).filter test =
        (actionsOf (walkers.flatMap side.walkOn)).filter test) (passages : List Passage) :
    (actionsOf (passages.flatMap Passage.together)).filter test =
      (actionsOf (passages.flatMap Passage.alone)).filter test := by
  induction passages with
  | nil => rfl
  | cons passage passages ih =>
    rw [List.flatMap_cons, List.flatMap_cons, actionsOf_append, actionsOf_append,
      List.filter_append, List.filter_append, ih]
    cases passage with
    | kept step => rfl
    | run side walkers several =>
      have filled : walkers ≠ [] := List.ne_nil_of_length_pos (by omega)
      rw [Passage.alone, Passage.together, each side walkers filled]

/-- What no entrance has is where it was. -/
theorem filter_together_foreign
    (foreign : ∀ (side : Side) (walker : Walker),
      (actionsOf (side.walkOn walker)).any test = false) (passages : List Passage) :
    (actionsOf (passages.flatMap Passage.together)).filter test =
      (actionsOf (passages.flatMap Passage.alone)).filter test := by
  refine filter_together_eq (fun side walkers filled => ?_) passages
  have run : (actionsOf (walkers.flatMap side.walkOn)).countP test = 0 := by
    rw [List.countP_eq_zero]
    intro action member
    obtain ⟨step, there, acted⟩ := List.mem_flatMap.mp member
    obtain ⟨walker, -, walks⟩ := List.mem_flatMap.mp there
    exact List.any_eq_false.mp (foreign side walker) action
      (List.mem_flatMap.mpr ⟨step, walks, acted⟩)
  have group : (actionsOf (side.walkTogether walkers)).countP test = 0 :=
    Nat.le_zero.mp ((countP_group_le filled test).trans_eq run)
  rw [List.filter_eq_nil_iff.mpr (List.countP_eq_zero.mp run),
    List.filter_eq_nil_iff.mpr (List.countP_eq_zero.mp group)]

theorem ofKind_run {kind : String} {make : Walker → Action}
    (each : ∀ walker, Action.ofKind kind (actionsOf (side.walkOn walker)) = [make walker]) :
    Action.ofKind kind (actionsOf (walkers.flatMap side.walkOn)) = walkers.map make := by
  induction walkers with
  | nil => rfl
  | cons walker walkers ih =>
    rw [List.flatMap_cons, actionsOf_append, ofKind_append, ih, each]
    rfl

/-- A group brings on the characters of its run, in its order. -/
theorem spawns_walkTogether (side : Side) (walkers : List Walker) :
    Action.ofKind "spawn_character" (actionsOf (side.walkTogether walkers)) =
      Action.ofKind "spawn_character" (actionsOf (walkers.flatMap side.walkOn)) := by
  rw [ofKind_run (fun _ => rfl), actionsOf_walkTogether, Side.appearing, walking, standing]
  simp only [ofKind_append]
  rw [ofKind_map fun _ => rfl, ofKind_map_other fun _ => rfl, ofKind_map_other fun _ => rfl,
    ofKind_map_other fun _ => rfl]
  simp [Action.ofKind, Action.isKind, Action.sound, Fields.get?, Value.isText]

/-- It moves them to the same places. -/
theorem moves_walkTogether (side : Side) (walkers : List Walker) :
    Action.ofKind "move" (actionsOf (side.walkTogether walkers)) =
      Action.ofKind "move" (actionsOf (walkers.flatMap side.walkOn)) := by
  rw [ofKind_run (fun _ => rfl), actionsOf_walkTogether, Side.appearing, walking, standing]
  simp only [ofKind_append]
  rw [ofKind_map_other fun _ => rfl, ofKind_map_other fun _ => rfl, ofKind_map fun _ => rfl,
    ofKind_map_other fun _ => rfl]
  simp [Action.ofKind, Action.isKind, Action.sound, Fields.get?, Value.isText]

/-- Who appears does so in the same order and from the same sides. -/
theorem spawns_together_eq (passages : List Passage) :
    Action.ofKind "spawn_character" (actionsOf (passages.flatMap Passage.together)) =
      Action.ofKind "spawn_character" (actionsOf (passages.flatMap Passage.alone)) :=
  filter_together_eq (fun side walkers _ => spawns_walkTogether side walkers) passages

/-- Who moves goes to the same places in the same order. -/
theorem moves_together_eq (passages : List Passage) :
    Action.ofKind "move" (actionsOf (passages.flatMap Passage.together)) =
      Action.ofKind "move" (actionsOf (passages.flatMap Passage.alone)) :=
  filter_together_eq (fun side walkers _ => moves_walkTogether side walkers) passages

end Actions

section Places

variable {side : Side} {walkers : List Walker} {passages : List Passage}

/-- How many items satisfy a test together with the one before them. -/
def pairCount {α : Type} (test : Option α → α → Bool) (before : Option α) : List α → Nat
  | [] => 0
  | item :: rest => (if test before item then 1 else 0) + pairCount test (some item) rest

theorem length_pairPlacesFrom {α : Type} {test : Option α → α → Bool} {before : Option α}
    {place : Nat} {items : List α} :
    (pairPlacesFrom test before place items).length = pairCount test before items := by
  induction items generalizing before place with
  | nil => rfl
  | cons item items ih =>
    rw [pairPlacesFrom, pairCount, ← @ih _ (place + 1)]
    cases test before item <;> simp [Nat.add_comm]

theorem pairCount_append {α : Type} {test : Option α → α → Bool} {before : Option α}
    {first second : List α} : pairCount test before (first ++ second) =
      pairCount test before first + pairCount test (first.getLast?.or before) second := by
  induction first generalizing before with
  | nil => simp [pairCount]
  | cons item items ih =>
    rw [List.cons_append, pairCount, pairCount, ih, List.getLast?_cons]
    cases items.getLast? <;> simp [Nat.add_assoc]

/-- A step before which there was a move or an emote. -/
def settles (before : Option (List Action)) : Bool :=
  before.any (·.any (Action.isAnyKind ["move", "emote"]))

/-- Standing still, with nothing to settle from. -/
def idles (before : Option (List Action)) (step : List Action) : Bool :=
  Scene.isIdle step && !settles before

theorem isIdle_of_length {actions : List Action} (several : 1 < actions.length) :
    Scene.isIdle actions = false := by
  match actions, several with
  | _ :: _ :: _, _ => rfl

theorem isIdle_walking : Scene.isIdle (walking walkers) = false := by
  match walkers with
  | [] => rfl
  | [_] => rfl
  | _ :: _ :: _ => rfl

theorem settles_walking (filled : walkers ≠ []) : settles (some (walking walkers)) = true := by
  obtain ⟨walker, walkers, rfl⟩ := List.exists_cons_of_ne_nil filled
  rfl

theorem settles_standing (walkers : List Walker) : settles (some (standing walkers)) = false := by
  rw [settles, Option.any_some, standing, List.any_map, List.any_eq_false]
  intro walker _
  exact Bool.false_ne_true

/-- Nobody in a group stands still but after the move. -/
theorem idles_beats (filled : walkers ≠ []) (before : Option (List Action)) :
    pairCount idles before (side.beats walkers) = 0 := by
  have appears : Scene.isIdle (side.appearing walkers) = false := by
    apply isIdle_of_length
    rw [Side.appearing, List.length_append, List.length_append, List.length_map, List.length_map]
    have some := List.length_pos_of_ne_nil filled
    simp only [List.length_singleton]
    omega
  simp only [Side.beats, pairCount, idles, appears, isIdle_walking, settles_walking filled,
    Bool.false_and, Bool.not_true, Bool.and_false, Bool.false_eq_true, if_false]

/-- The actions of the steps of passages, one by one. -/
def stepActions (part : Passage → List Step) (passages : List Passage) : List (List Action) :=
  (passages.flatMap part).map (·.actions)

theorem stepActions_cons (part : Passage → List Step) (passage : Passage)
    (passages : List Passage) : stepActions part (passage :: passages) =
      (part passage).map (·.actions) ++ stepActions part passages := by
  rw [stepActions, List.flatMap_cons, List.map_append]
  rfl

theorem run_actions (side : Side) (walkers : List Walker) :
    (walkers.flatMap side.walkOn).map (·.actions) =
      walkers.flatMap fun walker => side.beats [walker] := by
  simp only [List.map_flatMap, walkOn_actions]

theorem idles_run (before : Option (List Action)) :
    pairCount idles before (walkers.flatMap fun walker => side.beats [walker]) = 0 := by
  induction walkers generalizing before with
  | nil => rfl
  | cons walker walkers ih =>
    rw [List.flatMap_cons, pairCount_append, ih, idles_beats (List.cons_ne_nil _ _)]

theorem getLast?_run (filled : walkers ≠ []) :
    ∃ walker : Walker, (walkers.flatMap fun walker => side.beats [walker]).getLast? =
      some (standing [walker]) := by
  obtain ⟨front, walker, rfl⟩ := List.eq_nil_or_concat walkers |>.resolve_left filled
  refine ⟨walker, ?_⟩
  rw [List.concat_eq_append, List.flatMap_append, List.getLast?_append]
  rfl

/-- As many steps only show characters that stand still. -/
theorem idles_together_eq {before other : Option (List Action)}
    (same : settles before = settles other) (passages : List Passage) :
    pairCount idles before (stepActions Passage.together passages) =
      pairCount idles other (stepActions Passage.alone passages) := by
  induction passages generalizing before other with
  | nil => rfl
  | cons passage passages ih =>
    rw [stepActions_cons, stepActions_cons]
    cases passage with
    | kept step =>
      rw [Passage.alone, Passage.together, List.map_singleton, List.singleton_append,
        List.singleton_append, pairCount, pairCount, ih rfl, idles, idles, same]
    | run side walkers several =>
      have filled : walkers ≠ [] := List.ne_nil_of_length_pos (by omega)
      obtain ⟨last, ends⟩ := getLast?_run filled
      have stands : (side.beats walkers).getLast? = some (standing walkers) := rfl
      rw [Passage.alone, Passage.together, walkTogether_actions, run_actions, pairCount_append,
        pairCount_append, idles_beats filled, idles_run, ends, stands, Nat.zero_add, Nat.zero_add]
      apply ih
      rw [Option.some_or, Option.some_or, settles_standing, settles_standing]

theorem passage_ne_nil (passage : Passage) : passage.alone.map (·.actions) ≠ [] ∧
    passage.together.map (·.actions) ≠ [] := by
  cases passage with
  | kept step => exact ⟨List.cons_ne_nil _ _, List.cons_ne_nil _ _⟩
  | run side walkers several =>
    obtain ⟨walker, rest, rfl⟩ := List.exists_cons_of_length_pos (by omega : 0 < walkers.length)
    exact ⟨List.cons_ne_nil _ _, List.cons_ne_nil _ _⟩

/-- Steps are told from those before them when they are so within each passage and where two
passages meet. -/
theorem isChain_stepActions {part : Passage → List Step}
    (filled : ∀ passage, (part passage).map (·.actions) ≠ []) :
    (stepActions part passages).IsChain Differs ↔
      (∀ passage ∈ passages, ((part passage).map (·.actions)).IsChain Differs) ∧
        passages.IsChain fun above below =>
          ∀ last ∈ ((part above).map (·.actions)).getLast?,
            ∀ first ∈ ((part below).map (·.actions)).head?, Differs last first := by
  have parts : [] ∉ passages.map fun passage => (part passage).map (·.actions) := by
    intro member
    obtain ⟨passage, -, empty⟩ := List.mem_map.mp member
    exact filled passage empty
  rw [stepActions, List.map_flatMap, List.flatMap_def, List.isChain_flatten parts,
    List.forall_mem_map, List.isChain_map]

/-- Steps that are told from those before them are so when walkers come on together, but where a
step that is kept meets a group. -/
theorem isChain_together (differ : (stepActions Passage.alone passages).IsChain Differs)
    (apart : passages.IsChain Passage.Apart) :
    (stepActions Passage.together passages).IsChain Differs := by
  rw [isChain_stepActions fun passage => (passage_ne_nil passage).1] at differ
  rw [isChain_stepActions fun passage => (passage_ne_nil passage).2]
  constructor
  · intro passage member
    cases passage with
    | kept step => exact List.isChain_singleton _
    | run side walkers several =>
      exact isChain_beats (List.ne_nil_of_length_pos (by omega))
  · rw [List.isChain_iff_getElem] at apart ⊢
    intro place inside
    have facing := List.isChain_iff_getElem.mp differ.2 place inside
    have free := apart place inside
    generalize passages[place] = above at facing free ⊢
    generalize passages[place + 1] = below at facing free ⊢
    cases above with
    | kept step =>
      cases below with
      | kept step => exact facing
      | run side walkers several =>
        rintro _ ⟨⟩ _ ⟨⟩
        exact free
    | run side walkers several =>
      have filled : walkers ≠ [] := List.ne_nil_of_length_pos (by omega)
      cases below with
      | kept step =>
        rintro _ ⟨⟩ _ ⟨⟩
        exact free
      | run side walkers several =>
        rintro _ ⟨⟩ _ ⟨⟩
        exact standing_differs filled

theorem length_together_le (passages : List Passage) :
    (passages.flatMap Passage.together).length ≤ (passages.flatMap Passage.alone).length := by
  induction passages with
  | nil => exact Nat.le_refl _
  | cons passage passages ih =>
    rw [List.flatMap_cons, List.flatMap_cons, List.length_append, List.length_append]
    refine Nat.add_le_add ?_ ih
    cases passage with
    | kept step => exact Nat.le_refl _
    | run side walkers several =>
      obtain ⟨walker, rest, rfl⟩ := List.exists_cons_of_length_pos (by omega : 0 < walkers.length)
      rw [Passage.alone, List.flatMap_cons, List.length_append]
      exact Nat.le_add_right 3 _

/-- Walkers who come on together were told from the steps that they meet. -/
theorem apart_of_isChain (differ : (stepActions Passage.together passages).IsChain Differs) :
    passages.IsChain Passage.Apart := by
  rw [isChain_stepActions fun passage => (passage_ne_nil passage).2] at differ
  refine differ.2.imp ?_
  intro above below facing
  cases above with
  | kept step =>
    cases below with
    | kept step => exact trivial
    | run side walkers several => exact facing _ rfl _ rfl
  | run side walkers several =>
    cases below with
    | kept step => exact facing _ rfl _ rfl
    | run side walkers several => exact trivial

end Places

section Scenes

variable {passages : List Passage} {old new : Vignette}

theorem lightened (alone : old.steps = passages.flatMap Passage.alone)
    (together : new.steps = passages.flatMap Passage.together) :
    Lightened (.ofVignette old) (.ofVignette new) := by
  have acts (vignette : Vignette) :
      (Scene.ofVignette vignette).actions = actionsOf vignette.steps := actions_ofVignette
  constructor
  · intro kind listed
    rw [Scene.ofKind, Scene.ofKind, acts, acts, alone, together]
    simp only [List.mem_cons, List.not_mem_nil, or_false] at listed
    rcases listed with rfl | rfl | rfl | rfl | rfl | rfl
    · exact spawns_together_eq passages
    · exact moves_together_eq passages
    all_goals exact filter_together_foreign (fun _ _ => rfl) passages
  · intro test walks idles
    rw [Scene.ofKind, Scene.ofKind, acts, acts, alone, together, Action.ofKind, Action.ofKind,
      List.filter_filter, List.filter_filter]
    refine filter_together_foreign (fun side walker => ?_) passages
    change (test _ && false || (test (.animate walker.1 "Walking_A") && true ||
      (test _ && false || (test _ && false || (test (idle walker.1) && true || false))))) = false
    rw [walks, idles]
    simp
  · rw [Scene.idleSteps, Scene.idleSteps, Scene.ofVignette, Scene.ofVignette, alone, together]
    exact length_pairPlacesFrom.trans ((idles_together_eq rfl passages).trans
      length_pairPlacesFrom.symm)
  · rw [Scene.narrativeCount, Scene.narrativeCount, Scene.countKinds, Scene.countKinds,
      acts, acts, alone, together, List.countP_eq_length_filter,
      List.countP_eq_length_filter, filter_together_foreign (fun _ _ => rfl)]
  · rw [Scene.totalActions, Scene.totalActions, acts, acts, alone,
      together, ← List.countP_true]
    exact countP_together_le _ passages
  · rw [Scene.mechanicalCount, Scene.mechanicalCount, Scene.countKinds, Scene.countKinds,
      acts, acts, alone, together]
    exact countP_together_le _ passages
  · rw [Scene.totalSteps, Scene.totalSteps, Scene.ofVignette, Scene.ofVignette, alone, together,
      List.length_map, List.length_map]
    exact length_together_le passages

theorem not_duplicated_iff {scene : Scene} :
    Rule.duplicateSteps.applies scene = .ok false ↔ scene.steps.IsChain Differs := by
  rw [← duplicateSteps_eq_nil_iff]
  simp [Rule.duplicateSteps]

theorem duplicated_iff {scene : Scene} :
    Rule.duplicateSteps.applies scene = .ok true ↔ ¬ scene.steps.IsChain Differs := by
  rw [← duplicateSteps_eq_nil_iff]
  simp [Rule.duplicateSteps]

/-- Gathering walkers makes no rule apply but two. A step comes to be a duplicate just where a step
that is kept equals the step of a group next to it. Unless that happens, or the entrances come to
take too many of the steps, the bucket does not get worse. -/
theorem score_gathered (alone : old.steps = passages.flatMap Passage.alone)
    (together : new.steps = passages.flatMap Passage.together) :
    (∀ rule ∈ rules, rule.name ≠ "entrance_bloat" → rule.name ≠ "duplicate_steps" →
        Paired (· ≥ ·) (rule.applies (.ofVignette old)) (rule.applies (.ofVignette new))) ∧
      (passages.IsChain Passage.Apart → Rule.duplicateSteps.applies (.ofVignette new) = .ok true →
        Rule.duplicateSteps.applies (.ofVignette old) = .ok true) ∧
      (¬ passages.IsChain Passage.Apart →
        Rule.duplicateSteps.applies (.ofVignette new) = .ok true) ∧
      ((Rule.duplicateSteps.applies (.ofVignette new) = .ok true →
          Rule.duplicateSteps.applies (.ofVignette old) = .ok true) →
        (Rule.entranceBloat.applies (.ofVignette new) = .ok true →
          Rule.entranceBloat.applies (.ofVignette old) = .ok true) →
        Paired (fun before after => after ≤ before) (score rules (.ofVignette old))
          (score rules (.ofVignette new))) := by
  have lighter := lightened alone together
  have one : (Scene.ofVignette old).steps = stepActions Passage.alone passages := by
    rw [Scene.ofVignette, alone, stepActions]
  have all : (Scene.ofVignette new).steps = stepActions Passage.together passages := by
    rw [Scene.ofVignette, together, stepActions]
  refine ⟨?_, ?_, ?_, ?_⟩
  · intro rule member bloat duplicate
    exact lighter.rules_fade rule member (absurd · bloat) (absurd · duplicate)
  · intro apart
    rw [duplicated_iff, duplicated_iff, one, all]
    exact mt fun differ => isChain_together differ apart
  · rw [duplicated_iff, all]
    exact mt apart_of_isChain
  · intro duplicates bloats
    refine score_fade fun rule member => lighter.rules_fade rule member (fun _ => ?_) fun _ => ?_
    · exact fades fun applies => Except.ok.inj (bloats (congrArg Except.ok applies))
    · exact fades fun applies => Except.ok.inj (duplicates (congrArg Except.ok applies))

end Scenes

section Stage

variable {scene : Scene} {last : Step}

/-- The score where it is known which rules apply. The keys of steps with several actions do not
compute, so duplicates are looked at apart. -/
theorem score_of_applies (names : List String)
    (duplicates : Rule.duplicateSteps.applies scene = .ok (names.contains "duplicate_steps"))
    (others : ∀ rule ∈ rules, rule.name ≠ "duplicate_steps" →
      rule.applies scene = .ok (names.contains rule.name)) :
    score rules scene = .ok (bucketOfHits (rules.filter fun rule => names.contains rule.name)) := by
  have each : ∀ rule ∈ rules, rule.applies scene = .ok (names.contains rule.name) := by
    intro rule member
    by_cases duplicate : rule.name = "duplicate_steps"
    · simp only [rules, List.mem_cons, List.not_mem_nil, or_false] at member
      rcases member with rfl | rfl | rfl | rfl | rfl | rfl | rfl | rfl | rfl | rfl | rfl | rfl |
        rfl | rfl
      all_goals first
        | exact duplicates
        | exact absurd duplicate (by decide)
    · exact others rule member duplicate
  rw [score, hits_eq_filter each]
  rfl

def greeting : Step := step 0.5 [.emote "king" "happy", .emote "queen" "happy"]

def couple : List Walker := [("king", "cs-left"), ("queen", "cs-center")]

/-- Two walk on after a greeting, and then something happens. -/
def arrival (last : Step) : List Passage :=
  [.kept greeting, .run .left couple (by decide), .kept last]

theorem head?_greeting : (Scene.stepKey greeting.actions).toList.head? = some 'e' := by
  apply head?_stepKey "emote" (by decide) (List.cons_ne_nil _ _)
  decide

theorem greeting_differs (walkers : List Walker) :
    Differs greeting.actions (Side.left.appearing walkers) := by
  refine .inr fun same => ?_
  rcases head?_appearing .left walkers with here | here <;>
  · rw [same, head?_greeting] at here
    exact absurd here (by decide)

theorem standing_differs_emotes {walkers : List Walker} {emotes : List Action}
    (filled : walkers ≠ []) (begins : (Scene.stepKey emotes).toList.head? = some 'e') :
    Differs (standing walkers) emotes := by
  refine .inr fun same => ?_
  have here := head?_standing filled
  rw [← same, begins] at here
  exact absurd here (by decide)

theorem isChain_arrival (differs : Differs (standing [("queen", "cs-center")]) last.actions) :
    (stepActions Passage.alone (arrival last)).IsChain Differs := by
  rw [isChain_stepActions fun passage => (passage_ne_nil passage).1]
  constructor
  · intro passage member
    cases passage with
    | kept step => exact List.isChain_singleton _
    | run side walkers several =>
      rw [Passage.alone, run_actions]
      exact isChain_run
  · rw [arrival, List.isChain_cons_cons, List.isChain_pair]
    constructor
    · rintro _ ⟨⟩ _ ⟨⟩
      exact greeting_differs [("king", "cs-left")]
    · rintro _ ⟨⟩ _ ⟨⟩
      exact differs

/-- Where they only greet again, all is as good as it was. -/
theorem score_gathered_greeted :
    score rules (.ofVignette (staged ((arrival greeting).flatMap Passage.alone))) = .ok .good ∧
      ∃ bucket, bucket ≤ .good ∧
        score rules (.ofVignette (staged ((arrival greeting).flatMap Passage.together))) =
          .ok bucket := by
  have gathered := @score_gathered (arrival greeting)
    (staged ((arrival greeting).flatMap Passage.alone))
    (staged ((arrival greeting).flatMap Passage.together)) rfl rfl
  have apart : (arrival greeting).IsChain Passage.Apart := by
    rw [arrival, List.isChain_cons_cons, List.isChain_pair]
    exact ⟨greeting_differs couple, standing_differs_emotes (List.cons_ne_nil _ _) head?_greeting⟩
  have alone : score rules (.ofVignette (staged ((arrival greeting).flatMap Passage.alone))) =
      .ok .good := by
    refine score_of_applies ["no_narrator"] ?_ (by decide +kernel)
    exact not_duplicated_iff.mpr
      (isChain_arrival (standing_differs_emotes (List.cons_ne_nil _ _) head?_greeting))
  have noWorse := gathered.2.2.2 (gathered.2.1 apart) fun bloats => by
    exact absurd bloats (by decide +kernel)
  rw [alone] at noWorse
  refine ⟨alone, ?_⟩
  generalize score rules _ = verdict at noWorse
  cases noWorse with
  | value holds => exact ⟨_, holds, rfl⟩

/-- They stand still once more. -/
def waiting : Step := step 0.5 [idle "king", idle "queen"]

theorem waiting_differs : Differs (standing [("queen", "cs-center")]) waiting.actions := by
  have sorted : (waiting.actions.map Scene.actionKey).mergeSort codesLe =
      waiting.actions.map Scene.actionKey := List.mergeSort_of_pairwise (by decide +kernel)
  rw [Differs, Scene.stepKey, sorted]
  decide +kernel

theorem not_apart_waiting : ¬ (arrival waiting).IsChain Passage.Apart := by
  rw [arrival, List.isChain_cons_cons, List.isChain_pair]
  rintro ⟨-, empty | other⟩
  · have here := head?_standing (show couple ≠ [] from List.cons_ne_nil _ _)
    change (Scene.stepKey waiting.actions).toList.head? = some 'a' at here
    rw [empty] at here
    exact absurd here (by decide)
  · exact other rfl

def crowd : List Walker :=
  [("king", "cs-left"), ("queen", "cs-center"), ("mage", "cs-left"), ("knight", "cs-center")]

/-- What four say one after the other. -/
def chatter : List Step :=
  (["king", "queen", "mage", "knight", "king", "queen", "mage", "knight", "king", "queen",
    "mage"].map fun name => step 0.5 [.emote (.str name) "happy"]) ++
    [step 0.5 [.react "confetti-burst" "cs-center"]]

/-- Four walk on and talk. -/
def gossip : List Passage := .run .left crowd (by decide) :: chatter.map .kept

theorem isChain_gossip {first : List (List Action)} {walkers : List Walker}
    (filled : walkers ≠ []) (ends : first.getLast? = some (standing walkers))
    (told : first.IsChain Differs) : (first ++ chatter.map (·.actions)).IsChain Differs := by
  rw [List.isChain_append, ends]
  refine ⟨told, by decide +kernel, ?_⟩
  rintro _ ⟨⟩ _ ⟨⟩
  apply standing_differs_emotes filled
  exact head?_stepKey "emote" (by decide) (List.cons_ne_nil _ _) (by decide)

/-- A step that is kept comes to be a duplicate, or the entrances come to take too many of the
steps, at three for each character. -/
theorem score_gathered_worse :
    (score rules (.ofVignette (staged ((arrival waiting).flatMap Passage.alone))) = .ok .good ∧
      score rules (.ofVignette (staged ((arrival waiting).flatMap Passage.together))) =
        .ok .needsFixes) ∧
    (score rules (.ofVignette (staged (gossip.flatMap Passage.alone))) = .ok .good ∧
      score rules (.ofVignette (staged (gossip.flatMap Passage.together))) =
        .ok .needsFixes) := by
  refine ⟨⟨?_, ?_⟩, ?_, ?_⟩
  · refine score_of_applies ["no_narrator"] ?_ (by decide +kernel)
    exact not_duplicated_iff.mpr (isChain_arrival waiting_differs)
  · refine score_of_applies ["duplicate_steps", "no_narrator"] ?_ (by decide +kernel)
    exact duplicated_iff.mpr (mt apart_of_isChain not_apart_waiting)
  · refine score_of_applies ["one_sided_entrances", "no_narrator"] ?_ (by decide +kernel)
    exact not_duplicated_iff.mpr
      (isChain_gossip (List.cons_ne_nil _ _) rfl (@isChain_run .left crowd))
  · refine score_of_applies ["entrance_bloat", "no_narrator"] ?_ (by decide +kernel)
    exact not_duplicated_iff.mpr
      (isChain_gossip (List.cons_ne_nil _ _) rfl (isChain_beats (List.cons_ne_nil _ _)))

end Stage

end Stagecraft
