import Mathlib.Data.List.Forall2
import Stagecraft.Proofs.Edit.Steps
import Stagecraft.Proofs.Entries
import Stagecraft.Quality.Report

/-!
What a vignette needs for its verdict. The rules fail only on actions that name who takes part by a
value that cannot serve as a key. A rule that applies has what its fixes look up and divide by, so it
words at least one.
-/

namespace Stagecraft

variable {α β : Type} {scene : Scene} {rule : Rule} {matched : List Rule} {chooser : Chooser}
  {vignette : Vignette}

/-- The answer is a value. -/
def Defined (answer : Except Misuse α) : Prop := ∃ value, answer = .ok value

namespace Defined

variable {answer : Except Misuse α} {rest : α → Except Misuse β}

@[simp] theorem ok (value : α) : Defined (.ok value) := ⟨value, rfl⟩

@[simp] theorem not_error (cause : Misuse) : ¬ Defined (.error cause : Except Misuse α) := by
  rintro ⟨value, ⟨⟩⟩

theorem bind_iff :
    Defined (answer >>= rest) ↔ ∃ value, answer = .ok value ∧ Defined (rest value) := by
  simp only [Defined, Except.bind_ran]
  constructor
  · rintro ⟨result, value, known, ran⟩
    exact ⟨value, known, result, ran⟩
  · rintro ⟨value, known, result, ran⟩
    exact ⟨result, value, known, ran⟩

/-- What follows does not fail on any value. -/
theorem bind_iff_of_forall (total : ∀ value, Defined (rest value)) :
    Defined (answer >>= rest) ↔ Defined answer := by
  rw [bind_iff]
  exact ⟨fun ⟨value, known, _⟩ => ⟨value, known⟩, fun ⟨value, known⟩ => ⟨value, known, total value⟩⟩

/-- Two answers that do not depend on each other. -/
theorem both_iff {γ : Type} {first : Except Misuse α} {second : Except Misuse β} {f : α → β → γ} :
    Defined (first >>= fun a => second >>= fun b => pure (f a b)) ↔
      Defined first ∧ Defined second := by
  rw [bind_iff]
  constructor
  · rintro ⟨a, known, others⟩
    exact ⟨⟨a, known⟩, (bind_iff_of_forall fun _ => ok _).mp others⟩
  · rintro ⟨⟨a, known⟩, others⟩
    exact ⟨a, known, (bind_iff_of_forall fun _ => ok _).mpr others⟩

theorem mapM_iff {items : List α} {f : α → Except Misuse β} :
    Defined (items.mapM f) ↔ ∀ item ∈ items, Defined (f item) := by
  induction items with
  | nil => exact iff_of_true (ok _) (by simp)
  | cons item items ih => rw [List.mapM_cons, List.forall_mem_cons, both_iff, ih]

end Defined

namespace Action

/-- The field, if it is there, can serve as a key. -/
def Keyed (action : Action) (key : String) : Prop :=
  ((Fields.get? action key).getD .null).isKey = true

/-- An animation that is counted as cheering. -/
def Cheers (action : Action) : Prop :=
  action.isKind "animate" ∧ holds (((action.present? "anim").map (·.text)).getD "") "Cheer"

end Action

section Keys

theorem areKeys_iff {values : List Value} :
    Value.areKeys values = true ↔ ∀ value ∈ values, value.isKey = true := by
  induction values with
  | nil => simp [Value.areKeys]
  | cons value values ih => simp [Value.areKeys, ih]

theorem asKeys_defined_iff {values : List Value} :
    Defined (asKeys values) ↔ ∀ value ∈ values, value.isKey = true := by
  rw [asKeys, ← areKeys_iff]
  split <;> simp [*]

theorem mem_ofKind {kind : String} {action : Action} :
    action ∈ scene.ofKind kind ↔ action ∈ scene.actions ∧ action.isKind kind :=
  List.mem_filter

theorem actions_ofVignette : (Scene.ofVignette vignette).actions = vignette.actions := by
  simp only [Scene.actions, Scene.ofVignette, Vignette.actions, List.flatMap_def]

theorem silent_defined_iff : Defined scene.silent ↔
    ∀ action ∈ scene.actions, action.isKind "emote" → action.Keyed "character" := by
  refine (Defined.bind_iff_of_forall fun _ => .ok _).trans (asKeys_defined_iff.trans ?_)
  simp only [List.forall_mem_map, mem_ofKind, and_imp]
  rfl

theorem repeatCelebrators_defined_iff : Defined scene.repeatCelebrators ↔
    ∀ action ∈ scene.actions, action.Cheers → action.Keyed "character" := by
  refine (Defined.bind_iff_of_forall fun _ => .ok _).trans (asKeys_defined_iff.trans ?_)
  simp only [List.forall_mem_map, List.mem_filter, mem_ofKind, and_imp, Action.Cheers]
  rfl

theorem repeatedMoves_defined_iff : Defined scene.repeatedMoves ↔
    ∀ action ∈ scene.actions, action.isKind "move" →
      action.Keyed "character" ∧ action.Keyed "to" := by
  refine (Defined.bind_iff_of_forall fun _ => .ok _).trans (asKeys_defined_iff.trans ?_)
  simp only [List.forall_mem_flatMap, List.forall_mem_map, List.forall_mem_cons,
    List.not_mem_nil, false_imp_iff, implies_true, and_true, mem_ofKind, and_imp]
  rfl

/-- Apart from those who are silent, who cheer and who move, no rule can fail. -/
theorem applies_defined_iff : (∀ rule ∈ rules, Defined (rule.applies scene)) ↔
    Defined scene.silent ∧ Defined scene.repeatCelebrators ∧ Defined scene.repeatedMoves := by
  have silent : Defined (Rule.silentCharacters.applies scene) ↔ Defined scene.silent :=
    Defined.bind_iff_of_forall fun _ => .ok _
  have cheering : Defined (Rule.redundantCelebration.applies scene) ↔
      Defined scene.repeatCelebrators := Defined.bind_iff_of_forall fun _ => .ok _
  have moves : Defined (Rule.repeatedMoveTarget.applies scene) ↔ Defined scene.repeatedMoves :=
    Defined.bind_iff_of_forall fun _ => .ok _
  simp only [rules, List.forall_mem_cons, silent, cheering, moves]
  simp [Rule.silentScene, Rule.entranceBloat, Rule.oneSidedEntrances, Rule.duplicateSteps,
    Rule.idlePadding, Rule.gestureSpam, Rule.repeatedEffect, Rule.cameraShakeSpam,
    Rule.mechanicalRatio, Rule.noVisualPayoff, Rule.noNarrator]

end Keys

section Hits

variable {part : List Rule}

theorem hits_defined_iff : Defined (hits part scene) ↔
    ∀ rule ∈ part, Defined (rule.applies scene) := by
  induction part with
  | nil => exact iff_of_true (.ok _) (by simp)
  | cons rule part ih => rw [hits, List.forall_mem_cons, Defined.both_iff, ih]

theorem hits_sublist (hit : hits part scene = .ok matched) : matched.Sublist part := by
  induction part generalizing matched with
  | nil =>
    cases hit
    exact .slnil
  | cons rule part ih =>
    obtain ⟨applies, -, hit⟩ := Except.bind_ran.mp hit
    obtain ⟨others, below, made⟩ := Except.bind_ran.mp hit
    cases made
    split
    · exact (ih below).cons_cons rule
    · exact (ih below).cons rule

theorem applies_of_hits (hit : hits part scene = .ok matched) :
    ∀ rule ∈ matched, rule.applies scene = .ok true := by
  induction part generalizing matched with
  | nil =>
    cases hit
    exact List.forall_mem_nil _
  | cons rule part ih =>
    obtain ⟨applies, here, hit⟩ := Except.bind_ran.mp hit
    obtain ⟨others, below, made⟩ := Except.bind_ran.mp hit
    cases made
    cases applies with
    | false => exact ih below
    | true => exact List.forall_mem_cons.mpr ⟨here, ih below⟩

end Hits

section Looks

variable {items : List α} {test : α → Bool} {place : Nat}

theorem itemAt_of_lt {index : Nat} (inside : index < items.length) :
    Rule.itemAt items index = .ok items[index] := by
  rw [Rule.itemAt, List.getElem?_eq_getElem inside]
  rfl

theorem placesFrom_eq_nil_iff :
    placesFrom test place items = [] ↔ ∀ item ∈ items, test item = false := by
  induction items generalizing place with
  | nil => simp [placesFrom]
  | cons item items ih =>
    rw [placesFrom, List.forall_mem_cons, ← @ih (place + 1)]
    cases test item <;> simp

theorem mem_pairPlacesFrom {test : Option α → α → Bool} {before : Option α} {found : Nat}
    (member : found ∈ pairPlacesFrom test before place items) :
    place ≤ found ∧ found < place + items.length := by
  induction items generalizing before place with
  | nil => cases member
  | cons item items ih =>
    rw [pairPlacesFrom] at member
    have later (member : found ∈ pairPlacesFrom test (some item) (place + 1) items) :
        place ≤ found ∧ found < place + (item :: items).length := by
      have bounds := ih member
      rw [List.length_cons]
      omega
    cases here : test before item with
    | false =>
      rw [here] at member
      exact later member
    | true =>
      rw [here] at member
      rcases List.mem_cons.mp member with rfl | member
      · rw [List.length_cons]
        omega
      · exact later member

theorem length_spawned_le (scene : Scene) : scene.spawned.length ≤ scene.totalActions :=
  Nat.le_trans (List.length_filterMap_le _ _) (List.length_filter_le _ _)

theorem totalSteps_pos (acts : 0 < scene.totalActions) : 0 < scene.totalSteps := by
  obtain ⟨action, member⟩ := List.exists_mem_of_length_pos acts
  obtain ⟨step, member, -⟩ := List.mem_flatten.mp member
  exact List.length_pos_of_mem member

theorem shakeSteps_ne_nil (shakes : 0 < (scene.ofKind "camera_shake").length) :
    scene.shakeSteps ≠ [] := by
  intro none
  obtain ⟨action, member⟩ := List.exists_mem_of_length_pos shakes
  obtain ⟨present, shake⟩ := mem_ofKind.mp member
  obtain ⟨step, member, inside⟩ := List.mem_flatten.mp present
  have still := placesFrom_eq_nil_iff.mp none step member
  rw [List.any_eq_false] at still
  exact still action inside shake

end Looks

/-- The fixes are there, and there is one at least. -/
def Worded (answer : Except Misuse (List Fix)) : Prop := ∃ fixes, answer = .ok fixes ∧ fixes ≠ []

namespace Rule

theorem worded_single {answer : Except Misuse α} {fix : α → Fix} (known : Defined answer) :
    Worded (answer >>= fun value => pure [fix value]) := by
  obtain ⟨value, known⟩ := known
  exact ⟨_, Except.bind_ran.mpr ⟨value, known, rfl⟩, List.cons_ne_nil _ _⟩

theorem worded_mapM {items : List α} {f : α → Except Misuse Fix} (filled : items ≠ [])
    (each : ∀ item ∈ items, Defined (f item)) : Worded (items.mapM f) := by
  obtain ⟨fixes, known⟩ := Defined.mapM_iff.mpr each
  refine ⟨fixes, known, ?_⟩
  rintro rfl
  obtain ⟨item, items, rfl⟩ := List.exists_cons_of_ne_nil filled
  rw [List.mapM_cons] at known
  obtain ⟨first, -, known⟩ := Except.bind_ran.mp known
  obtain ⟨others, -, made⟩ := Except.bind_ran.mp known
  cases made

theorem worded_silentCharacters (applies : silentCharacters.applies scene = .ok true) :
    Worded (silentCharacters.fixes chooser scene) := by
  obtain ⟨silent, known, verdict⟩ := Except.bind_ran.mp applies
  have verdict := Except.ok.inj verdict
  simp only [Bool.and_eq_true, Bool.not_eq_true', List.isEmpty_eq_false_iff] at verdict
  exact ⟨_, Except.bind_ran.mpr ⟨silent, known, rfl⟩, mt List.map_eq_nil_iff.mp verdict.1⟩

theorem worded_silentScene (applies : silentScene.applies scene = .ok true) :
    Worded (silentScene.fixes chooser scene) := by
  have verdict := Except.ok.inj applies
  simp only [Bool.and_eq_true, Bool.not_eq_true', List.isEmpty_eq_false_iff] at verdict
  have lead := itemAt_of_lt (List.length_pos_iff.mpr verdict.2)
  exact ⟨_, Except.bind_ran.mpr ⟨_, lead, rfl⟩, List.cons_ne_nil _ _⟩

/-- Where characters enter there are steps to divide by. -/
theorem worded_entranceBloat (applies : entranceBloat.applies scene = .ok true) :
    Worded (entranceBloat.fixes chooser scene) := by
  have verdict := Except.ok.inj applies
  simp only [Bool.and_eq_true, decide_eq_true_eq] at verdict
  have acts : 0 < scene.totalActions := by
    have bound := length_spawned_le scene
    omega
  have share (saved : Nat) : ∃ share, wholePercent saved scene.totalSteps = .ok share := by
    rw [wholePercent, if_neg (Nat.ne_of_gt (totalSteps_pos acts))]
    exact ⟨_, rfl⟩
  obtain ⟨share, known⟩ := share ((scene.spawned.length - 2) * 2)
  exact ⟨_, Except.bind_ran.mpr ⟨share, known, rfl⟩, by simp⟩

/-- A step that is the same as another stands among the steps. -/
theorem worded_duplicateSteps (applies : duplicateSteps.applies scene = .ok true) :
    Worded (duplicateSteps.fixes chooser scene) := by
  have verdict := Except.ok.inj applies
  rw [Bool.not_eq_true', List.isEmpty_eq_false_iff] at verdict
  refine worded_mapM verdict fun place member => ?_
  have bounds := mem_pairPlacesFrom member
  have inside : place - 1 < scene.steps.length := by omega
  exact (Defined.bind_iff_of_forall fun _ => .ok _).mpr ⟨_, itemAt_of_lt inside⟩

theorem worded_repeatedEffect (applies : repeatedEffect.applies scene = .ok true) :
    Worded (repeatedEffect.fixes chooser scene) := by
  have verdict := Except.ok.inj applies
  rw [Bool.not_eq_true', List.isEmpty_eq_false_iff] at verdict
  exact ⟨_, rfl, mt List.map_eq_nil_iff.mp verdict⟩

theorem worded_redundantCelebration (applies : redundantCelebration.applies scene = .ok true) :
    Worded (redundantCelebration.fixes chooser scene) := by
  obtain ⟨cheering, known, -⟩ := Except.bind_ran.mp applies
  exact worded_single ⟨cheering, known⟩

theorem worded_cameraShakeSpam (applies : cameraShakeSpam.applies scene = .ok true) :
    Worded (cameraShakeSpam.fixes chooser scene) := by
  have verdict := Except.ok.inj applies
  rw [decide_eq_true_eq] at verdict
  have shakes : 0 < scene.shakeSteps.length :=
    List.length_pos_iff.mpr (shakeSteps_ne_nil (by omega))
  refine worded_single ?_
  rw [climaxOf]
  split
  · exact ⟨_, itemAt_of_lt (by omega)⟩
  · exact ⟨_, itemAt_of_lt shakes⟩

theorem worded_repeatedMoveTarget (applies : repeatedMoveTarget.applies scene = .ok true) :
    Worded (repeatedMoveTarget.fixes chooser scene) := by
  obtain ⟨moves, known, verdict⟩ := Except.bind_ran.mp applies
  have verdict := Except.ok.inj verdict
  rw [Bool.not_eq_true', List.isEmpty_eq_false_iff] at verdict
  exact ⟨_, Except.bind_ran.mpr ⟨moves, known, rfl⟩, mt List.map_eq_nil_iff.mp verdict⟩

/-- A rule that applies words at least one fix. -/
theorem worded_of_applies : ∀ rule ∈ rules, rule.applies scene = .ok true →
    Worded (rule.fixes chooser scene) := by
  have always (fix : Fix) : Worded (.ok [fix]) := ⟨_, rfl, List.cons_ne_nil _ _⟩
  intro rule member applies
  simp only [rules, List.mem_cons, List.not_mem_nil, or_false] at member
  rcases member with rfl | rfl | rfl | rfl | rfl | rfl | rfl | rfl | rfl | rfl | rfl | rfl | rfl |
    rfl
  · exact worded_silentCharacters applies
  · exact worded_silentScene applies
  · exact worded_entranceBloat applies
  · exact always _
  · exact worded_duplicateSteps applies
  · exact always _
  · exact always _
  · exact worded_repeatedEffect applies
  · exact worded_redundantCelebration applies
  · exact worded_cameraShakeSpam applies
  · exact always _
  · exact worded_repeatedMoveTarget applies
  · exact always _
  · exact always _

end Rule

section Reports

variable {part : List Rule} {parts : List (List Fix)}

theorem suggestFixes_parts (worded : ∀ rule ∈ matched, Worded (rule.fixes chooser scene)) :
    ∃ parts, suggestFixes chooser scene matched = .ok parts.flatten ∧
      List.Forall₂ (fun rule fixes => rule.fixes chooser scene = .ok fixes ∧ fixes ≠ [])
        matched parts := by
  induction matched with
  | nil => exact ⟨[], rfl, .nil⟩
  | cons rule matched ih =>
    obtain ⟨⟨fixes, here, some⟩, later⟩ := List.forall_mem_cons.mp worded
    obtain ⟨parts, behind, each⟩ := ih later
    refine ⟨fixes :: parts, ?_, .cons ⟨here, some⟩ each⟩
    exact Except.bind_ran.mpr ⟨fixes, here, Except.bind_ran.mpr ⟨_, behind, rfl⟩⟩

/-- Once the verdicts are passed, the report holds the fixes of each rule that applies. -/
theorem evaluate_of_hits (known : part ⊆ rules)
    (hit : hits part (.ofVignette vignette) = .ok matched) :
    ∃ parts, evaluate part chooser vignette =
        .ok ⟨bucketOfHits matched, matched.map (·.name), parts.flatten⟩ ∧
      List.Forall₂ (fun rule fixes =>
        rule.fixes chooser (.ofVignette vignette) = .ok fixes ∧ fixes ≠ []) matched parts := by
  have worded : ∀ rule ∈ matched, Worded (rule.fixes chooser (.ofVignette vignette)) :=
    fun rule member => Rule.worded_of_applies rule (known ((hits_sublist hit).subset member))
      (applies_of_hits hit rule member)
  obtain ⟨parts, suggested, each⟩ := suggestFixes_parts worded
  refine ⟨parts, ?_, each⟩
  exact Except.bind_ran.mpr ⟨matched, hit, Except.bind_ran.mpr ⟨_, suggested, rfl⟩⟩

theorem evaluate_defined_iff : Defined (evaluate rules chooser vignette) ↔
    ∀ rule ∈ rules, Defined (rule.applies (.ofVignette vignette)) := by
  rw [← hits_defined_iff]
  constructor
  · rintro ⟨report, ran⟩
    obtain ⟨matched, hit, -⟩ := Except.bind_ran.mp ran
    exact ⟨matched, hit⟩
  · rintro ⟨matched, hit⟩
    obtain ⟨parts, ran, -⟩ := evaluate_of_hits (List.Subset.refl _) hit
    exact ⟨_, ran⟩

end Reports

section Scalars

variable {part : List Rule} {parts : List (List Fix)}

/-- A vignette of these steps. -/
def staged (steps : List Step) : Vignette := ⟨"a", "", "", "", [], [], steps, []⟩

end Scalars

end Stagecraft
