import Stagecraft.Quality.Report

/-!
Verdicts that cannot get worse. When a scene gets shorter and keeps what it tells, no rule comes to
apply but those that compare its steps with one another or with its entrances, and a vignette to
which fewer rules apply is in no worse a bucket.
-/

namespace Stagecraft

/-- What a vignette has of each kind when its steps get fewer but only entrances are gathered. -/
structure Lightened (old new : Scene) : Prop where
  kinds : ∀ kind ∈ ["spawn_character", "move", "emote", "react", "camera_shake", "text_popup"],
    new.ofKind kind = old.ofKind kind
  anims : ∀ test : Action → Bool, (∀ who, test (.animate who "Walking_A") = false) →
    (∀ who, test (idle who) = false) →
      (new.ofKind "animate").filter test = (old.ofKind "animate").filter test
  idle : new.idleSteps.length = old.idleSteps.length
  narrative : new.narrativeCount = old.narrativeCount
  actions : new.totalActions ≤ old.totalActions
  mechanical : new.mechanicalCount ≤ old.mechanicalCount
  steps : new.totalSteps ≤ old.totalSteps

/-- The same fault, or values in a relation. -/
inductive Paired {α : Type} (related : α → α → Prop) :
    Except Misuse α → Except Misuse α → Prop where
  | fault (cause : Misuse) : Paired related (.error cause) (.error cause)
  | value {old new : α} (holds : related old new) : Paired related (.ok old) (.ok new)

section Verdicts

variable {α β : Type} {old new : Scene}

namespace Paired

variable {related : α → α → Prop} {related' : β → β → Prop} {x y : Except Misuse α}
  {f g : α → Except Misuse β}

theorem bind (first : Paired related x y)
    (next : ∀ a b, related a b → Paired related' (f a) (g b)) :
    Paired related' (x >>= f) (y >>= g) := by
  cases first with
  | fault cause => exact .fault cause
  | value holds => exact next _ _ holds

theorem imp {weaker : α → α → Prop} (first : Paired related x y)
    (next : ∀ a b, related a b → weaker a b) : Paired weaker x y := by
  cases first with
  | fault cause => exact .fault cause
  | value holds => exact .value (next _ _ holds)

theorem map {h : α → β} (first : Paired related x y)
    (next : ∀ a b, related a b → related' (h a) (h b)) : Paired related' (x.map h) (y.map h) := by
  cases first with
  | fault cause => exact .fault cause
  | value holds => exact .value (next _ _ holds)

theorem bind_same (next : ∀ a, Paired related' (f a) (g a)) :
    Paired related' (x >>= f) (x >>= g) := by
  cases x with
  | error cause => exact .fault cause
  | ok a => exact next a

end Paired

/-- A verdict that is not passed anew. -/
theorem fades {first second : Bool} (only : second = true → first = true) :
    Paired (· ≥ ·) (.ok first) (.ok second) :=
  .value only

namespace Lightened

variable (lighter : Lightened old new)

include lighter

theorem spawned : new.spawned = old.spawned := by
  rw [Scene.spawned, lighter.kinds _ (by simp), Scene.spawned]

theorem characters : new.characters = old.characters := by
  rw [Scene.characters, lighter.spawned, Scene.characters]

theorem silent : new.silent = old.silent := by
  rw [Scene.silent, lighter.characters, lighter.kinds _ (by simp), Scene.silent]

theorem emoteCount : new.emoteCount = old.emoteCount := by
  rw [Scene.emoteCount, lighter.kinds _ (by simp), Scene.emoteCount]

theorem entrants (side : String) : new.entrants side = old.entrants side := by
  rw [Scene.entrants, lighter.kinds _ (by simp), Scene.entrants]

theorem repeatedEffects : new.repeatedEffects = old.repeatedEffects := by
  rw [Scene.repeatedEffects, lighter.kinds _ (by simp), Scene.repeatedEffects]

theorem repeatedMoves : new.repeatedMoves = old.repeatedMoves := by
  rw [Scene.repeatedMoves, lighter.kinds _ (by simp), Scene.repeatedMoves]

theorem gestureCount : new.gestureCount = old.gestureCount := by
  rw [Scene.gestureCount, List.countP_eq_length_filter, lighter.anims, Scene.gestureCount,
    List.countP_eq_length_filter]
  · intro who
    rfl
  · intro who
    rfl

theorem repeatCelebrators : new.repeatCelebrators = old.repeatCelebrators := by
  have walks : holds "Walking_A" "Cheer" = false := by decide
  have stands : holds idleAnim "Cheer" = false := by decide
  rw [Scene.repeatCelebrators, lighter.anims _ (fun _ => walks) (fun _ => stands),
    Scene.repeatCelebrators]

theorem mostlyEntrances (sparse : old.mostlyEntrances = true) : new.mostlyEntrances = true := by
  rw [Scene.mostlyEntrances, decide_eq_true_eq] at sparse ⊢
  rw [lighter.spawned]
  exact Nat.lt_of_le_of_lt lighter.steps sparse

theorem silentCharacters : Paired (· ≥ ·) (Rule.silentCharacters.applies old)
    (Rule.silentCharacters.applies new) := by
  simp only [Rule.silentCharacters, lighter.silent]
  refine .bind_same fun silent => fades ?_
  simp only [Bool.and_eq_true, decide_eq_true_eq]
  rintro ⟨someone, acts⟩
  exact ⟨someone, Nat.lt_of_lt_of_le acts lighter.actions⟩

theorem silentScene : Paired (· ≥ ·) (Rule.silentScene.applies old)
    (Rule.silentScene.applies new) := by
  refine fades ?_
  simp only [lighter.emoteCount, lighter.characters, Bool.and_eq_true, decide_eq_true_eq]
  rintro ⟨⟨quiet, acts⟩, someone⟩
  exact ⟨⟨quiet, Nat.lt_of_lt_of_le acts lighter.actions⟩, someone⟩

theorem oneSidedEntrances : Paired (· ≥ ·) (Rule.oneSidedEntrances.applies old)
    (Rule.oneSidedEntrances.applies new) := by
  refine fades ?_
  simp only [lighter.spawned, lighter.entrants, Bool.and_eq_true, Bool.not_eq_true',
    ← Bool.not_eq_true]
  rintro ⟨sided, busy⟩
  exact ⟨sided, mt lighter.mostlyEntrances busy⟩

theorem idlePadding : Paired (· ≥ ·) (Rule.idlePadding.applies old)
    (Rule.idlePadding.applies new) := by
  simp only [Rule.idlePadding, lighter.idle]
  exact fades id

theorem gestureSpam : Paired (· ≥ ·) (Rule.gestureSpam.applies old)
    (Rule.gestureSpam.applies new) := by
  simp only [Rule.gestureSpam, lighter.gestureCount, lighter.emoteCount]
  exact fades id

theorem repeatedEffect : Paired (· ≥ ·) (Rule.repeatedEffect.applies old)
    (Rule.repeatedEffect.applies new) := by
  simp only [Rule.repeatedEffect, lighter.repeatedEffects]
  exact fades id

theorem redundantCelebration : Paired (· ≥ ·) (Rule.redundantCelebration.applies old)
    (Rule.redundantCelebration.applies new) := by
  simp only [Rule.redundantCelebration, lighter.repeatCelebrators]
  exact .bind_same fun _ => fades id

theorem cameraShakeSpam : Paired (· ≥ ·) (Rule.cameraShakeSpam.applies old)
    (Rule.cameraShakeSpam.applies new) := by
  simp only [Rule.cameraShakeSpam, lighter.kinds "camera_shake" (by simp)]
  exact fades id

theorem mechanicalRatio : Paired (· ≥ ·) (Rule.mechanicalRatio.applies old)
    (Rule.mechanicalRatio.applies new) := by
  refine fades ?_
  simp only [lighter.narrative, Bool.and_eq_true, decide_eq_true_eq]
  rintro ⟨acts, turns⟩
  exact ⟨Nat.lt_of_lt_of_le acts lighter.actions, Nat.lt_of_lt_of_le turns lighter.mechanical⟩

theorem repeatedMoveTarget : Paired (· ≥ ·) (Rule.repeatedMoveTarget.applies old)
    (Rule.repeatedMoveTarget.applies new) := by
  simp only [Rule.repeatedMoveTarget, lighter.repeatedMoves]
  exact .bind_same fun _ => fades id

theorem noVisualPayoff : Paired (· ≥ ·) (Rule.noVisualPayoff.applies old)
    (Rule.noVisualPayoff.applies new) := by
  refine fades ?_
  simp only [lighter.kinds "react" (by simp), Bool.and_eq_true, decide_eq_true_eq]
  rintro ⟨acts, dull⟩
  exact ⟨Nat.lt_of_lt_of_le acts lighter.actions, dull⟩

theorem noNarrator : Paired (· ≥ ·) (Rule.noNarrator.applies old)
    (Rule.noNarrator.applies new) := by
  refine fades ?_
  simp only [lighter.kinds "text_popup" (by simp), Bool.and_eq_true, decide_eq_true_eq]
  rintro ⟨acts, untold⟩
  exact ⟨Nat.lt_of_lt_of_le acts lighter.actions, untold⟩

/-- No rule comes to apply, unless one does that compares the steps with one another or with the
number of entrances. -/
theorem rules_fade : ∀ rule ∈ rules,
    (rule.name = "entrance_bloat" →
      Paired (· ≥ ·) (Rule.entranceBloat.applies old) (Rule.entranceBloat.applies new)) →
    (rule.name = "duplicate_steps" →
      Paired (· ≥ ·) (Rule.duplicateSteps.applies old) (Rule.duplicateSteps.applies new)) →
    Paired (· ≥ ·) (rule.applies old) (rule.applies new) := by
  intro rule member bloat duplicate
  simp only [rules, List.mem_cons, List.not_mem_nil, or_false] at member
  rcases member with rfl | rfl | rfl | rfl | rfl | rfl | rfl | rfl | rfl | rfl | rfl | rfl | rfl |
    rfl
  · exact lighter.silentCharacters
  · exact lighter.silentScene
  · exact bloat rfl
  · exact lighter.oneSidedEntrances
  · exact duplicate rfl
  · exact lighter.idlePadding
  · exact lighter.gestureSpam
  · exact lighter.repeatedEffect
  · exact lighter.redundantCelebration
  · exact lighter.cameraShakeSpam
  · exact lighter.mechanicalRatio
  · exact lighter.repeatedMoveTarget
  · exact lighter.noVisualPayoff
  · exact lighter.noNarrator

end Lightened

/-- The rules of which the bucket takes notice. -/
def Rule.counts (rule : Rule) : Bool := rule.severity != .advisory

theorem hits_fade {rules : List Rule} (each : ∀ rule ∈ rules,
      Paired (fun before after => rule.counts = true → before ≥ after) (rule.applies old)
        (rule.applies new)) :
    Paired (fun before after => (after.filter Rule.counts).Sublist (before.filter Rule.counts))
      (hits rules old) (hits rules new) := by
  induction rules with
  | nil => exact .value .slnil
  | cons rule rules ih =>
    obtain ⟨here, rest⟩ := List.forall_mem_cons.mp each
    refine here.bind fun applied applies only => (ih rest).bind fun before after fewer => ?_
    refine .value ?_
    by_cases counts : rule.counts = true
    · cases applies with
      | false =>
        cases applied with
        | false => exact fewer
        | true =>
          rw [if_pos rfl, if_neg Bool.false_ne_true, List.filter_cons_of_pos counts]
          exact fewer.cons rule
      | true =>
        obtain rfl : applied = true := only counts rfl
        rw [if_pos rfl, if_pos rfl, List.filter_cons_of_pos counts,
          List.filter_cons_of_pos counts]
        exact fewer.cons_cons rule
    · have same (hit : Bool) (others : List Rule) :
          (if hit then rule :: others else others).filter Rule.counts =
            others.filter Rule.counts := by
        cases hit with
        | false => rfl
        | true => exact List.filter_cons_of_neg counts
      rw [same, same]
      exact fewer

theorem severityCount_le {severity : Severity} (counts : severity ≠ .advisory)
    {before after : List Rule}
    (fewer : (after.filter Rule.counts).Sublist (before.filter Rule.counts)) :
    severityCount severity after ≤ severityCount severity before := by
  have counted (matched : List Rule) : (matched.filter Rule.counts).countP
      (·.severity == severity) = severityCount severity matched := by
    rw [List.countP_filter]
    refine List.countP_congr fun rule _ => ?_
    simp only [Rule.counts, Bool.and_eq_true, beq_iff_eq, bne_iff_ne, and_iff_left_iff_imp]
    rintro rfl
    exact counts
  rw [← counted, ← counted]
  exact fewer.countP_le

theorem Bucket.ofCounts_le {high medium high' medium' : Int} (fewer : high' ≤ high)
    (fewer' : medium' ≤ medium) : Bucket.ofCounts high' medium' ≤ .ofCounts high medium := by
  change Bucket.rank _ ≤ Bucket.rank _
  simp only [Bucket.ofCounts]
  repeat' split
  all_goals first
    | decide
    | omega

/-- Where no rule that counts comes to apply, the bucket does not get worse. -/
theorem score_fade_of_counts {rules : List Rule} (each : ∀ rule ∈ rules,
      Paired (fun before after => rule.counts = true → before ≥ after) (rule.applies old)
        (rule.applies new)) :
    Paired (fun before after => after ≤ before) (score rules old) (score rules new) := by
  refine (hits_fade each).map fun before after fewer => Bucket.ofCounts_le ?_ ?_
  · exact Int.ofNat_le.mpr (severityCount_le (by decide) fewer)
  · exact Int.ofNat_le.mpr (severityCount_le (by decide) fewer)

theorem score_fade {rules : List Rule}
    (each : ∀ rule ∈ rules, Paired (· ≥ ·) (rule.applies old) (rule.applies new)) :
    Paired (fun before after => after ≤ before) (score rules old) (score rules new) :=
  score_fade_of_counts fun rule member => (each rule member).imp fun _ _ fades _ => fades

theorem hits_eq_filter {scene : Scene} {rules : List Rule} {verdict : Rule → Bool}
    (each : ∀ rule ∈ rules, rule.applies scene = .ok (verdict rule)) :
    hits rules scene = .ok (rules.filter verdict) := by
  induction rules with
  | nil => rfl
  | cons rule rules ih =>
    obtain ⟨here, rest⟩ := List.forall_mem_cons.mp each
    rw [hits, here, ih rest, List.filter_cons]
    rfl

end Verdicts

end Stagecraft
