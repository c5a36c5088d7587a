import Stagecraft.Proofs.Directive.Refusals
import Stagecraft.Proofs.Quality.Wording
import Stagecraft.Proofs.Vignette.Elements
import Stagecraft.Vignette.Summary

/-!
Which records can be read, scored, told and listed. An element stops the reading by a delay that is
no double, or by scattering to nowhere. The rest looks at the actions one by one.
-/

namespace Stagecraft

variable {α β : Type} {action : Action} {actions : List Action} {scene : Scene} {rule : Rule}
  {chooser : Chooser} {vignette : Vignette}

section Elements

/-- The element stands for steps, or for none; nothing in it stops the reading. -/
def Value.Expands : Value → Prop
  | .object entries =>
    ∀ n, Fields.get? entries "delayAfter" = some (.int n) → (floatOfInt? n).isSome
  | .spread (.call id args) => ¬ (id = "SCATTER" ∧ Directive.Strands (args.map Value.plain))
  | _ => True

theorem asDelay_defined_iff {value : Option Value} : Defined (Value.asDelay value) ↔
    ∀ n, value = some (.int n) → (floatOfInt? n).isSome := by
  cases value with
  | none => exact iff_of_true (.ok _) (by simp)
  | some value =>
    cases value with
    | int n =>
      rw [Value.asDelay]
      cases delay : floatOfInt? n <;> simp [delay]
    | _ => exact iff_of_true (.ok _) (by simp)

theorem readElement_defined_iff {element : Value} :
    Defined (Value.readElement element) ↔ element.Expands := by
  cases element with
  | object entries =>
    change Defined (Value.readObject entries) ↔ _
    rw [Value.readObject, Value.Expands]
    exact (Defined.bind_iff_of_forall fun _ => .ok _).trans asDelay_defined_iff
  | spread value =>
    cases value with
    | call id args => exact readCall_defined_iff
    | _ => exact iff_of_true (.ok _) trivial
  | _ => exact iff_of_true (.ok _) trivial

theorem readElements_defined_iff {elements : List Value} :
    Defined (Value.readElements elements) ↔ ∀ element ∈ elements, element.Expands := by
  induction elements with
  | nil => exact iff_of_true (.ok _) (by simp)
  | cons element elements ih =>
    rw [Value.readElements, List.forall_mem_cons, Defined.both_iff, readElement_defined_iff, ih]

end Elements

namespace Action

/-- Nothing in the action stops the scoring, the telling or the listing. -/
structure Plays (action : Action) : Prop where
  emote : action.isKind "emote" → action.Keyed "character"
  cheer : action.Cheers → action.Keyed "character"
  move : action.isKind "move" → action.Keyed "character" ∧ action.Keyed "to"
  spawn : action.isKind "spawn_character" → ∀ who ∈ action.present? "character", who.isKey
  crowd : action.present? "character" = none → ∀ crowd, action.present? "characters" =
    some (.list crowd) → ∀ who ∈ crowd, ∃ text, who = .str text

end Action

section Story

theorem arrivals_defined_iff {shown : List Value} : Defined (Beat.arrivals shown actions) ↔
    ∀ spawn ∈ actions, ∀ who ∈ spawn.present? "character", who.isKey = true := by
  induction actions generalizing shown with
  | nil => exact iff_of_true (.ok _) (by simp)
  | cons spawn rest ih =>
    rw [Beat.arrivals, List.forall_mem_cons]
    cases present : spawn.present? "character" with
    | none => simp [ih]
    | some who =>
      by_cases key : who.isKey = true
      · by_cases known : shown.any who.same
        · simp [key, known, ih]
        · simp only [key, known, Bool.not_true, Bool.false_eq_true, if_false, Option.mem_def,
            Option.some.injEq, forall_eq', true_and]
          exact (Defined.bind_iff_of_forall fun _ => .ok _).trans ih
      · simp [key]

theorem parts_defined_iff {shown : Shown} : Defined (Beat.parts shown actions) ↔
    ∀ action ∈ actions, action.isKind "spawn_character" →
      ∀ who ∈ action.present? "character", who.isKey = true := by
  refine (Defined.bind_iff_of_forall fun _ => .ok _).trans (arrivals_defined_iff.trans ?_)
  simp only [Action.ofKind, List.mem_filter, and_imp]

theorem beatsOf_defined_iff {shown : Shown} {steps : List Step} : Defined (beatsOf shown steps) ↔
    ∀ step ∈ steps, ∀ action ∈ step.actions, action.isKind "spawn_character" →
      ∀ who ∈ action.present? "character", who.isKey = true := by
  induction steps generalizing shown with
  | nil => exact iff_of_true (.ok _) (by simp)
  | cons step steps ih =>
    rw [beatsOf, List.forall_mem_cons, Defined.bind_iff]
    constructor
    · rintro ⟨⟨after, parts⟩, known, others⟩
      exact ⟨parts_defined_iff.mp ⟨_, known⟩,
        ih.mp ((Defined.bind_iff_of_forall fun _ => .ok _).mp others)⟩
    · rintro ⟨here, below⟩
      obtain ⟨⟨after, parts⟩, known⟩ := (@parts_defined_iff _ shown).mpr here
      exact ⟨_, known, (Defined.bind_iff_of_forall fun _ => .ok _).mpr (ih.mpr below)⟩

theorem summary_defined_iff : Defined vignette.summary ↔
    ∀ action ∈ vignette.actions, action.isKind "spawn_character" →
      ∀ who ∈ action.present? "character", who.isKey = true := by
  refine (Defined.bind_iff_of_forall fun _ => .ok _).trans (beatsOf_defined_iff.trans ?_)
  simp only [Vignette.actions, List.forall_mem_flatMap]

theorem textsOf?_isSome_iff {crowd : List Value} : (Action.textsOf? crowd).isSome ↔
    ∀ who ∈ crowd, ∃ text, who = .str text := by
  induction crowd with
  | nil => simp [Action.textsOf?]
  | cons who crowd ih => cases who <;> simp [Action.textsOf?, ih]

theorem who?_defined_iff : Defined action.who? ↔ (action.present? "character" = none →
    ∀ crowd, action.present? "characters" = some (.list crowd) →
      ∀ who ∈ crowd, ∃ text, who = .str text) := by
  rw [Action.who?]
  cases action.present? "character" with
  | some character => simp
  | none =>
    cases action.present? "characters" with
    | none => cases action.present? "asset" <;> simp
    | some crowd =>
      cases crowd with
      | list crowd =>
        have named : Defined ((Action.textsOf? crowd).elim (.error .wrongKind) fun names =>
            .ok (some (join "+" names)) : Except Misuse (Option String)) ↔
              (Action.textsOf? crowd).isSome := by
          cases Action.textsOf? crowd <;> simp
        simpa using named.trans textsOf?_isSome_iff
      | _ => simp

theorem tokens_defined_iff : Defined vignette.tokens ↔
    ∀ action ∈ vignette.actions, action.present? "character" = none →
      ∀ crowd, action.present? "characters" = some (.list crowd) →
        ∀ who ∈ crowd, ∃ text, who = .str text := by
  rw [Vignette.tokens, Defined.mapM_iff]
  refine forall₂_congr fun action _ => ?_
  exact (Defined.bind_iff_of_forall fun _ => .ok _).trans who?_defined_iff

end Story

/-- A vignette can be scored, told and listed just when each of its actions can. -/
theorem plays_iff : (Defined (evaluate rules chooser vignette) ∧ Defined vignette.summary ∧
    Defined vignette.tokens) ↔ ∀ action ∈ vignette.actions, action.Plays := by
  rw [evaluate_defined_iff, applies_defined_iff, silent_defined_iff, repeatCelebrators_defined_iff,
    repeatedMoves_defined_iff, actions_ofVignette, summary_defined_iff, tokens_defined_iff]
  constructor
  · rintro ⟨⟨emote, cheer, move⟩, spawn, crowd⟩ action member
    exact ⟨emote action member, cheer action member, move action member, spawn action member,
      crowd action member⟩
  · intro plays
    exact ⟨⟨fun action member => (plays action member).emote,
        fun action member => (plays action member).cheer,
        fun action member => (plays action member).move⟩,
      fun action member => (plays action member).spawn,
      fun action member => (plays action member).crowd⟩

end Stagecraft
