import Stagecraft.Proofs.Edit.Steps
import Stagecraft.Proofs.Entries
import Stagecraft.Proofs.Fix.Speeches
import Stagecraft.Quality.Report

/-!
What the rules suggest. Lines for silent characters come first, then an opening and a closing line
if the scene is silent, and the rest is advice.
-/

namespace Stagecraft

/-- Advice that does not end with a bar, so that a separator behind it is the first one. -/
def Fix.IsNote : Fix → Prop
  | advice message => message.toList.getLast? ≠ some '|'
  | _ => False

namespace Rule

variable {rule : Rule} {rest matched : List Rule} {chooser : Chooser} {scene : Scene}
  {fixes : List Fix}

def Advises (rule : Rule) : Prop :=
  ∀ chooser scene fixes, rule.fixes chooser scene = .ok fixes → ∀ fix ∈ fixes, fix.IsNote

theorem isNote_append {front back : String} {c : Char} (ends : back.toList.getLast? = some c)
    (other : c ≠ '|') : (Fix.advice (front ++ back)).IsNote := by
  rw [Fix.IsNote, getLast?_append_of ends]
  simpa using other

theorem leftAdvice_notes (left : List String) : ∀ fix ∈ leftAdvice left, fix.IsNote := by
  rw [leftAdvice]
  split
  · exact List.forall_mem_nil _
  · exact List.forall_mem_singleton.mpr (isNote_append rfl (by decide))

theorem rightAdvice_notes (right : List String) : ∀ fix ∈ rightAdvice right, fix.IsNote := by
  rw [rightAdvice]
  split
  · exact List.forall_mem_nil _
  · exact List.forall_mem_singleton.mpr (isNote_append rfl (by decide))

theorem advises_entranceBloat : entranceBloat.Advises := by
  intro chooser scene fixes ran
  obtain ⟨share, -, ran⟩ := Except.bind_ran.mp ran
  cases ran
  rw [List.forall_mem_append, List.forall_mem_append]
  refine ⟨⟨leftAdvice_notes _, rightAdvice_notes _⟩, ?_⟩
  exact List.forall_mem_singleton.mpr (isNote_append rfl (by decide))

theorem advises_oneSidedEntrances : oneSidedEntrances.Advises := by
  rintro chooser scene _ ⟨⟩
  rw [List.forall_mem_singleton]
  have sides : enteredSide scene = "left" ∨ enteredSide scene = "right" := by
    rw [enteredSide]
    split <;> simp
  rcases sides with side | side
  · rw [side]
    exact isNote_append rfl (by decide)
  · rw [side]
    exact isNote_append rfl (by decide)

theorem advises_duplicateSteps : duplicateSteps.Advises := by
  intro chooser scene fixes ran fix member
  obtain ⟨place, -, worded⟩ := Except.mem_mapM ran member
  obtain ⟨step, -, worded⟩ := Except.bind_ran.mp worded
  cases worded
  exact isNote_append rfl (by decide)

theorem advises_idlePadding : idlePadding.Advises := by
  rintro chooser scene _ ⟨⟩
  exact List.forall_mem_singleton.mpr (isNote_append rfl (by decide))

theorem advises_gestureSpam : gestureSpam.Advises := by
  rintro chooser scene _ ⟨⟩
  have last : (commas (swapsFrom 1 gestureAlternatives)).toList.getLast? = some 'p' := by
    decide +kernel
  exact List.forall_mem_singleton.mpr (isNote_append last (by decide))

/-- No list of effects ends with a bar. -/
theorem getLast?_alternativeEffects (effect : String) :
    ∃ c, (commas (alternativeEffects effect)).toList.getLast? = some c ∧ c ≠ '|' := by
  have closed : ∀ effects ∈ defaultAlternatives :: effectAlternatives.map (·.2),
      (commas effects).toList.getLast?.any (· != '|') = true := by
    decide +kernel
  have known : alternativeEffects effect ∈
      defaultAlternatives :: effectAlternatives.map (·.2) := by
    rw [alternativeEffects]
    cases found : effectAlternatives.lookup effect with
    | none => exact List.mem_cons_self
    | some effects =>
      have member := Entries.mem_of_lookup found
      exact List.mem_cons_of_mem _ (List.mem_map.mpr ⟨_, member, rfl⟩)
  have some := closed _ known
  rw [Option.any_eq_true] at some
  obtain ⟨c, last, other⟩ := some
  exact ⟨c, last, bne_iff_ne.mp other⟩

theorem advises_repeatedEffect : repeatedEffect.Advises := by
  rintro chooser scene _ ⟨⟩
  rw [List.forall_mem_map]
  rintro ⟨⟨effect, position⟩, count⟩ -
  obtain ⟨c, last, other⟩ := getLast?_alternativeEffects effect
  exact isNote_append last other

theorem advises_redundantCelebration : redundantCelebration.Advises := by
  intro chooser scene fixes ran
  obtain ⟨cheering, -, ran⟩ := Except.bind_ran.mp ran
  cases ran
  exact List.forall_mem_singleton.mpr (isNote_append rfl (by decide))

theorem advises_cameraShakeSpam : cameraShakeSpam.Advises := by
  intro chooser scene fixes ran
  obtain ⟨climax, -, ran⟩ := Except.bind_ran.mp ran
  cases ran
  exact List.forall_mem_singleton.mpr (isNote_append rfl (by decide))

theorem advises_mechanicalRatio : mechanicalRatio.Advises := by
  rintro chooser scene _ ⟨⟩
  exact List.forall_mem_singleton.mpr (isNote_append rfl (by decide))

theorem advises_repeatedMoveTarget : repeatedMoveTarget.Advises := by
  intro chooser scene fixes ran
  obtain ⟨moves, -, ran⟩ := Except.bind_ran.mp ran
  cases ran
  exact List.forall_mem_map.mpr fun move _ => isNote_append rfl (by decide)

theorem advises_noVisualPayoff : noVisualPayoff.Advises := by
  rintro chooser scene _ ⟨⟩
  exact List.forall_mem_singleton.mpr (isNote_append rfl (by decide))

theorem advises_noNarrator : noNarrator.Advises := by
  rintro chooser scene _ ⟨⟩
  exact List.forall_mem_singleton.mpr (isNote_append rfl (by decide))

/-- All rules but the first two give advice only. -/
theorem advises_of_mem : ∀ rule ∈ rules.drop 2, rule.Advises := by
  have all : rules.drop 2 = [entranceBloat, oneSidedEntrances, duplicateSteps, idlePadding,
      gestureSpam, repeatedEffect, redundantCelebration, cameraShakeSpam, mechanicalRatio,
      repeatedMoveTarget, noVisualPayoff, noNarrator] := rfl
  rw [all]
  simp only [List.forall_mem_cons]
  exact ⟨advises_entranceBloat, advises_oneSidedEntrances, advises_duplicateSteps,
    advises_idlePadding, advises_gestureSpam, advises_repeatedEffect,
    advises_redundantCelebration, advises_cameraShakeSpam, advises_mechanicalRatio,
    advises_repeatedMoveTarget, advises_noVisualPayoff, advises_noNarrator,
    List.forall_mem_nil _⟩

end Rule

variable {rule : Rule} {rest matched : List Rule} {chooser : Chooser} {scene : Scene}
  {fixes : List Fix} {report : Report} {vignette : Vignette}

/-- The fixes of the rules that apply come apart by rule. -/
theorem suggestFixes_hits_cons (hit : hits (rule :: rest) scene = .ok matched)
    (suggested : suggestFixes chooser scene matched = .ok fixes) :
    ∃ first others later, fixes = first ++ others ∧
      (first = [] ∨ rule.fixes chooser scene = .ok first) ∧
      hits rest scene = .ok later ∧ suggestFixes chooser scene later = .ok others := by
  obtain ⟨applies, -, hit⟩ := Except.bind_ran.mp hit
  obtain ⟨later, found, hit⟩ := Except.bind_ran.mp hit
  cases hit
  cases applies with
  | false => exact ⟨[], fixes, later, rfl, .inl rfl, found, suggested⟩
  | true =>
    obtain ⟨first, worded, suggested⟩ := Except.bind_ran.mp suggested
    obtain ⟨others, behind, suggested⟩ := Except.bind_ran.mp suggested
    cases suggested
    exact ⟨first, others, later, rfl, .inr worded, found, behind⟩

theorem suggestFixes_notes (advise : ∀ rule ∈ rest, rule.Advises)
    (hit : hits rest scene = .ok matched)
    (suggested : suggestFixes chooser scene matched = .ok fixes) : ∀ fix ∈ fixes, fix.IsNote := by
  induction rest generalizing matched fixes with
  | nil =>
    cases hit
    cases suggested
    exact List.forall_mem_nil _
  | cons rule rest ih =>
    obtain ⟨first, others, later, rfl, worded, hit, suggested⟩ :=
      suggestFixes_hits_cons hit suggested
    rw [List.forall_mem_append]
    constructor
    · rcases worded with rfl | worded
      · exact List.forall_mem_nil _
      · exact advise rule List.mem_cons_self _ _ _ worded
    · exact ih (fun other member => advise other (List.mem_cons_of_mem _ member)) hit suggested

/-- Lines for characters, then those that open and close the scene, then advice. -/
structure Arranged (fixes : List Fix) (speeches : SpeechFixes) (notes : List Fix) : Prop where
  whole : fixes = speeches.dialogue.map .dialogue ++ (speeches.opening.toList.map .opening ++
    (speeches.closing.toList.map .closing ++ notes))
  notes : ∀ fix ∈ notes, fix.IsNote

theorem silentCharacters_lines (ran : Rule.silentCharacters.fixes chooser scene = .ok fixes) :
    ∃ lines : List Speech, fixes = lines.map .dialogue := by
  obtain ⟨names, -, ran⟩ := Except.bind_ran.mp ran
  cases ran
  exact ⟨names.map fun name => ⟨name, "excited", suggestLine name "excited" chooser⟩, by simp⟩

theorem silentScene_ends (ran : Rule.silentScene.fixes chooser scene = .ok fixes) :
    ∃ opening closing : Option Speech,
      fixes = opening.toList.map .opening ++ closing.toList.map .closing := by
  obtain ⟨lead, -, ran⟩ := Except.bind_ran.mp ran
  cases ran
  exact ⟨some _, some _, rfl⟩

theorem evaluate_arranged (ran : evaluate rules chooser vignette = .ok report) :
    ∃ speeches notes, Arranged report.fixes speeches notes := by
  obtain ⟨matched, hit, ran⟩ := Except.bind_ran.mp ran
  obtain ⟨fixes, suggested, ran⟩ := Except.bind_ran.mp ran
  cases ran
  obtain ⟨first, _, _, whole, silent, hit, suggested⟩ := suggestFixes_hits_cons hit suggested
  obtain ⟨second, notes, _, rfl, quiet, hit, suggested⟩ := suggestFixes_hits_cons hit suggested
  have advice := suggestFixes_notes Rule.advises_of_mem hit suggested
  have lines : ∃ lines : List Speech, first = lines.map .dialogue := by
    rcases silent with rfl | silent
    · exact ⟨[], rfl⟩
    · exact silentCharacters_lines silent
  have ends : ∃ opening closing : Option Speech,
      second = opening.toList.map .opening ++ closing.toList.map .closing := by
    rcases quiet with rfl | quiet
    · exact ⟨none, none, rfl⟩
    · exact silentScene_ends quiet
  obtain ⟨lines, rfl⟩ := lines
  obtain ⟨opening, closing, rfl⟩ := ends
  rw [List.append_assoc] at whole
  exact ⟨⟨lines, opening, closing⟩, notes, whole, advice⟩

namespace Arranged

variable {speeches : SpeechFixes} {notes : List Fix} {speech : Speech}

theorem not_mem_notes (arranged : Arranged fixes speeches notes) {fix : Fix}
    (speech : fix.isSpeech = true) : fix ∉ notes := by
  intro member
  have note := arranged.notes fix member
  cases fix with
  | advice message => cases speech
  | _ => exact note

theorem mem_opening (arranged : Arranged fixes speeches notes) :
    .opening speech ∈ fixes ↔ speeches.opening = some speech := by
  have other : .opening speech ∉ notes := arranged.not_mem_notes rfl
  simp [arranged.whole, other]

theorem mem_closing (arranged : Arranged fixes speeches notes) :
    .closing speech ∈ fixes ↔ speeches.closing = some speech := by
  have other : .closing speech ∉ notes := arranged.not_mem_notes rfl
  simp [arranged.whole, other]

theorem quiet_notes (arranged : Arranged fixes speeches notes) :
    ∀ fix ∈ notes, fix.isSpeech = false := by
  intro fix member
  cases speech : fix.isSpeech with
  | false => rfl
  | true => exact absurd member (arranged.not_mem_notes speech)

theorem filterMap_line? (arranged : Arranged fixes speeches notes) :
    fixes.filterMap Fix.line? = speeches.dialogue := by
  have silent : notes.filterMap Fix.line? = [] := by
    rw [List.filterMap_eq_nil_iff]
    intro fix member
    have quiet := arranged.quiet_notes fix member
    cases fix with
    | advice message => rfl
    | _ => cases quiet
  have lines : (speeches.dialogue.map Fix.dialogue).filterMap Fix.line? = speeches.dialogue := by
    rw [List.filterMap_map]
    exact List.filterMap_some
  have opens : (speeches.opening.toList.map Fix.opening).filterMap Fix.line? = [] := by
    simp [Fix.line?]
  have closes : (speeches.closing.toList.map Fix.closing).filterMap Fix.line? = [] := by
    simp [Fix.line?]
  rw [arranged.whole, List.filterMap_append, List.filterMap_append, List.filterMap_append, lines,
    opens, closes, silent, List.append_nil, List.append_nil, List.append_nil]

theorem any_isSpeech (arranged : Arranged fixes speeches notes) :
    fixes.any Fix.isSpeech = !speeches.isEmpty := by
  have quiet : notes.any Fix.isSpeech = false := by
    rw [List.any_eq_false]
    intro fix member
    rw [arranged.quiet_notes fix member]
    exact Bool.false_ne_true
  obtain ⟨dialogue, opening, closing⟩ := speeches
  rw [arranged.whole, List.any_append, List.any_append, List.any_append, quiet]
  cases dialogue <;> cases opening <;> cases closing <;> rfl

/-- Reading the fixes takes every line, and the one that opens and the one that closes. -/
theorem ofFixes_eq (arranged : Arranged fixes speeches notes) :
    SpeechFixes.ofFixes fixes = speeches := by
  have advice : SpeechFixes.ofFixes notes = .none := by
    have dropped : SpeechFixes.ofFixes (notes ++ []) = SpeechFixes.ofFixes [] :=
      SpeechFixes.ofFixes_advice arranged.quiet_notes
    rwa [List.append_nil] at dropped
  obtain ⟨lines, opening, closing⟩ := speeches
  have ends : SpeechFixes.ofFixes (opening.toList.map .opening ++
      (closing.toList.map .closing ++ notes)) = ⟨[], opening, closing⟩ := by
    cases opening <;> cases closing <;> simp [SpeechFixes.ofFixes, advice, SpeechFixes.none]
  rw [arranged.whole, SpeechFixes.ofFixes_lines, ends, List.append_nil]

theorem unbarred (arranged : Arranged fixes speeches notes) :
    ∀ fix ∈ fixes, fix.render.toList.getLast? ≠ some '|' := by
  intro fix member
  cases fix with
  | advice message =>
    have note : .advice message ∈ notes := by simpa [arranged.whole] using member
    exact arranged.notes _ note
  | _ =>
    rw [Fix.getLast?_render rfl]
    decide

/-- A column of legible fixes is read back as what was suggested. -/
theorem parseColumn_eq (arranged : Arranged fixes speeches notes)
    (legible : ∀ fix ∈ fixes, fix.Legible) :
    SpeechFixes.parseColumn (renderFixes fixes) = speeches := by
  rw [SpeechFixes.parseColumn_renderFixes legible arranged.unbarred, arranged.ofFixes_eq]

end Arranged

end Stagecraft
