import Stagecraft.Proofs.Edit.RowRun
import Stagecraft.Proofs.Edit.Woven
import Stagecraft.Proofs.Record.Room

/-!
Records that welcome speech: wherever it may go in, there is a seam. They still do when lines have
gone in, at one of their seams or outside of them.
-/

namespace Stagecraft

variable {lines more : List String} {extent : Extent} {seams : Seams} {index place : Nat}
  {buffer : Buffer} {record steps : Span} {before after : List (List String)}

namespace Seams

/-- The line of the file is one above which the record is cut. -/
def SeamAt (seams : Seams) (first place : Nat) : Prop :=
  ∃ before after, seams.paragraphs = before ++ after ∧
    place = first + seams.front.length + before.flatten.length

/-- The lines of the record are those of the file from its first to its last one. -/
def Fills (seams : Seams) (lines : List String) (extent : Extent) : Prop :=
  ∃ above below, lines = above ++ seams.lines ++ below ∧ extent.first = above.length ∧
    extent.last + 1 = (above ++ seams.lines).length

theorem fills_iff (order : extent.first ≤ extent.last) (inside : extent.last < lines.length) :
    seams.Fills lines extent ↔ extent.linesIn lines = seams.lines := by
  constructor
  · intro fills
    obtain ⟨above, below, rfl, first, last⟩ := fills
    rw [Extent.linesIn, last, first, List.take_left, List.drop_left]
  · intro same
    have size : (lines.take (extent.last + 1)).length = extent.last + 1 :=
      List.length_take_of_le inside
    have above : lines.take extent.first = (lines.take (extent.last + 1)).take extent.first := by
      rw [List.take_take, Nat.min_eq_left (by omega)]
    have whole : lines.take extent.first ++ seams.lines = lines.take (extent.last + 1) := by
      rw [← same, Extent.linesIn, above, List.take_append_drop]
    refine ⟨lines.take extent.first, lines.drop (extent.last + 1), ?_, ?_, ?_⟩
    · rw [whole, List.take_append_drop]
    · rw [List.length_take_of_le (by omega)]
    · rw [whole, size]

theorem Fills.outside (fills : seams.Fills lines extent) (order : extent.first ≤ extent.last)
    (outside : index ≤ extent.first ∨ extent.last < index) :
    seams.Fills (putLines index more lines) (extent.push index more.length) := by
  obtain ⟨above, below, rfl, first, last⟩ := fills
  rcases outside with up | down
  · refine ⟨putLines index more above, below, ?_, ?_, ?_⟩
    · rw [List.append_assoc, putLines_append_left (by omega), List.append_assoc]
    · change pushDown index more.length extent.first = _
      rw [pushDown, if_pos up, length_putLines, first]
    · change pushDown index more.length extent.last + 1 = _
      rw [List.length_append] at last ⊢
      rw [length_putLines, pushDown, if_pos (by omega)]
      omega
  · refine ⟨above, putLines (index - (above ++ seams.lines).length) more below, ?_, ?_, ?_⟩
    · rw [putLines_append_right (by omega)]
    · change pushDown index more.length extent.first = _
      rw [pushDown_of_lt (by omega), first]
    · change pushDown index more.length extent.last + 1 = _
      rw [pushDown_of_lt down, last]

theorem length_lines (seams : Seams) : seams.lines.length =
    seams.front.length + seams.paragraphs.flatten.length + seams.back.length := by
  rw [lines, List.length_append, List.length_append]

/-- Lines at a seam are a further paragraph. -/
theorem Fills.inside (fills : seams.Fills lines extent) (split : seams.paragraphs = before ++ after)
    (filled : seams.front ≠ []) (ends : seams.back ≠ []) :
    (seams.keeping (before ++ more :: after)).Fills
      (putLines (extent.first + seams.front.length + before.flatten.length) more lines)
      (extent.push (extent.first + seams.front.length + before.flatten.length) more.length) := by
  obtain ⟨above, below, rfl, first, last⟩ := fills
  have leads := List.length_pos_iff.mpr filled
  have rest := List.length_pos_iff.mpr ends
  have whole := seams.length_lines
  rw [split, List.flatten_append, List.length_append] at whole
  rw [List.length_append, whole] at last
  refine ⟨above, below, ?_, ?_, ?_⟩
  · have parts : above ++ seams.lines ++ below =
        (above ++ seams.front ++ before.flatten) ++ (after.flatten ++ seams.back ++ below) := by
      simp only [Seams.lines, split, List.flatten_append, List.append_assoc]
    have place : extent.first + seams.front.length + before.flatten.length =
        (above ++ seams.front ++ before.flatten).length := by
      rw [List.length_append, List.length_append, first]
    rw [parts, place, putLines, List.take_left, List.drop_left]
    simp only [Seams.lines, keeping, List.flatten_append, List.flatten_cons, List.append_assoc]
  · change pushDown _ more.length extent.first = _
    rw [pushDown_of_lt (by omega), first]
  · change pushDown _ more.length extent.last + 1 = _
    rw [pushDown, if_pos (by omega), List.length_append, length_lines]
    simp only [keeping, List.flatten_append, List.flatten_cons, List.length_append]
    omega

/-- The seams of a record are still there when lines have gone in at one of them. -/
theorem SeamAt.inside {first : Nat} (seam : seams.SeamAt first place)
    (split : seams.paragraphs = before ++ after)
    (here : index = first + seams.front.length + before.flatten.length) :
    (seams.keeping (before ++ more :: after)).SeamAt first (pushDown index more.length place) := by
  obtain ⟨before', after', split', rfl⟩ := seam
  rw [split] at split'
  rcases List.append_eq_append_iff.mp split' with ⟨middle, rfl, rfl⟩ | ⟨middle, rfl, rfl⟩
  · -- the place is at the new lines or below, and below them then
    refine ⟨before ++ more :: middle, after', by simp [keeping], ?_⟩
    simp only [keeping, List.flatten_append, List.flatten_cons, List.length_append]
    rw [pushDown, if_pos (by omega)]
    omega
  · by_cases empty : middle.flatten = []
    · refine ⟨before' ++ middle ++ [more], after, by simp [keeping], ?_⟩
      have none := congrArg List.length empty
      simp only [List.flatten_append, List.length_append, List.length_nil] at here none
      simp only [keeping, List.flatten_append, List.flatten_singleton, List.length_append]
      rw [pushDown, if_pos (by omega)]
      omega
    · have some := List.length_pos_iff.mpr empty
      simp only [List.flatten_append, List.length_append] at here
      refine ⟨before', middle ++ more :: after, by simp [keeping], ?_⟩
      rw [pushDown_of_lt (by omega)]
      rfl

end Seams

/-- Each line above which speech may go in is a seam: that of a cue, the one below the first
entrance, and the closing one where there is no climax. -/
structure Welcomes (lines : List String) (extent : Extent) (seams : Seams) : Prop where
  cues : ∀ line, LevelAt lines extent.opening extent.closing line → (lines[line]?).any cuesOn →
    seams.SeamAt extent.first line
  entrance : ∀ line, EntranceAt lines extent.opening extent.closing line →
    seams.SeamAt extent.first (line + 1)
  ending : seams.SeamAt extent.first extent.closing ∨
    ∃ line, LevelAt lines extent.opening extent.closing line ∧ (lines[line]?).any climaxOn

namespace Welcomes

theorem dialogue {point : Nat} (welcomes : Welcomes buffer.lines extent seams)
    (marks : extent.Marks record steps) (pointed : insertionPoint buffer steps = .ok point) :
    seams.SeamAt extent.first point := by
  have level (line : Nat) : LevelAt buffer.lines steps.start (steps.stop - 1) line ↔
      LevelAt buffer.lines extent.opening extent.closing line := by
    rw [marks.opening, marks.closing, Nat.add_sub_cancel]
  rcases insertionPoint_ok pointed with ends | ⟨there, cue⟩
  · rcases welcomes.ending with seam | ⟨line, high, climax⟩
    · rwa [ends, marks.closing, Nat.add_sub_cancel]
    · obtain ⟨there, cue⟩ := insertionPoint_climax pointed ((level line).mpr high) climax
      exact welcomes.cues point ((level point).mp there) cue
  · exact welcomes.cues point ((level point).mp there) cue

/-- A record goes on welcoming speech while its seams move along. -/
theorem put {seams' : Seams} (welcomes : Welcomes lines extent seams)
    (inside : index ≤ lines.length) (quiet : ∀ line ∈ more, lineDelta .square line = 0)
    (silent : ∀ line ∈ more, entersOn line = false ∧ cuesOn line = false)
    (moves : ∀ place, place ≤ extent.closing → seams.SeamAt extent.first place →
      seams'.SeamAt (pushDown index more.length extent.first) (pushDown index more.length place))
    (stays : index ≤ extent.closing → extent.first < index → seams.SeamAt extent.first index →
      seams'.SeamAt (pushDown index more.length extent.first) index)
    (order : extent.first ≤ extent.opening) :
    Welcomes (putLines index more lines) (extent.push index more.length) seams' where
  cues := by
    intro line level cue
    obtain ⟨old, rfl, cue'⟩ := exists_old_of_test inside (fun line there => (silent line there).2) cue
    have level' := (levelAt_putLines inside (.inr quiet)).mp level
    exact moves old (Nat.le_of_lt level'.2.1) (welcomes.cues old level' cue')
  entrance := by
    intro line first
    obtain ⟨old, rfl, first'⟩ := (entranceAt_putLines inside
      (.inr fun line there => ⟨quiet line there, (silent line there).1⟩)).mp first
    have seam := welcomes.entrance old first'
    obtain ⟨low, high, -⟩ := first'.1
    by_cases here : index = old + 1
    · have up : pushDown index more.length old + 1 = index := by
        rw [pushDown_of_lt (by omega), here]
      rw [up]
      rw [← here] at seam
      exact stays (by omega) (by omega) seam
    · have next : pushDown index more.length old + 1 = pushDown index more.length (old + 1) := by
        simp only [pushDown]
        split <;> split <;> omega
      rw [next]
      exact moves (old + 1) (by omega) seam
  ending := by
    rcases welcomes.ending with seam | ⟨line, level, climax⟩
    · exact .inl (moves _ (Nat.le_refl _) seam)
    · refine .inr ⟨_, (levelAt_putLines inside (.inr quiet)).mpr level, ?_⟩
      rwa [getElem?_putLines_old inside]

end Welcomes

end Stagecraft
