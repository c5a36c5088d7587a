import Stagecraft.Proofs.Record.Growth
import Stagecraft.Record.Around

/-!
Step-level lines by their depth. The scan keeps a running depth, and lists from top to bottom just
the lines that have depth one when it is summed up anew for each of them. They come in order, so the
first one with a property is the one that has it and has none above it with the same property.
-/

namespace Stagecraft

variable {lines more : List String} {levels : List Nat} {depth : Int}
  {index opening closing line found : Nat} {test : Nat → Bool}

/-- The line starts a direct member of the array that opens and closes on these lines. -/
def LevelAt (lines : List String) (opening closing line : Nat) : Prop :=
  opening < line ∧ line < closing ∧ depthAt .square lines opening line = 1

theorem mem_levelOneFrom :
    line ∈ levelOneFrom depth index lines ↔ ∃ offset, offset < lines.length ∧
      line = index + offset ∧ depth + totalDelta .square (lines.take offset) = 1 := by
  induction lines generalizing depth index with
  | nil => simp [levelOneFrom]
  | cons first rest ih =>
    have others : line ∈ levelOneFrom (depth + lineDelta .square first) (index + 1) rest ↔
        ∃ offset, offset < rest.length ∧ line = index + (offset + 1) ∧
          depth + totalDelta .square ((first :: rest).take (offset + 1)) = 1 := by
      rw [ih]
      simp only [List.take_succ_cons, totalDelta, Int.add_assoc, Nat.add_assoc, Nat.add_comm 1]
    have split : line ∈ levelOneFrom depth index (first :: rest) ↔
        depth = 1 ∧ line = index ∨
          line ∈ levelOneFrom (depth + lineDelta .square first) (index + 1) rest := by
      rw [levelOneFrom]
      split
      · next one => simp [one]
      · next other => simp [other]
    rw [split, others]
    constructor
    · rintro (⟨one, rfl⟩ | ⟨offset, inside, place, one⟩)
      · exact ⟨0, by simp, rfl, by simpa [totalDelta] using one⟩
      · exact ⟨offset + 1, by simpa using inside, place, one⟩
    · rintro ⟨offset, inside, place, one⟩
      cases offset with
      | zero => exact .inl ⟨by simpa [totalDelta] using one, place⟩
      | succ offset => exact .inr ⟨offset, by simpa using inside, place, one⟩

theorem pairwise_levelOneFrom : (levelOneFrom depth index lines).Pairwise (· < ·) := by
  induction lines generalizing depth index with
  | nil => exact .nil
  | cons first rest ih =>
    rw [levelOneFrom]
    split
    · refine List.pairwise_cons.mpr ⟨?_, ih⟩
      intro other member
      obtain ⟨offset, -, rfl, -⟩ := mem_levelOneFrom.mp member
      omega
    · exact ih

theorem stepLevelLines_ok (answer : stepLevelLines lines opening closing = .ok levels) :
    levels.Pairwise (· < ·) ∧ ∀ line, line ∈ levels ↔ LevelAt lines opening closing line := by
  rw [stepLevelLines] at answer
  split at answer
  · cases answer
  · next text present =>
    split at answer
    · next within =>
      simp only [Except.ok.injEq] at answer
      subst answer
      refine ⟨pairwise_levelOneFrom, fun line => ?_⟩
      have depths {offset : Nat} (low : opening + 1 + offset ≤ closing) :
          lineDelta .square text +
              totalDelta .square (((lines.take closing).drop (opening + 1)).take offset) =
            depthAt .square lines opening (opening + 1 + offset) := by
        obtain ⟨inside, rfl⟩ := List.getElem?_eq_some_iff.mp present
        have short : opening < (lines.take (opening + 1 + offset)).length := by
          rw [List.length_take]
          omega
        have head : (lines.take (opening + 1 + offset)).drop opening =
            lines[opening] :: (lines.take (opening + 1 + offset)).drop (opening + 1) := by
          rw [List.drop_eq_getElem_cons short, List.getElem_take]
        rw [depthAt, head, totalDelta, List.take_drop, List.take_take, Nat.min_eq_left low]
      rw [mem_levelOneFrom, LevelAt, List.length_drop, List.length_take]
      constructor
      · rintro ⟨offset, inside, rfl, one⟩
        rw [depths (by omega)] at one
        exact ⟨by omega, by omega, one⟩
      · rintro ⟨low, high, one⟩
        obtain ⟨offset, rfl⟩ := Nat.exists_eq_add_of_lt low
        rw [Nat.add_right_comm] at high one ⊢
        exact ⟨offset, by omega, rfl, by rw [depths (by omega), one]⟩
    · cases answer

theorem stepLevelLines_defined (inside : opening < lines.length)
    (within : closing ≤ lines.length) :
    ∃ levels, stepLevelLines lines opening closing = .ok levels := by
  rw [stepLevelLines, List.getElem?_eq_getElem inside]
  simp only [within, if_true]
  exact ⟨_, rfl⟩

theorem stepLevelLines_inside (answer : stepLevelLines lines opening closing = .ok levels) :
    opening < lines.length ∧ closing ≤ lines.length := by
  rw [stepLevelLines] at answer
  split at answer
  · cases answer
  · next text present =>
    split at answer
    · next within => exact ⟨(List.getElem?_eq_some_iff.mp present).1, within⟩
    · cases answer

theorem levelOneFrom_append (depth : Int) (index : Nat) (first second : List String) :
    levelOneFrom depth index (first ++ second) = levelOneFrom depth index first ++
      levelOneFrom (depth + totalDelta .square first) (index + first.length) second := by
  induction first generalizing depth index with
  | nil => simp [levelOneFrom, totalDelta]
  | cons line rest ih =>
    simp only [List.cons_append, levelOneFrom, totalDelta, List.length_cons, ih, Int.add_assoc,
      Nat.add_assoc, Nat.add_comm 1]
    split
    · rfl
    · rfl

theorem levelOneFrom_add (down : Nat) (lines : List String) :
    levelOneFrom depth (index + down) lines = (levelOneFrom depth index lines).map (· + down) := by
  induction lines generalizing depth index with
  | nil => rfl
  | cons line rest ih =>
    rw [levelOneFrom, levelOneFrom, Nat.add_right_comm, ih]
    split <;> rfl

section Around

variable {stop : Int}

theorem linesAround_toNat (start : Nat) (within : stop ≤ lines.length) :
    linesAround lines start stop = .ok ((lines.take stop.toNat).drop start) := by
  by_cases below : stop < 0
  · have none : stop.toNat = 0 := Int.toNat_of_nonpos (by omega)
    simp only [linesAround]
    rw [none, if_pos (by omega), List.take_zero, List.drop_nil]
  · obtain ⟨place, rfl⟩ := Int.eq_ofNat_of_zero_le (Int.not_lt.mp below)
    exact linesAround_natCast lines (Int.ofNat_le.mp within)

/-- Searching by line numbers that may be negative finds the same step-level lines. -/
theorem levelsAround_of_stepLevelLines (within : stop ≤ lines.length)
    (answer : stepLevelLines lines opening stop.toNat = .ok levels) :
    levelsAround lines opening stop = .ok (levels.map Int.ofNat) := by
  rw [stepLevelLines] at answer
  split at answer
  · cases answer
  · next text present =>
    obtain ⟨inside, rfl⟩ := List.getElem?_eq_some_iff.mp present
    rw [if_pos (by omega), Except.ok.injEq] at answer
    have first : linesAround lines opening (opening + 1) = .ok [lines[opening]] := by
      have line := @linesAround_toNat lines (opening + 1) opening (by omega)
      have next : ((opening : Int) + 1).toNat = opening + 1 := rfl
      rwa [next, List.drop_take, Nat.add_sub_cancel_left, List.drop_eq_getElem_cons inside,
        List.take_succ_cons, List.take_zero] at line
    have inner := @linesAround_toNat lines stop (opening + 1) within
    rw [show ((opening + 1 : Nat) : Int) = opening + 1 from rfl] at inner
    have shifted := @levelOneFrom_add (lineDelta .square lines[opening]) 0 (opening + 1)
      ((lines.take stop.toNat).drop (opening + 1))
    rw [Nat.zero_add, answer] at shifted
    have numbers : (fun place : Nat => (opening : Int) + 1 + place) =
        Int.ofNat ∘ (· + (opening + 1)) := by
      funext place
      simp only [Function.comp, Int.ofNat_eq_natCast, Int.natCast_add, Int.natCast_one]
      omega
    simp only [levelsAround, first, inner, bind, Except.bind, pure, Except.pure, totalDelta,
      Int.add_zero, shifted, List.map_map, numbers]

/-- Both searches list, from top to bottom, just the lines strictly inside the array that have depth
one, whatever the lines hold and wherever the array is said to close. -/
theorem stepLevels_iff_isStepLevel (inside : opening < lines.length)
    (within : stop ≤ lines.length) :
    ∃ levels, stepLevelLines lines opening stop.toNat = .ok levels ∧
      levelsAround lines opening stop = .ok (levels.map Int.ofNat) ∧
      levels.Pairwise (· < ·) ∧
      ∀ line : Nat, line ∈ levels ↔
        opening < line ∧ (line : Int) < stop ∧ isStepLevel lines opening line = true := by
  obtain ⟨levels, answer⟩ := @stepLevelLines_defined lines opening stop.toNat inside (by omega)
  obtain ⟨sorted, member⟩ := stepLevelLines_ok answer
  refine ⟨levels, answer, levelsAround_of_stepLevelLines within answer, sorted, ?_⟩
  intro line
  have above : line < stop.toNat ↔ (line : Int) < stop := by omega
  rw [member, LevelAt, isStepLevel, beq_iff_eq, above]

/-- The second line closes more than was opened, and the third one opens two arrays. -/
def sunkenLines : List String := ["steps: [", "]]", "[[", "a", "]["]

theorem stepLevels_iff_isStepLevel_sunken :
    0 < sunkenLines.length ∧ (5 : Int) ≤ sunkenLines.length ∧
      ∃ levels, stepLevelLines sunkenLines 0 5 = .ok levels ∧
        levelsAround sunkenLines 0 5 = .ok (levels.map Int.ofNat) ∧
        levels.Pairwise (· < ·) ∧ 1 ∈ levels ∧ 2 ∉ levels ∧ 3 ∈ levels := by
  have inside : 0 < sunkenLines.length := by decide
  have within : (5 : Int) ≤ sunkenLines.length := by decide
  obtain ⟨levels, answer, around, sorted, member⟩ := stepLevels_iff_isStepLevel inside within
  refine ⟨inside, within, levels, answer, around, sorted, ?_, ?_, ?_⟩
  · exact (member 1).mpr (by decide)
  · exact fun present => absurd ((member 2).mp present) (by decide)
  · exact (member 3).mpr (by decide)

end Around

theorem find?_eq_some_iff_first (sorted : levels.Pairwise (· < ·)) :
    levels.find? test = some found ↔
      found ∈ levels ∧ test found ∧ ∀ early ∈ levels, early < found → ¬ test early := by
  induction levels with
  | nil => simp
  | cons first rest ih =>
    obtain ⟨above, sorted⟩ := List.pairwise_cons.mp sorted
    by_cases here : test first
    · rw [List.find?_cons_of_pos here]
      constructor
      · intro same
        obtain rfl := Option.some.inj same
        refine ⟨by simp, here, ?_⟩
        intro early member low
        rcases List.mem_cons.mp member with rfl | later
        · exact absurd low (Nat.lt_irrefl _)
        · exact absurd (above early later) (by omega)
      · rintro ⟨member, -, before⟩
        rcases List.mem_cons.mp member with rfl | later
        · rfl
        · exact absurd here (before first (by simp) (above found later))
    · rw [List.find?_cons_of_neg here, ih sorted]
      constructor
      · rintro ⟨member, there, before⟩
        refine ⟨List.mem_cons_of_mem _ member, there, ?_⟩
        intro early present low
        rcases List.mem_cons.mp present with rfl | later
        · exact here
        · exact before early later low
      · rintro ⟨member, there, before⟩
        have later : found ∈ rest := by
          rcases List.mem_cons.mp member with rfl | later
          · exact absurd there here
          · exact later
        exact ⟨later, there, fun early present => before early (List.mem_cons_of_mem _ present)⟩

theorem levelAt_putLines (inside : index ≤ lines.length)
    (flat : index ≤ opening ∨ ∀ line ∈ more, lineDelta .square line = 0) :
    LevelAt (putLines index more lines) (pushDown index more.length opening)
        (pushDown index more.length closing) (pushDown index more.length line) ↔
      LevelAt lines opening closing line := by
  simp only [LevelAt, pushDown_lt_iff]
  constructor
  · rintro ⟨low, high, one⟩
    rw [depthAt_putLines inside flat (pushDown_le_iff.mpr (Nat.le_of_lt low)),
      countOld_pushDown] at one
    exact ⟨low, high, one⟩
  · rintro ⟨low, high, one⟩
    rw [depthAt_putLines inside flat (pushDown_le_iff.mpr (Nat.le_of_lt low)), countOld_pushDown]
    exact ⟨low, high, one⟩

/-- A line starts a member of one array only: where another one opens further down, the first has
come back to depth zero or is deeper by then. -/
theorem LevelAt.opening_unique {other end' : Nat} (first : LevelAt lines opening closing line)
    (second : LevelAt lines other end' line) (ends : ClosesAt .square lines opening closing)
    (ends' : ClosesAt .square lines other end') : opening = other := by
  have forward {a b c : Nat} (level : LevelAt lines a c line) (ends : ClosesAt .square lines a c)
      (inner : depthAt .square lines b line = 1) (low : b < line) : ¬ a < b := by
    intro order
    obtain ⟨start, stop, one⟩ := level
    have open' := ends.2.2.2 b order (by omega)
    rw [depthAt_eq_sub (Nat.le_of_lt start)] at one
    rw [depthAt_eq_sub (Nat.le_of_lt low)] at inner
    rw [depthAt_eq_sub (Nat.le_of_lt order)] at open'
    omega
  have one := forward first ends second.2.2 second.1
  have two := forward second ends' first.2.2 first.1
  omega

end Stagecraft
