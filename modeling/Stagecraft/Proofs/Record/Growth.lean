import Stagecraft.Proofs.Buffer.Splice
import Stagecraft.Proofs.Record.Scan
import Stagecraft.Record.StepLevel

/-!
What more lines in a file do to the searches over it. Every line keeps its neighbours but for the
new ones, so a search that passes over the new lines ends at the same line, pushed down.
-/

namespace Stagecraft

/-- Where a line goes when `count` lines are put in front of line `index`. -/
def pushDown (index count position : Nat) : Nat :=
  if index ≤ position then position + count else position

/-- How many of the first `position` lines were there before. -/
def countOld (index count position : Nat) : Nat :=
  min position index + (position - (index + count))

section Positions

variable {index count first second : Nat}

theorem pushDown_lt_iff : pushDown index count first < pushDown index count second ↔
    first < second := by
  simp only [pushDown]
  split <;> split <;> omega

theorem pushDown_le_iff : pushDown index count first ≤ pushDown index count second ↔
    first ≤ second := by
  simp only [pushDown]
  split <;> split <;> omega

theorem pushDown_inj : pushDown index count first = pushDown index count second ↔
    first = second := by
  simp only [pushDown]
  split <;> split <;> omega

theorem le_pushDown : first ≤ pushDown index count first := by
  simp only [pushDown]
  split <;> omega

theorem pushDown_of_lt (front : first < index) : pushDown index count first = first := by
  rw [pushDown, if_neg (Nat.not_le.mpr front)]

/-- Lines do not come closer to each other. -/
theorem sub_le_pushDown_sub (index count : Nat) (order : first ≤ second) :
    second - first ≤ pushDown index count second - pushDown index count first := by
  simp only [pushDown]
  split <;> split <;> omega

theorem countOld_pushDown : countOld index count (pushDown index count first) = first := by
  simp only [countOld, pushDown]
  split <;> omega

theorem countOld_pushDown_succ :
    countOld index count (pushDown index count first + 1) = first + 1 := by
  simp only [countOld, pushDown]
  split <;> omega

/-- A place is that of an old line or that of a new one. -/
theorem exists_pushDown (index count position : Nat) :
    (∃ old, position = pushDown index count old) ∨
      index ≤ position ∧ position < index + count := by
  by_cases front : position < index
  · exact .inl ⟨position, (pushDown_of_lt front).symm⟩
  · by_cases behind : index + count ≤ position
    · left
      refine ⟨position - count, ?_⟩
      simp only [pushDown]
      split <;> omega
    · right
      omega

end Positions

section Lines

variable {lines more : List String} {marks : Brackets} {test : String → Bool}
  {index start line found above : Nat}

theorem getElem?_putLines_old (inside : index ≤ lines.length) (position : Nat) :
    (putLines index more lines)[pushDown index more.length position]? = lines[position]? := by
  have front : (lines.take index).length = index := List.length_take_of_le inside
  simp only [putLines, pushDown]
  split
  · next behind =>
    rw [List.getElem?_append_right (by simp [front]; omega), List.getElem?_drop]
    simp only [List.length_append, front]
    congr 1
    omega
  · next ahead =>
    rw [List.append_assoc, List.getElem?_append_left (by omega),
      List.getElem?_take_of_lt (by omega)]

theorem getElem?_putLines_new (inside : index ≤ lines.length) {offset : Nat}
    (low : offset < more.length) :
    (putLines index more lines)[index + offset]? = more[offset]? := by
  have front : (lines.take index).length = index := List.length_take_of_le inside
  rw [putLines, List.append_assoc, List.getElem?_append_right (by omega),
    List.getElem?_append_left (by omega)]
  congr 1
  omega

/-- What fails on every new line holds of old lines only. -/
theorem exists_old_of_test (inside : index ≤ lines.length)
    (foreign : ∀ line ∈ more, test line = false) {position : Nat}
    (holds : ((putLines index more lines)[position]?).any test) :
    ∃ old, position = pushDown index more.length old ∧ (lines[old]?).any test := by
  rcases exists_pushDown index more.length position with ⟨old, rfl⟩ | ⟨low, high⟩
  · rw [getElem?_putLines_old inside] at holds
    exact ⟨old, rfl, holds⟩
  · obtain ⟨offset, rfl⟩ := Nat.exists_eq_add_of_le low
    rw [getElem?_putLines_new inside (by omega),
      List.getElem?_eq_getElem (by omega : offset < more.length), Option.any_some,
      foreign _ (List.getElem_mem _)] at holds
    cases holds

theorem totalDelta_eq_zero (level : ∀ line ∈ lines, lineDelta marks line = 0) :
    totalDelta marks lines = 0 := by
  induction lines with
  | nil => rfl
  | cons line rest ih =>
    rw [totalDelta, level line (by simp), ih fun other member => level other (by simp [member]),
      Int.add_zero]

theorem depthAt_eq_sub {stop : Nat} (order : start ≤ stop) :
    depthAt marks lines start stop =
      totalDelta marks (lines.take stop) - totalDelta marks (lines.take start) := by
  have whole := List.take_append_drop start (lines.take stop)
  rw [List.take_take, Nat.min_eq_left order] at whole
  rw [← whole, totalDelta_append, depthAt]
  omega

/-- The depth over the first lines, when it stays the same over the new ones. -/
theorem totalDelta_take_putLines (inside : index ≤ lines.length)
    (level : ∀ line ∈ more, lineDelta marks line = 0) (stop : Nat) :
    totalDelta marks ((putLines index more lines).take stop) =
      totalDelta marks (lines.take (countOld index more.length stop)) := by
  have front : (lines.take index).length = index := List.length_take_of_le inside
  have flat : totalDelta marks (more.take (stop - index)) = 0 :=
    totalDelta_eq_zero fun line member => level line (List.mem_of_mem_take member)
  have parts : (putLines index more lines).take stop =
      lines.take (min stop index) ++ more.take (stop - index) ++
        (lines.drop index).take (stop - (index + more.length)) := by
    simp only [putLines, List.take_append, front, List.take_take, List.length_append]
  have old : lines.take (countOld index more.length stop) =
      lines.take (min stop index) ++ (lines.drop index).take (stop - (index + more.length)) := by
    by_cases ahead : stop ≤ index
    · have none : stop - (index + more.length) = 0 := by omega
      simp [countOld, none]
    · have all : min stop index = index := by omega
      rw [countOld, all, List.take_add]
  rw [parts, old, totalDelta_append, totalDelta_append, totalDelta_append, flat, Int.add_zero]

/-- The depth over the first lines behind the new ones. -/
theorem totalDelta_take_putLines_behind {stop : Nat} (inside : index ≤ lines.length)
    (behind : index + more.length ≤ stop) :
    totalDelta marks ((putLines index more lines).take stop) =
      totalDelta marks (lines.take (countOld index more.length stop)) + totalDelta marks more := by
  have front : (lines.take index).length = index := List.length_take_of_le inside
  have all : min stop index = index := by omega
  have parts : (putLines index more lines).take stop =
      lines.take index ++ more ++ (lines.drop index).take (stop - (index + more.length)) := by
    simp only [putLines, List.take_append, front, List.take_take, List.length_append, all]
    rw [List.take_of_length_le (by omega : more.length ≤ stop - index)]
  rw [parts, countOld, all, List.take_add]
  simp only [totalDelta_append]
  omega

/-- The new lines stand above all that is counted, or do not count. -/
theorem depthAt_putLines {stop : Nat} (inside : index ≤ lines.length)
    (flat : index ≤ start ∨ ∀ line ∈ more, lineDelta marks line = 0)
    (order : pushDown index more.length start ≤ stop) :
    depthAt marks (putLines index more lines) (pushDown index more.length start) stop =
      depthAt marks lines start (countOld index more.length stop) := by
  have kept : start ≤ countOld index more.length stop := by
    simp only [countOld, pushDown] at order ⊢
    split at order <;> omega
  rw [depthAt_eq_sub order, depthAt_eq_sub kept]
  rcases flat with above | level
  · have first : index + more.length ≤ pushDown index more.length start := by
      simp only [pushDown]
      split <;> omega
    rw [totalDelta_take_putLines_behind inside (Nat.le_trans first order),
      totalDelta_take_putLines_behind inside first, countOld_pushDown]
    omega
  · rw [totalDelta_take_putLines inside level, totalDelta_take_putLines inside level,
      countOld_pushDown]

end Lines

section Searches

variable {lines more : List String} {marks : Brackets} {test : String → Bool}
  {index start stop line found above window : Nat}

/-- The first line from `start` on that satisfies the test. -/
def FirstAt (test : String → Bool) (lines : List String) (start found : Nat) : Prop :=
  start ≤ found ∧ (lines[found]?).any test ∧
    ∀ between, start ≤ between → between < found → ¬ (lines[between]?).any test

/-- The nearest opening line at or above `line`. -/
def OpensAt (lines : List String) (line above : Nat) : Prop :=
  above ≤ line ∧ (lines[above]?).any opensRecord ∧
    ∀ between, above < between → between ≤ line → ¬ (lines[between]?).any opensRecord

/-- The line that closes what line `start` opens. -/
def ClosesAt (marks : Brackets) (lines : List String) (start found : Nat) : Prop :=
  start ≤ found ∧ found < lines.length ∧ depthAt marks lines start (found + 1) = 0 ∧
    ∀ early, start < early → early ≤ found → depthAt marks lines start early ≠ 0

theorem openingAbove_iff_opensAt :
    openingAbove lines window line = some above ↔
      OpensAt lines line above ∧ line ≤ above + window := by
  rw [openingAbove_eq_some_iff, OpensAt]
  tauto

theorem matchingClose_iff_closesAt :
    matchingClose marks lines start stop = some found ↔
      ClosesAt marks lines start found ∧ found < stop := by
  rw [matchingClose_eq_some_iff, ClosesAt]
  tauto

theorem firstLine_eq_some_iff :
    firstLine test index lines = some found ↔
      ∃ offset, found = index + offset ∧ (lines[offset]?).any test ∧
        ∀ early < offset, ¬ (lines[early]?).any test := by
  induction lines generalizing index with
  | nil => simp [firstLine]
  | cons line rest ih =>
    rw [firstLine]
    by_cases here : test line
    · rw [if_pos here]
      constructor
      · intro same
        refine ⟨0, (Option.some.inj same).symm, by simpa using here, ?_⟩
        intro early low
        omega
      · rintro ⟨offset, rfl, -, before⟩
        cases offset with
        | zero => rfl
        | succ offset => exact absurd (by simpa using here) (before 0 (Nat.succ_pos offset))
    · rw [if_neg here, ih]
      constructor
      · rintro ⟨offset, rfl, there, before⟩
        refine ⟨offset + 1, by omega, by simpa using there, ?_⟩
        intro early low
        cases early with
        | zero => simpa using here
        | succ early => simpa using before early (by omega)
      · rintro ⟨offset, rfl, there, before⟩
        cases offset with
        | zero => exact absurd (by simpa using there) here
        | succ offset =>
          refine ⟨offset, by omega, by simpa using there, ?_⟩
          intro early low
          simpa using before (early + 1) (by omega)

theorem firstLine_eq_none_iff :
    firstLine test index lines = none ↔ ∀ line ∈ lines, test line = false := by
  induction lines generalizing index with
  | nil => simp [firstLine]
  | cons line rest ih =>
    rw [firstLine, List.forall_mem_cons]
    by_cases here : test line
    · simp [here]
    · rw [if_neg here, ih]
      simp [here]

theorem firstLine_slice_iff_firstAt :
    firstLine test start ((lines.take stop).drop start) = some found ↔
      FirstAt test lines start found ∧ found < stop := by
  have slice (offset : Nat) (low : start + offset < stop) :
      ((lines.take stop).drop start)[offset]? = lines[start + offset]? := by
    rw [List.getElem?_drop, List.getElem?_take_of_lt low]
  rw [firstLine_eq_some_iff, FirstAt]
  constructor
  · rintro ⟨offset, rfl, there, before⟩
    have low : start + offset < stop := by
      by_contra high
      rw [List.getElem?_drop, List.getElem?_take_eq_none (by omega)] at there
      cases there
    rw [slice offset low] at there
    refine ⟨⟨Nat.le_add_right _ _, there, ?_⟩, low⟩
    intro between first last
    have other := before (between - start) (by omega)
    rwa [slice _ (by omega), Nat.add_sub_cancel' first] at other
  · rintro ⟨⟨first, there, before⟩, low⟩
    obtain ⟨offset, rfl⟩ := Nat.exists_eq_add_of_le first
    refine ⟨offset, rfl, by rwa [slice offset low], ?_⟩
    intro early high
    rw [slice early (by omega)]
    exact before (start + early) (Nat.le_add_right _ _) (by omega)

theorem firstLine_iff_firstAt :
    firstLine test 0 lines = some found ↔ FirstAt test lines 0 found := by
  rw [firstLine_eq_some_iff, FirstAt]
  simp

theorem FirstAt.unique {other : Nat} (first : FirstAt test lines start found)
    (second : FirstAt test lines start other) : found = other := by
  obtain ⟨low, here, before⟩ := first
  obtain ⟨low', here', before'⟩ := second
  rcases Nat.lt_trichotomy found other with less | same | more
  · exact absurd here (before' found low less)
  · exact same
  · exact absurd here' (before other low' more)

theorem ClosesAt.unique {other : Nat} (first : ClosesAt marks lines start found)
    (second : ClosesAt marks lines start other) : found = other := by
  obtain ⟨low, -, zero, before⟩ := first
  obtain ⟨low', -, zero', before'⟩ := second
  rcases Nat.lt_trichotomy found other with less | same | more
  · exact absurd zero (before' (found + 1) (by omega) less)
  · exact same
  · exact absurd zero' (before (other + 1) (by omega) more)

theorem firstAt_putLines (inside : index ≤ lines.length)
    (passed : index ≤ start ∨ ∀ line ∈ more, test line = false) :
    FirstAt test (putLines index more lines) (pushDown index more.length start) found ↔
      ∃ old, found = pushDown index more.length old ∧ FirstAt test lines start old := by
  constructor
  · rintro ⟨low, here, before⟩
    have kept : ∃ old, found = pushDown index more.length old := by
      rcases passed with above | foreign
      · refine ⟨found - more.length, ?_⟩
        simp only [pushDown] at low ⊢
        split at low <;> split <;> omega
      · obtain ⟨old, same, -⟩ := exists_old_of_test inside foreign here
        exact ⟨old, same⟩
    obtain ⟨old, rfl⟩ := kept
    rw [getElem?_putLines_old inside] at here
    refine ⟨old, rfl, pushDown_le_iff.mp low, here, ?_⟩
    intro between first last
    rw [← getElem?_putLines_old inside]
    exact before _ (pushDown_le_iff.mpr first) (pushDown_lt_iff.mpr last)
  · rintro ⟨old, rfl, low, here, before⟩
    refine ⟨pushDown_le_iff.mpr low, by rwa [getElem?_putLines_old inside], ?_⟩
    intro between first last holds
    rcases exists_pushDown index more.length between with ⟨place, rfl⟩ | ⟨behind, ahead⟩
    · rw [getElem?_putLines_old inside] at holds
      exact before place (pushDown_le_iff.mp first) (pushDown_lt_iff.mp last) holds
    · rcases passed with above | foreign
      · simp only [pushDown] at first
        split at first <;> omega
      · obtain ⟨place, rfl, there⟩ := exists_old_of_test inside foreign holds
        exact before place (pushDown_le_iff.mp first) (pushDown_lt_iff.mp last) there

theorem opensAt_putLines (inside : index ≤ lines.length)
    (closed : ∀ line ∈ more, opensRecord line = false) :
    OpensAt (putLines index more lines) (pushDown index more.length line) found ↔
      ∃ old, found = pushDown index more.length old ∧ OpensAt lines line old := by
  constructor
  · rintro ⟨low, here, after⟩
    obtain ⟨old, rfl, opens⟩ := exists_old_of_test inside closed here
    refine ⟨old, rfl, pushDown_le_iff.mp low, opens, ?_⟩
    intro between first last
    rw [← getElem?_putLines_old inside]
    exact after _ (pushDown_lt_iff.mpr first) (pushDown_le_iff.mpr last)
  · rintro ⟨old, rfl, low, here, after⟩
    refine ⟨pushDown_le_iff.mpr low, by rwa [getElem?_putLines_old inside], ?_⟩
    intro between first last holds
    obtain ⟨place, rfl, opens⟩ := exists_old_of_test inside closed holds
    exact after place (pushDown_lt_iff.mp first) (pushDown_le_iff.mp last) opens

theorem closesAt_putLines (inside : index ≤ lines.length)
    (flat : index ≤ start ∨ ∀ line ∈ more, lineDelta marks line = 0) :
    ClosesAt marks (putLines index more lines) (pushDown index more.length start) found ↔
      ∃ old, found = pushDown index more.length old ∧ ClosesAt marks lines start old := by
  constructor
  · rintro ⟨low, present, zero, before⟩
    rw [length_putLines] at present
    rw [depthAt_putLines inside flat (by omega)] at zero
    have kept : ∃ old, found = pushDown index more.length old := by
      rcases exists_pushDown index more.length found with old | ⟨behind, ahead⟩
      · exact old
      · -- the depth behind a new line is the one in front of it
        have later : pushDown index more.length start < found := by
          rcases Nat.lt_or_eq_of_le low with later | same
          · exact later
          · simp only [pushDown] at same
            split at same <;> omega
        have open' := before found later (Nat.le_refl _)
        rw [depthAt_putLines inside flat low] at open'
        have count : countOld index more.length (found + 1) =
            countOld index more.length found := by
          simp only [countOld]
          omega
        rw [count] at zero
        exact absurd zero open'
    obtain ⟨old, rfl⟩ := kept
    rw [countOld_pushDown_succ] at zero
    refine ⟨old, rfl, pushDown_le_iff.mp low, ?_, zero, ?_⟩
    · simp only [pushDown] at present
      split at present <;> omega
    · intro early first last
      have open' := before (pushDown index more.length (early - 1) + 1)
        (Nat.lt_succ_of_le (pushDown_le_iff.mpr (by omega)))
        (pushDown_lt_iff.mpr (by omega))
      rw [depthAt_putLines inside flat, countOld_pushDown_succ, Nat.sub_add_cancel (by omega)]
        at open'
      · exact open'
      · exact Nat.le_succ_of_le (pushDown_le_iff.mpr (by omega))
  · rintro ⟨old, rfl, low, present, zero, before⟩
    refine ⟨pushDown_le_iff.mpr low, ?_, ?_, ?_⟩
    · rw [length_putLines]
      simp only [pushDown]
      split <;> omega
    · rwa [depthAt_putLines inside flat (Nat.le_succ_of_le (pushDown_le_iff.mpr low)),
        countOld_pushDown_succ]
    · intro early first last
      rw [depthAt_putLines inside flat (Nat.le_of_lt first)]
      refine before _ ?_ ?_
      · simp only [pushDown] at first
        simp only [countOld]
        split at first <;> omega
      · simp only [pushDown] at last
        simp only [countOld]
        split at last <;> omega

end Searches

end Stagecraft
