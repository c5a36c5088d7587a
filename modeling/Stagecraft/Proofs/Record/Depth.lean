import Mathlib.Data.List.Basic
import Stagecraft.Depth

/-!
Where a region closes. The depth over lines is a sum, so a search for the closing line goes through
a list piece by piece: it ends in the first piece, or goes on in the second with the depth of the
first. A closing line is the first line behind which the depth is zero.
-/

namespace Stagecraft

variable {marks : Brackets} {lines first second : List String} {depth : Int}
  {index start stop found : Nat}

theorem totalDelta_append (marks : Brackets) (first second : List String) :
    totalDelta marks (first ++ second) = totalDelta marks first + totalDelta marks second := by
  induction first with
  | nil => simp [totalDelta]
  | cons line rest ih => simp only [List.cons_append, totalDelta, ih, Int.add_assoc]

theorem closeFrom_append (marks : Brackets) (depth : Int) (index : Nat)
    (first second : List String) :
    closeFrom marks depth index (first ++ second) =
      (closeFrom marks depth index first).or
        (closeFrom marks (depth + totalDelta marks first) (index + first.length) second) := by
  induction first generalizing depth index with
  | nil => simp [closeFrom, totalDelta]
  | cons line rest ih =>
    simp only [List.cons_append, closeFrom, totalDelta, List.length_cons]
    split
    · rfl
    · rw [ih, Int.add_assoc, Nat.add_assoc, Nat.add_comm 1]

/-- The closing line is the first one behind which the depth is zero. -/
theorem closeFrom_eq_some_iff :
    closeFrom marks depth index lines = some found ↔
      ∃ count, count < lines.length ∧ found = index + count ∧
        depth + totalDelta marks (lines.take (count + 1)) = 0 ∧
        ∀ early < count, depth + totalDelta marks (lines.take (early + 1)) ≠ 0 := by
  induction lines generalizing depth index with
  | nil => simp [closeFrom]
  | cons line rest ih =>
    rw [closeFrom]
    by_cases closed : depth + lineDelta marks line = 0
    · rw [if_pos closed]
      constructor
      · intro same
        refine ⟨0, by simp, by simpa using same.symm, by simpa [totalDelta] using closed, ?_⟩
        intro early low
        omega
      · rintro ⟨count, -, rfl, -, before⟩
        cases count with
        | zero => rfl
        | succ count =>
          exact absurd (by simpa [totalDelta] using closed) (before 0 (Nat.succ_pos count))
    · rw [if_neg closed, ih]
      have shift (count : Nat) :
          depth + totalDelta marks ((line :: rest).take (count + 1 + 1)) =
            depth + lineDelta marks line + totalDelta marks (rest.take (count + 1)) := by
        rw [List.take_succ_cons, totalDelta, Int.add_assoc]
      constructor
      · rintro ⟨count, inside, rfl, zero, before⟩
        refine ⟨count + 1, by simpa using inside, by omega, by rw [shift, zero], ?_⟩
        intro early low
        cases early with
        | zero => simpa [totalDelta] using closed
        | succ early =>
          rw [shift]
          exact before early (by omega)
      · rintro ⟨count, inside, rfl, zero, before⟩
        cases count with
        | zero => exact absurd (by simpa [totalDelta] using zero) closed
        | succ count =>
          refine ⟨count, by simpa using inside, by omega, by rw [← shift, zero], ?_⟩
          intro early low
          rw [← shift]
          exact before (early + 1) (by omega)

theorem matchingClose_eq_some_iff :
    matchingClose marks lines start stop = some found ↔
      start ≤ found ∧ found < stop ∧ found < lines.length ∧
        depthAt marks lines start (found + 1) = 0 ∧
        ∀ early, start < early → early ≤ found → depthAt marks lines start early ≠ 0 := by
  have shift (count : Nat) (low : start + count < stop) :
      0 + totalDelta marks (((lines.take stop).drop start).take (count + 1)) =
        depthAt marks lines start (start + count + 1) := by
    rw [List.take_drop, List.take_take, Nat.min_eq_left (by omega), Int.zero_add]
    rfl
  rw [matchingClose, closeFrom_eq_some_iff, List.length_drop, List.length_take]
  constructor
  · rintro ⟨count, inside, rfl, zero, before⟩
    rw [shift count (by omega)] at zero
    refine ⟨by omega, by omega, by omega, zero, ?_⟩
    intro early low high
    have open' := before (early - start - 1) (by omega)
    rw [shift (early - start - 1) (by omega)] at open'
    rwa [show start + (early - start - 1) + 1 = early by omega] at open'
  · rintro ⟨low, inside, present, zero, before⟩
    refine ⟨found - start, by omega, by omega, ?_, ?_⟩
    · rw [shift (found - start) (by omega), Nat.add_sub_cancel' low]
      exact zero
    · intro early high
      rw [shift early (by omega)]
      exact before (start + early + 1) (by omega) (by omega)

end Stagecraft
