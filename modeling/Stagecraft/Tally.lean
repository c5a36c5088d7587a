/-!
Sums of a count over a list.
-/

namespace Stagecraft

def sumOf {α : Type} (count : α → Nat) : List α → Nat
  | [] => 0
  | x :: rest => count x + sumOf count rest

theorem sumOf_append {α : Type} (count : α → Nat) (first second : List α) :
    sumOf count (first ++ second) = sumOf count first + sumOf count second := by
  induction first with
  | nil => simp [sumOf]
  | cons x rest ih => simp [sumOf, ih, Nat.add_assoc]

theorem sumOf_perm {α : Type} {count : α → Nat} {one other : List α} (same : one.Perm other) :
    sumOf count one = sumOf count other := by
  induction same with
  | nil => rfl
  | cons x _ ih => rw [sumOf, sumOf, ih]
  | swap x y rest =>
    simp only [sumOf]
    omega
  | trans _ _ ih ih' => rw [ih, ih']

theorem sumOf_sublist {α : Type} {count : α → Nat} {part whole : List α}
    (fewer : part.Sublist whole) : sumOf count part ≤ sumOf count whole := by
  induction fewer with
  | slnil => exact Nat.le_refl _
  | cons x _ ih => exact Nat.le_trans ih (Nat.le_add_left ..)
  | cons_cons x _ ih => exact Nat.add_le_add_left ih _

end Stagecraft
