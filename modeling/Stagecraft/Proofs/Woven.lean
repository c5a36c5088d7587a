/-!
Further elements woven into those of a list, where both keep their order.
-/

namespace Stagecraft

/-- The third list has the elements of the first and those of the second, each in their order. -/
inductive Woven {α : Type} : List α → List α → List α → Prop where
  | done : Woven [] [] []
  | keep {old added whole : List α} (x : α) (others : Woven old added whole) :
      Woven (x :: old) added (x :: whole)
  | add {old added whole : List α} (x : α) (others : Woven old added whole) :
      Woven old (x :: added) (x :: whole)

namespace Woven

variable {α β : Type} {old added whole first second : List α}

theorem refl (old : List α) : Woven old [] old := by
  induction old with
  | nil => exact .done
  | cons x old ih => exact .keep x ih

theorem adds (new : List α) (woven : Woven old added whole) :
    Woven old (new ++ added) (new ++ whole) := by
  induction new with
  | nil => exact woven
  | cons x new ih => exact .add x ih

theorem keeps (kept : List α) (woven : Woven old added whole) :
    Woven (kept ++ old) added (kept ++ whole) := by
  induction kept with
  | nil => exact woven
  | cons x kept ih => exact .keep x ih

theorem keeps_end (woven : Woven old added whole) (kept : List α) :
    Woven (old ++ kept) added (whole ++ kept) := by
  induction woven with
  | done => exact refl kept
  | keep x _ ih => exact .keep x ih
  | add x _ ih => exact .add x ih

theorem flatMap (woven : Woven old added whole) (f : α → List β) :
    Woven (old.flatMap f) (added.flatMap f) (whole.flatMap f) := by
  induction woven with
  | done => exact .done
  | keep x _ ih =>
    rw [List.flatMap_cons, List.flatMap_cons]
    exact ih.keeps (f x)
  | add x _ ih =>
    rw [List.flatMap_cons, List.flatMap_cons]
    exact ih.adds (f x)

/-- More can be put in anywhere. -/
theorem put (woven : Woven old added (first ++ second)) (new : List α) :
    ∃ before after, added = before ++ after ∧
      Woven old (before ++ new ++ after) (first ++ new ++ second) := by
  induction first generalizing old added with
  | nil => exact ⟨[], added, rfl, woven.adds new⟩
  | cons x first ih =>
    cases woven with
    | keep _ others =>
      obtain ⟨before, after, split, woven⟩ := ih others
      exact ⟨before, after, split, .keep x woven⟩
    | add _ others =>
      obtain ⟨before, after, split, woven⟩ := ih others
      exact ⟨x :: before, after, by rw [split, List.cons_append], .add x woven⟩

theorem mem (woven : Woven old added whole) {x : α} (member : x ∈ whole) : x ∈ old ∨ x ∈ added := by
  induction woven with
  | done => exact .inl member
  | keep y _ ih =>
    rcases List.mem_cons.mp member with here | later
    · exact .inl (List.mem_cons.mpr (.inl here))
    · exact (ih later).imp_left (List.mem_cons_of_mem y)
  | add y _ ih =>
    rcases List.mem_cons.mp member with here | later
    · exact .inr (List.mem_cons.mpr (.inl here))
    · exact (ih later).imp_right (List.mem_cons_of_mem y)

theorem mem_of_added (woven : Woven old added whole) {x : α} (member : x ∈ added) : x ∈ whole := by
  induction woven with
  | done => exact member
  | keep y _ ih => exact List.mem_cons_of_mem y (ih member)
  | add y _ ih =>
    rcases List.mem_cons.mp member with here | later
    · exact List.mem_cons.mpr (.inl here)
    · exact List.mem_cons_of_mem y (ih later)

theorem sublist (woven : Woven old added whole) : old.Sublist whole := by
  induction woven with
  | done => exact .slnil
  | keep x _ ih => exact ih.cons_cons x
  | add x _ ih => exact ih.cons x

theorem of_sublist (part : old.Sublist whole) : ∃ added, Woven old added whole := by
  induction part with
  | slnil => exact ⟨[], .done⟩
  | cons x _ ih =>
    obtain ⟨added, woven⟩ := ih
    exact ⟨x :: added, .add x woven⟩
  | cons_cons x _ ih =>
    obtain ⟨added, woven⟩ := ih
    exact ⟨added, .keep x woven⟩

/-- Each of the old ones may as well be one of those that were added. -/
theorem take {x : α} (woven : Woven (first ++ x :: second) added whole) :
    ∃ before after, added = before ++ after ∧
      Woven (first ++ second) (before ++ x :: after) whole := by
  -- the weave is followed down to the place where the element was kept
  generalize same : first ++ x :: second = old at woven
  induction woven generalizing first with
  | done => exact absurd same (by simp)
  | keep y others ih =>
    cases first with
    | nil =>
      obtain ⟨rfl, rfl⟩ := List.cons.inj same
      exact ⟨[], _, rfl, .add x others⟩
    | cons _ first =>
      obtain ⟨rfl, behind⟩ := List.cons.inj same
      obtain ⟨before, after, split, woven⟩ := ih behind
      exact ⟨before, after, split, .keep _ woven⟩
  | add y others ih =>
    obtain ⟨before, after, split, woven⟩ := ih same
    exact ⟨y :: before, after, by rw [split, List.cons_append], .add y woven⟩

end Woven

end Stagecraft
