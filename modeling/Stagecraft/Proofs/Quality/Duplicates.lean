import Mathlib.Data.List.Chain
import Mathlib.Data.List.Lex
import Stagecraft.Quality.Scene

/-!
What tells a step from the one before it. The key of a step is made of the keys of its actions in
sorted order, so it begins and ends as the key of one of its actions does.
-/

namespace Stagecraft

variable {a b c : String} {parts : List String} {action : Action} {actions : List Action}
  {scene : Scene}

section Order

theorem codesLe_iff : codesLe a b = true ↔ codes a.toList ≤ codes b.toList := by
  have less : Nat.blt = fun m n => decide (m < n) := by
    funext m n
    exact Bool.eq_iff_iff.mpr (by simp [Nat.blt_eq])
  rw [codesLe, less, Bool.not_eq_true', ← Bool.not_eq_true, List.lex_eq_true_iff_lt, not_lt]

theorem codesLe_trans (first : codesLe a b = true) (second : codesLe b c = true) :
    codesLe a c = true := by
  rw [codesLe_iff] at first second ⊢
  exact first.trans second

theorem codesLe_total (a b : String) : (codesLe a b || codesLe b a) = true := by
  rw [Bool.or_eq_true, codesLe_iff, codesLe_iff]
  exact le_total _ _

/-- A text that begins with a later letter does not come first. -/
theorem le_of_codesLe {first second : Char} {rest more : List Char}
    (begins : a.toList = first :: rest) (plain : first ≠ escapeMark)
    (begins' : b.toList = second :: more) (plain' : second ≠ escapeMark)
    (ordered : codesLe a b = true) : first.toNat ≤ second.toNat := by
  rw [codesLe_iff, begins, begins', codes_cons plain, codes_cons plain'] at ordered
  by_contra later
  exact absurd (List.cons_lt_cons_iff.mpr (.inl (Nat.lt_of_not_le later))) (not_lt.mpr ordered)

end Order

section Keys

theorem getLast?_join {last : String} (filled : last ≠ "") :
    (join "|" (parts ++ [last])).toList.getLast? = last.toList.getLast? := by
  induction parts with
  | nil => rw [List.nil_append, join, String.intercalate_singleton]
  | cons part parts ih =>
    have more : parts ++ [last] ≠ [] := by simp
    obtain ⟨final, ends⟩ := Option.isSome_iff_exists.mp (show last.toList.getLast?.isSome by
      simpa using filled)
    rw [join] at ih ⊢
    rw [List.cons_append, String.intercalate_cons_of_ne_nil more, String.toList_append,
      List.getLast?_append, ih, ends]
    rfl

theorem head?_join {first : String} (filled : first ≠ "") :
    (join "|" (first :: parts)).toList.head? = first.toList.head? := by
  cases parts with
  | nil => rw [join, String.intercalate_singleton]
  | cons part parts =>
    obtain ⟨initial, begins⟩ := Option.isSome_iff_exists.mp (show first.toList.head?.isSome by
      simpa using filled)
    rw [join, String.intercalate_cons_of_ne_nil (List.cons_ne_nil _ _), String.toList_append,
      String.toList_append, List.append_assoc, List.head?_append, begins]
    rfl

theorem actionKey_ne_empty : Scene.actionKey action ≠ "" := by
  rw [Scene.actionKey]
  simp

/-- The key of a step begins as the key of one of its actions. -/
theorem exists_first (filled : actions ≠ []) : ∃ action ∈ actions,
    (Scene.stepKey actions).toList.head? = (Scene.actionKey action).toList.head? := by
  have same := List.mergeSort_perm (actions.map Scene.actionKey) codesLe
  rw [Scene.stepKey]
  generalize (actions.map Scene.actionKey).mergeSort codesLe = keys at same ⊢
  cases keys with
  | nil => exact absurd (List.map_eq_nil_iff.mp same.nil_eq.symm) filled
  | cons first rest =>
    have member : first ∈ actions.map Scene.actionKey := same.subset (List.mem_cons_self ..)
    obtain ⟨action, there, rfl⟩ := List.mem_map.mp member
    exact ⟨action, there, head?_join actionKey_ne_empty⟩

/-- It ends as the last of the keys of its actions. -/
theorem exists_last (filled : actions ≠ []) : ∃ action ∈ actions,
    (Scene.stepKey actions).toList.getLast? = (Scene.actionKey action).toList.getLast? ∧
      ∀ other ∈ actions, codesLe (Scene.actionKey other) (Scene.actionKey action) = true := by
  have same := List.mergeSort_perm (actions.map Scene.actionKey) codesLe
  have ordered := @List.pairwise_mergeSort String codesLe (fun _ _ _ => codesLe_trans)
    codesLe_total (actions.map Scene.actionKey)
  rw [Scene.stepKey]
  generalize (actions.map Scene.actionKey).mergeSort codesLe = keys at same ordered ⊢
  rcases List.eq_nil_or_concat keys with rfl | ⟨front, last, rfl⟩
  · exact absurd (List.map_eq_nil_iff.mp same.nil_eq.symm) filled
  · rw [List.concat_eq_append] at same ordered ⊢
    have member : last ∈ actions.map Scene.actionKey := same.subset (by simp)
    obtain ⟨action, there, rfl⟩ := List.mem_map.mp member
    refine ⟨action, there, getLast?_join actionKey_ne_empty, ?_⟩
    intro other member
    have key := same.symm.subset (List.mem_map_of_mem (f := Scene.actionKey) member)
    rcases List.mem_append.mp key with before | here
    · exact (List.pairwise_append.mp ordered).2.2 _ before _ (List.mem_singleton_self _)
    · rw [List.mem_singleton.mp here]
      simpa using codesLe_total (Scene.actionKey action) (Scene.actionKey action)

end Keys

/-- A step that is no duplicate of the one before it. -/
def Differs (before step : List Action) : Prop :=
  Scene.stepKey step = "" ∨ Scene.stepKey step ≠ Scene.stepKey before

instance (before step : List Action) : Decidable (Differs before step) :=
  inferInstanceAs (Decidable (_ ∨ _))

theorem pairPlacesFrom_eq_nil_iff {α : Type} {test : Option α → α → Bool} {before : α}
    {place : Nat} {items : List α} : pairPlacesFrom test (some before) place items = [] ↔
      (before :: items).IsChain fun earlier later => test (some earlier) later = false := by
  induction items generalizing before place with
  | nil => simp [pairPlacesFrom]
  | cons item items ih =>
    rw [pairPlacesFrom, List.isChain_cons_cons, ← @ih item (place + 1)]
    cases test (some before) item <;> simp

theorem duplicateSteps_eq_nil_iff : scene.duplicateSteps = [] ↔ scene.steps.IsChain Differs := by
  rw [Scene.duplicateSteps]
  cases scene.steps with
  | nil => simp [pairPlacesFrom]
  | cons step steps =>
    rw [pairPlacesFrom, Option.any_none, Bool.and_false, if_neg Bool.false_ne_true,
      pairPlacesFrom_eq_nil_iff]
    simp only [Option.any_some, Bool.and_eq_false_iff, bne_eq_false_iff_eq, beq_eq_false_iff_ne]
    rfl

end Stagecraft
