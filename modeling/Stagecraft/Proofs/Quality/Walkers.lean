import Stagecraft.Proofs.Edit.Troupe
import Stagecraft.Proofs.Quality.Duplicates

/-!
Characters that walk on, one by one or together. Either way they appear, walk and stand, in steps
that are told from one another.
-/

namespace Stagecraft

/-- A character and where it goes. -/
abbrev Walker := Value × Value

section Beats

variable {side : Side} {walker : Walker} {walkers : List Walker} {test : Action → Bool}

namespace Side

/-- The steps in which one character walks on. -/
def walkOn (side : Side) (walker : Walker) : List Step :=
  (Directive.walkOn side.off walker.1 walker.2).map fun step =>
    { step with directive := some side.directive }

/-- The steps in which characters walk on together. -/
def walkTogether (side : Side) (walkers : List Walker) : List Step :=
  (Directive.groupSteps side.off walkers).map fun step =>
    { step with directive := some side.groupDirective }

theorem expand_directive :
    expand side.directive [walker.1, walker.2] = .ok (some (side.walkOn walker)) := by
  cases side <;> rfl

theorem expand_directive_default (who : Value) :
    expand side.directive [who] = .ok (some (side.walkOn (who, .str side.defaultTarget))) := by
  cases side <;> rfl

theorem expand_groupDirective (aimed : ∀ walker ∈ walkers, walker.2.isPresent = true) :
    expand side.groupDirective [.list (walkers.map fun walker => .list [walker.1, walker.2])] =
      .ok (some (side.walkTogether walkers)) := by
  apply expand_group
  induction walkers with
  | nil => rfl
  | cons walker walkers ih =>
    have rest := ih fun other member => aimed other (List.mem_cons_of_mem _ member)
    rw [List.map_cons, List.mapM_cons, rest, Directive.groupMember,
      if_pos (aimed walker (List.mem_cons_self ..))]
    rfl

/-- Characters appear, walk and are heard. -/
def appearing (side : Side) (walkers : List Walker) : List Action :=
  walkers.map (fun walker => .spawnCharacter walker.1 side.off) ++
    walkers.map (fun walker => .animate walker.1 "Walking_A") ++ [.sound "footstep"]

end Side

def walking (walkers : List Walker) : List Action :=
  walkers.map fun walker => .move walker.1 walker.2

def standing (walkers : List Walker) : List Action := walkers.map fun walker => idle walker.1

/-- The actions of a group, step by step. -/
def Side.beats (side : Side) (walkers : List Walker) : List (List Action) :=
  [side.appearing walkers, walking walkers, standing walkers]

theorem walkTogether_actions :
    (side.walkTogether walkers).map (·.actions) = side.beats walkers := rfl

/-- One character walks on like a group of one. -/
theorem walkOn_actions : (side.walkOn walker).map (·.actions) = side.beats [walker] := rfl

section Differing

theorem head?_actionKey {action : Action} {first : Char} (kind : String)
    (named : Value.textOf (Fields.get? action "action") = kind)
    (begins : kind.toList.head? = some first) :
    (Scene.actionKey action).toList.head? = some first := by
  rw [Scene.actionKey, named]
  simp only [String.toList_append, List.append_assoc, List.head?_append, begins, Option.some_or]

theorem getLast?_actionKey {action : Action} {last : Char} (shown : String)
    (same : Value.textOf (action.either "anim" "effect") = shown)
    (ends : shown.toList.getLast? = some last) :
    (Scene.actionKey action).toList.getLast? = some last := by
  rw [Scene.actionKey, same, String.toList_append, List.getLast?_append, ends, Option.some_or]

theorem head?_spawn (who off : Value) :
    (Scene.actionKey (.spawnCharacter who off)).toList.head? = some 's' :=
  head?_actionKey "spawn_character" rfl (by decide)

theorem head?_animate (who anim : Value) :
    (Scene.actionKey (.animate who anim)).toList.head? = some 'a' :=
  head?_actionKey "animate" rfl (by decide)

theorem head?_sound (name : Value) : (Scene.actionKey (.sound name)).toList.head? = some 's' :=
  head?_actionKey "sfx" rfl (by decide)

theorem mem_appearing {action : Action} : action ∈ side.appearing walkers ↔
    (∃ walker ∈ walkers, action = .spawnCharacter walker.1 side.off) ∨
      (∃ walker ∈ walkers, action = .animate walker.1 "Walking_A") ∨
        action = .sound "footstep" := by
  simp only [Side.appearing, List.mem_append, List.mem_map, List.mem_singleton, or_assoc, eq_comm]

theorem appearing_ne_nil (side : Side) (walkers : List Walker) : side.appearing walkers ≠ [] := by
  simp [Side.appearing]

theorem head?_appearing (side : Side) (walkers : List Walker) :
    (Scene.stepKey (side.appearing walkers)).toList.head? = some 's' ∨
    (Scene.stepKey (side.appearing walkers)).toList.head? = some 'a' := by
  obtain ⟨action, member, begins⟩ := exists_first (appearing_ne_nil side walkers)
  rw [begins]
  rcases mem_appearing.mp member with ⟨walker, -, rfl⟩ | ⟨walker, -, rfl⟩ | rfl
  · exact .inl (head?_spawn _ _)
  · exact .inr (head?_animate _ _)
  · exact .inl (head?_sound _)

/-- The sound comes behind the animations in the order of the keys. -/
theorem getLast?_appearing :
    (Scene.stepKey (side.appearing walkers)).toList.getLast? = some 'e' := by
  obtain ⟨action, member, ends, greatest⟩ := exists_last (appearing_ne_nil side walkers)
  rw [ends]
  rcases mem_appearing.mp member with ⟨walker, -, rfl⟩ | ⟨walker, -, rfl⟩ | rfl
  · exact getLast?_actionKey "None" rfl (by decide)
  · have order := greatest (.sound "footstep") (mem_appearing.mpr (.inr (.inr rfl)))
    obtain ⟨rest, heard⟩ := List.head?_eq_some_iff.mp (head?_sound "footstep")
    obtain ⟨more, walks⟩ := List.head?_eq_some_iff.mp (head?_animate walker.1 "Walking_A")
    exact absurd (le_of_codesLe heard (by decide) walks (by decide) order) (by decide)
  · exact getLast?_actionKey "None" rfl (by decide)

theorem head?_stepKey {actions : List Action} {first : Char} (kind : String)
    (begins : kind.toList.head? = some first) (filled : actions ≠ [])
    (named : ∀ action ∈ actions, Value.textOf (Fields.get? action "action") = kind) :
    (Scene.stepKey actions).toList.head? = some first := by
  obtain ⟨action, member, same⟩ := exists_first filled
  rw [same]
  exact head?_actionKey kind (named action member) begins

theorem head?_walking (filled : walkers ≠ []) :
    (Scene.stepKey (walking walkers)).toList.head? = some 'm' := by
  apply head?_stepKey "move" (by decide) (by simpa [walking])
  intro action member
  obtain ⟨walker, -, rfl⟩ := List.mem_map.mp member
  rfl

theorem head?_standing (filled : walkers ≠ []) :
    (Scene.stepKey (standing walkers)).toList.head? = some 'a' := by
  apply head?_stepKey "animate" (by decide) (by simpa [standing])
  intro action member
  obtain ⟨walker, -, rfl⟩ := List.mem_map.mp member
  rfl

theorem getLast?_standing (filled : walkers ≠ []) :
    (Scene.stepKey (standing walkers)).toList.getLast? = some 'A' := by
  obtain ⟨action, member, ends, -⟩ := exists_last (show standing walkers ≠ [] by simpa [standing])
  obtain ⟨walker, -, rfl⟩ := List.mem_map.mp member
  rw [ends]
  exact getLast?_actionKey "Idle_A" rfl (by decide)

/-- The steps of a group are told apart. -/
theorem isChain_beats (filled : walkers ≠ []) : (side.beats walkers).IsChain Differs := by
  rw [Side.beats, List.isChain_cons_cons, List.isChain_pair]
  refine ⟨.inr fun same => ?_, .inr fun same => ?_⟩
  · rcases head?_appearing side walkers with here | here <;>
    · rw [← same, head?_walking filled] at here
      exact absurd here (by decide)
  · have here := head?_standing filled
    rw [same, head?_walking filled] at here
    exact absurd here (by decide)

/-- Those who stand are told from those who appear. -/
theorem standing_differs {others : List Walker} (filled : walkers ≠ []) :
    Differs (standing walkers) (side.appearing others) := by
  refine .inr fun same => ?_
  have here := getLast?_standing filled
  rw [← same, getLast?_appearing] at here
  exact absurd here (by decide)

/-- So are the steps of walkers that come on one by one. -/
theorem isChain_run : (walkers.flatMap fun walker => side.beats [walker]).IsChain Differs := by
  rw [List.flatMap_def, List.isChain_flatten (by simp [Side.beats]), List.forall_mem_map,
    List.isChain_map]
  refine ⟨fun walker _ => isChain_beats (List.cons_ne_nil _ _), ?_⟩
  refine (List.pairwise_of_forall fun walker other => ?_).isChain
  rintro _ ⟨⟩ _ ⟨⟩
  exact standing_differs (List.cons_ne_nil _ _)

end Differing

end Beats

end Stagecraft
