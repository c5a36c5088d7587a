import Stagecraft.Proofs.Edit.Runs
import Stagecraft.Proofs.Vignette.Elements

/-!
Walking on one by one and walking on together. A group spawns the characters of its run and moves
them to the targets they had, each in the order of the run, in three steps in place of three for
each.
-/

namespace Stagecraft

variable {entrance : Entrance} {run : List Entrance} {runs : List (List Entrance)} {side : Side}
  {old new : List Step} {elements elements' : List Value} {reading : Reading}

/-- Where a side is off the stage. -/
def Side.off : Side → String
  | left => "off-left"
  | right => "off-right"

/-- The directive that brings on one character. -/
def Side.directive (side : Side) : String := "ENTER_FROM_" ++ side.label

/-- The steps of a character that walks on. -/
def Entrance.steps (entrance : Entrance) : List Step :=
  (Directive.walkOn entrance.side.off entrance.character entrance.target).map fun step =>
    { step with directive := some entrance.side.directive }

/-- The steps of characters that walk on together. -/
def togetherSteps (side : Side) (run : List Entrance) : List Step :=
  (Directive.groupSteps side.off (run.map fun entrance =>
    (.str entrance.character, .str entrance.target))).map fun step =>
      { step with directive := some side.groupDirective }

/-- Entrances from one side. -/
def FromSide (side : Side) (run : List Entrance) : Prop :=
  run ≠ [] ∧ ∀ entrance ∈ run, entrance.side = side

/-- The steps are the same, in the same order, but that runs walk on together. -/
inductive Regrouped : List Step → List Step → List (List Entrance) → Prop where
  | done : Regrouped [] [] []
  | keep {old new : List Step} {runs : List (List Entrance)} (step : Step)
      (others : Regrouped old new runs) : Regrouped (step :: old) (step :: new) runs
  | merge {old new : List Step} {runs : List (List Entrance)} {side : Side} {run : List Entrance}
      (sided : FromSide side run) (others : Regrouped old new runs) :
      Regrouped (run.flatMap Entrance.steps ++ old) (togetherSteps side run ++ new) (run :: runs)

namespace Regrouped

theorem keeps (kept : List Step) (regrouped : Regrouped old new runs) :
    Regrouped (kept ++ old) (kept ++ new) runs := by
  induction kept with
  | nil => exact regrouped
  | cons step kept ih => exact .keep step ih

theorem refl (steps : List Step) : Regrouped steps steps [] := by
  have kept := keeps steps .done
  rwa [List.append_nil] at kept

end Regrouped

/-- All actions of steps, in order. -/
def actionsOf (steps : List Step) : List Action := steps.flatMap (·.actions)

section Actions

theorem actionsOf_append (first second : List Step) :
    actionsOf (first ++ second) = actionsOf first ++ actionsOf second := List.flatMap_append

theorem spawns_steps (entrance : Entrance) :
    Action.ofKind "spawn_character" (actionsOf entrance.steps) =
      [.spawnCharacter entrance.character entrance.side.off] := rfl

theorem moves_steps (entrance : Entrance) :
    Action.ofKind "move" (actionsOf entrance.steps) =
      [.move entrance.character entrance.target] := rfl

theorem ofKind_append (kind : String) (first second : List Action) :
    Action.ofKind kind (first ++ second) =
      Action.ofKind kind first ++ Action.ofKind kind second := List.filter_append first second

theorem ofKind_map {α : Type} {kind : String} {make : α → Action}
    (known : ∀ a, Action.isKind kind (make a) = true) (list : List α) :
    Action.ofKind kind (list.map make) = list.map make := by
  rw [Action.ofKind, List.filter_eq_self]
  intro action member
  obtain ⟨a, -, rfl⟩ := List.mem_map.mp member
  exact known a

theorem ofKind_map_other {α : Type} {kind : String} {make : α → Action}
    (foreign : ∀ a, Action.isKind kind (make a) = false) (list : List α) :
    Action.ofKind kind (list.map make) = [] := by
  rw [Action.ofKind, List.filter_eq_nil_iff]
  intro action member
  obtain ⟨a, -, rfl⟩ := List.mem_map.mp member
  rw [foreign a]
  exact Bool.false_ne_true

theorem actions_together (side : Side) (run : List Entrance) :
    actionsOf (togetherSteps side run) =
      run.map (fun entrance => Action.spawnCharacter entrance.character side.off) ++
      run.map (fun entrance => Action.animate entrance.character "Walking_A") ++
      [.sound "footstep"] ++
      run.map (fun entrance => Action.move entrance.character entrance.target) ++
      run.map (fun entrance => idle entrance.character) := by
  simp [actionsOf, togetherSteps, Directive.groupSteps, step, Function.comp_def]

theorem spawns_together (side : Side) (run : List Entrance) :
    Action.ofKind "spawn_character" (actionsOf (togetherSteps side run)) =
      run.map fun entrance => Action.spawnCharacter entrance.character side.off := by
  rw [actions_together, ofKind_append, ofKind_append, ofKind_append, ofKind_append,
    ofKind_map fun _ => rfl, ofKind_map_other fun _ => rfl, ofKind_map_other fun _ => rfl,
    ofKind_map_other fun _ => rfl]
  simp [Action.ofKind, Action.isKind, Action.sound, Fields.get?, Value.isText]

theorem moves_together (side : Side) (run : List Entrance) :
    Action.ofKind "move" (actionsOf (togetherSteps side run)) =
      run.map fun entrance => Action.move entrance.character entrance.target := by
  rw [actions_together, ofKind_append, ofKind_append, ofKind_append, ofKind_append,
    ofKind_map_other fun _ => rfl, ofKind_map_other fun _ => rfl, ofKind_map fun _ => rfl,
    ofKind_map_other fun _ => rfl]
  simp [Action.ofKind, Action.isKind, Action.sound, Fields.get?, Value.isText]

end Actions

namespace Regrouped

/-- Kinds of actions of which a group has those of its run. -/
theorem ofKind_eq {kind : String} (regrouped : Regrouped old new runs)
    (same : ∀ side run, FromSide side run →
      Action.ofKind kind (actionsOf (run.flatMap Entrance.steps)) =
        Action.ofKind kind (actionsOf (togetherSteps side run))) :
    Action.ofKind kind (actionsOf old) = Action.ofKind kind (actionsOf new) := by
  induction regrouped with
  | done => rfl
  | keep step _ ih =>
    rw [actionsOf, actionsOf, List.flatMap_cons, List.flatMap_cons, ofKind_append, ofKind_append]
    exact congrArg _ ih
  | merge sided _ ih =>
    rw [actionsOf_append, actionsOf_append, ofKind_append, ofKind_append]
    exact congrArg₂ _ (same _ _ sided) ih

theorem actionsOf_run {kind : String} {make : Entrance → Action}
    (each : ∀ entrance ∈ run, Action.ofKind kind (actionsOf entrance.steps) = [make entrance]) :
    Action.ofKind kind (actionsOf (run.flatMap Entrance.steps)) = run.map make := by
  induction run with
  | nil => rfl
  | cons entrance run ih =>
    have rest := ih fun other member => each other (List.mem_cons_of_mem _ member)
    rw [List.flatMap_cons, actionsOf_append, ofKind_append, rest,
      each entrance (List.mem_cons_self ..)]
    rfl

/-- The same characters are spawned, in the same order and at the same places. -/
theorem spawns (regrouped : Regrouped old new runs) :
    Action.ofKind "spawn_character" (actionsOf old) =
      Action.ofKind "spawn_character" (actionsOf new) := by
  apply regrouped.ofKind_eq
  intro side run sided
  rw [spawns_together]
  apply actionsOf_run
  intro entrance member
  rw [spawns_steps, sided.2 entrance member]

/-- The same characters move to the same targets, in the same order. -/
theorem moves (regrouped : Regrouped old new runs) :
    Action.ofKind "move" (actionsOf old) = Action.ofKind "move" (actionsOf new) := by
  apply regrouped.ofKind_eq
  intro side run _
  rw [moves_together]
  exact actionsOf_run fun entrance _ => moves_steps entrance

theorem length_run (run : List Entrance) :
    (run.flatMap Entrance.steps).length = 3 * run.length := by
  induction run with
  | nil => rfl
  | cons entrance run ih =>
    rw [List.flatMap_cons, List.length_append, ih, List.length_cons]
    change 3 + _ = _
    omega

/-- The steps get fewer by what the groups save. -/
theorem length (regrouped : Regrouped old new runs) (id : String) :
    old.length = new.length + sumOf (·.stepsSaved) (groupsOf id runs) := by
  induction regrouped with
  | done => rfl
  | keep step _ ih =>
    rw [List.length_cons, List.length_cons, ih]
    omega
  | @merge old new runs side run sided _ ih =>
    obtain ⟨first, rest, rfl⟩ := List.exists_cons_of_ne_nil sided.1
    have groups : groupsOf id ((first :: rest) :: runs) =
        ⟨id, first.side, (first :: rest).map (·.character)⟩ :: groupsOf id runs := rfl
    have together : (togetherSteps side (first :: rest)).length = 3 := rfl
    rw [List.length_append, List.length_append, length_run, together, ih, groups, sumOf,
      MergedGroup.stepsSaved, List.length_map, List.length_cons]
    omega

end Regrouped

section Elements

/-- An element that brings on a character; the default target of its side may be left out. -/
inductive Brings (entrance : Entrance) : Value → Prop where
  | character (default : entrance.target = entrance.side.defaultTarget) :
      Brings entrance (.spread (.call entrance.side.directive [.str entrance.character]))
  | target : Brings entrance
      (.spread (.call entrance.side.directive [.str entrance.character, .str entrance.target]))

theorem readElement_brings {value : Value} (brings : Brings entrance value) :
    value.readElement = .ok ⟨entrance.steps, []⟩ := by
  obtain ⟨line, side, character, target⟩ := entrance
  cases brings with
  | character default =>
    obtain rfl : target = side.defaultTarget := default
    cases side <;> rfl
  | target => cases side <;> rfl

/-- The member of a group call for an entrance. -/
def Entrance.member (side : Side) (entrance : Entrance) : Value :=
  .list (if entrance.target = side.defaultTarget then [.str entrance.character]
    else [.str entrance.character, .str entrance.target])

/-- The element that brings on a run. -/
def groupElement (side : Side) (run : List Entrance) : Value :=
  .spread (.call side.groupDirective [.list (run.map (Entrance.member side))])

theorem plainItems_members (side : Side) (run : List Entrance) :
    Value.plainItems (run.map (Entrance.member side)) = run.map (Entrance.member side) := by
  induction run with
  | nil => rfl
  | cons entrance run ih =>
    rw [List.map_cons, Entrance.member]
    split
    · rw [Value.plainItems, ih]
      · rfl
      · simp
    · rw [Value.plainItems, ih]
      · rfl
      · simp

theorem groupMember_member (named : entrance.target ≠ "") :
    Directive.groupMember (.str side.defaultTarget) (entrance.member side) =
      .ok (.str entrance.character, .str entrance.target) := by
  rw [Entrance.member]
  split
  · next default =>
    rw [default]
    rfl
  · have present : (Value.str entrance.target).isPresent = true := by
      rw [Value.isPresent]
      exact bne_iff_ne.mpr named
    rw [Directive.groupMember, if_pos present]

theorem mapM_groupMember (side : Side) (named : ∀ entrance ∈ run, entrance.target ≠ "") :
    (run.map (Entrance.member side)).mapM (Directive.groupMember (.str side.defaultTarget)) =
      .ok (run.map fun entrance => (.str entrance.character, .str entrance.target)) := by
  induction run with
  | nil => rfl
  | cons entrance run ih =>
    have rest := ih fun other member => named other (List.mem_cons_of_mem _ member)
    rw [List.map_cons, List.mapM_cons, groupMember_member (named _ (List.mem_cons_self ..)), rest]
    rfl

theorem groupEnter_run {off : String} {default : Value} {items : List Value}
    {members : List (Value × Value)}
    (each : items.mapM (Directive.groupMember default) = .ok members) :
    (Directive.groupEnter off default).run [.list items] =
      .ok (Directive.groupSteps off members, []) := by
  change ((items.mapM (Directive.groupMember default)).bind fun members => .ok (members, [])).bind
    (fun answer => .ok (Directive.groupSteps off answer.1, answer.2)) = _
  rw [each]
  rfl

/-- A group call expands to the steps of its members. -/
theorem expand_group {items : List Value} {members : List (Value × Value)}
    (each : items.mapM (Directive.groupMember (.str side.defaultTarget)) = .ok members) :
    expand side.groupDirective [.list items] =
      .ok (some ((Directive.groupSteps side.off members).map fun step =>
        { step with directive := some side.groupDirective })) := by
  cases side with
  | left =>
    have found : findDirective? Side.left.groupDirective = some Directive.groupEnterLeft := rfl
    have ran : Directive.groupEnterLeft.template.run _ = _ := groupEnter_run each
    rw [expand, found]
    simp only [Directive.call, ran]
    rfl
  | right =>
    have found : findDirective? Side.right.groupDirective = some Directive.groupEnterRight := rfl
    have ran : Directive.groupEnterRight.template.run _ = _ := groupEnter_run each
    rw [expand, found]
    simp only [Directive.call, ran]
    rfl

theorem readElement_group (named : ∀ entrance ∈ run, entrance.target ≠ "") :
    (groupElement side run).readElement = .ok ⟨togetherSteps side run, []⟩ := by
  have plain : [Value.list (run.map (Entrance.member side))].map Value.plain =
      [.list (run.map (Entrance.member side))] := by
    rw [List.map_singleton, Value.plain, plainItems_members]
  rw [groupElement, Value.readElement, Value.readCall, plain,
    expand_group (mapM_groupMember side named)]
  rfl

theorem readElements_append {first second : List Value} :
    Value.readElements (first ++ second) = .ok reading ↔ ∃ here behind,
      Value.readElements first = .ok here ∧ Value.readElements second = .ok behind ∧
        reading = here.followedBy behind := by
  induction first generalizing reading with
  | nil =>
    constructor
    · intro read
      exact ⟨.nothing, reading, rfl, read, rfl⟩
    · intro parts
      obtain ⟨here, behind, none, read, rfl⟩ := parts
      cases none
      exact read
  | cons value first ih =>
    rw [List.cons_append, Value.readElements, Value.readElements]
    constructor
    · intro read
      obtain ⟨one, known, read⟩ := Except.bind_ran.mp read
      obtain ⟨others, rest, made⟩ := Except.bind_ran.mp read
      cases made
      obtain ⟨here, behind, before, after, rfl⟩ := ih.mp rest
      refine ⟨one.followedBy here, behind, ?_, after, ?_⟩
      · exact Except.bind_ran.mpr ⟨one, known, Except.bind_ran.mpr ⟨here, before, rfl⟩⟩
      · simp [Reading.followedBy]
    · intro parts
      obtain ⟨_, behind, read, after, rfl⟩ := parts
      obtain ⟨one, known, read⟩ := Except.bind_ran.mp read
      obtain ⟨here, before, made⟩ := Except.bind_ran.mp read
      cases made
      have rest := ih.mpr ⟨here, behind, before, after, rfl⟩
      refine Except.bind_ran.mpr ⟨one, known, Except.bind_ran.mpr ⟨_, rest, ?_⟩⟩
      simp [Reading.followedBy, pure, Except.pure]

theorem readElements_brings {values : List Value} (brought : List.Forall₂ Brings run values) :
    Value.readElements values = .ok ⟨run.flatMap Entrance.steps, []⟩ := by
  induction brought with
  | nil => rfl
  | cons brings _ ih =>
    rw [Value.readElements, readElement_brings brings, ih]
    rfl

/-- The elements are the same, in the same order, but that a group call stands for each run. -/
inductive Recast : List Value → List Value → List (List Entrance) → Prop where
  | done : Recast [] [] []
  | keep {old new : List Value} {runs : List (List Entrance)} (value : Value)
      (others : Recast old new runs) : Recast (value :: old) (value :: new) runs
  | merge {old new values : List Value} {runs : List (List Entrance)} {side : Side}
      {run : List Entrance} (sided : FromSide side run)
      (named : ∀ entrance ∈ run, entrance.target ≠ "")
      (brought : List.Forall₂ Brings run values) (others : Recast old new runs) :
      Recast (values ++ old) (groupElement side run :: new) (run :: runs)

theorem Recast.keeps (kept : List Value) (recast : Recast elements elements' runs) :
    Recast (kept ++ elements) (kept ++ elements') runs := by
  induction kept with
  | nil => exact recast
  | cons value kept ih => exact .keep value ih

theorem Recast.keeps_end (recast : Recast elements elements' runs) (kept : List Value) :
    Recast (elements ++ kept) (elements' ++ kept) runs := by
  induction recast with
  | done =>
    have same := Recast.keeps kept .done
    rwa [List.append_nil] at same
  | keep value _ ih => exact .keep value ih
  | merge sided named brought _ ih =>
    rw [List.append_assoc]
    exact .merge sided named brought ih

/-- Elements that are recast can be read as before, and their steps are regrouped. -/
theorem readElements_recast (recast : Recast elements elements' runs)
    (read : Value.readElements elements = .ok reading) :
    ∃ steps, Value.readElements elements' = .ok ⟨steps, reading.unresolved⟩ ∧
      Regrouped reading.steps steps runs := by
  induction recast generalizing reading with
  | done =>
    cases read
    exact ⟨[], rfl, .done⟩
  | keep value _ ih =>
    rw [Value.readElements] at read
    obtain ⟨one, known, read⟩ := Except.bind_ran.mp read
    obtain ⟨others, rest, made⟩ := Except.bind_ran.mp read
    cases made
    obtain ⟨steps, read', regrouped⟩ := ih rest
    refine ⟨one.steps ++ steps, ?_, regrouped.keeps one.steps⟩
    rw [Value.readElements, known, read']
    rfl
  | merge sided named brought _ ih =>
    obtain ⟨here, behind, first, rest, rfl⟩ := readElements_append.mp read
    rw [readElements_brings brought] at first
    cases first
    obtain ⟨steps, read', regrouped⟩ := ih rest
    refine ⟨_, ?_, .merge sided regrouped⟩
    rw [Value.readElements, readElement_group named, read']
    rfl

end Elements

end Stagecraft
