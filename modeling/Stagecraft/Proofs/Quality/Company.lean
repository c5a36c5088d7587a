import Mathlib.Data.List.Perm.Basic
import Stagecraft.Proofs.Quality.Gathering

/-!
What the characters of a group do, against what they do when they come on one by one. A group takes
three steps where each of them takes three; it has their appearances and their moves in their order,
and as many of each of their animations. What a character does that is named once comes in one order
either way.
-/

namespace Stagecraft

variable {side : Side} {walkers : List Walker} {pairs : List (String × String)}
  {entries : List Value} {who : String}

/-- What the call of a group lists for a character and its target: the default target may be left
out. -/
inductive Side.Lists (side : Side) (pair : String × String) : Value → Prop where
  | character (default : pair.2 = side.defaultTarget) : Lists side pair (.list [.str pair.1])
  | target : Lists side pair (.list [.str pair.1, .str pair.2])

/-- A character and its target, as values. -/
def asWalker (pair : String × String) : Walker := (.str pair.1, .str pair.2)

/-- The action is one of the character. -/
def Action.isBy (who : String) (action : Action) : Bool :=
  (Fields.get? action "character").any (Value.isText who)

/-- The walker is the character. -/
def isNamed (who : String) (walker : Walker) : Bool := walker.1.isText who

section Calls

theorem groupMember_listed {pair : String × String} {entry : Value} (aimed : pair.2 ≠ "")
    (listed : side.Lists pair entry) :
    Directive.groupMember (.str side.defaultTarget) entry = .ok (asWalker pair) := by
  cases listed with
  | character default =>
    rw [asWalker, default]
    rfl
  | target =>
    have present : (Value.str pair.2).isPresent = true := by
      rw [Value.isPresent]
      exact bne_iff_ne.mpr aimed
    rw [Directive.groupMember, if_pos present, asWalker]

theorem mapM_listed (aimed : ∀ pair ∈ pairs, pair.2 ≠ "")
    (listed : List.Forall₂ side.Lists pairs entries) :
    entries.mapM (Directive.groupMember (.str side.defaultTarget)) =
      .ok (pairs.map asWalker) := by
  induction listed with
  | nil => rfl
  | @cons pair entry pairs entries first _ ih =>
    have rest := ih fun other member => aimed other (List.mem_cons_of_mem _ member)
    rw [List.mapM_cons, groupMember_listed (aimed pair (List.mem_cons_self ..)) first, rest]
    rfl

/-- The calls for single characters expand one by one. -/
theorem mapM_expand (side : Side) (pairs : List (String × String)) :
    pairs.mapM (fun pair => expand side.directive [.str pair.1, .str pair.2]) =
      .ok (pairs.map fun pair => some (side.walkOn (asWalker pair))) := by
  induction pairs with
  | nil => rfl
  | cons pair pairs ih =>
    have first : expand side.directive [.str pair.1, .str pair.2] =
        .ok (some (side.walkOn (asWalker pair))) :=
      @Side.expand_directive side (asWalker pair)
    rw [List.mapM_cons, first, ih]
    rfl

end Calls

section Counts

/-- A group has each animation as often as its run. -/
theorem animates_walkTogether (side : Side) (walkers : List Walker) :
    (Action.ofKind "animate" (actionsOf (side.walkTogether walkers))).Perm
      (Action.ofKind "animate" (actionsOf (walkers.flatMap side.walkOn))) := by
  have group : Action.ofKind "animate" (actionsOf (side.walkTogether walkers)) =
      walkers.map (fun walker => Action.animate walker.1 "Walking_A") ++
        walkers.map (fun walker => idle walker.1) := by
    rw [actionsOf_walkTogether, Side.appearing, walking, standing]
    simp only [ofKind_append]
    rw [ofKind_map_other fun _ => rfl, ofKind_map fun _ => rfl, ofKind_map_other fun _ => rfl,
      ofKind_map fun _ => rfl]
    simp [Action.ofKind, Action.isKind, Action.sound, Fields.get?, Value.isText]
  have run : Action.ofKind "animate" (actionsOf (walkers.flatMap side.walkOn)) =
      walkers.flatMap fun walker => [.animate walker.1 "Walking_A"] ++ [idle walker.1] := by
    rw [actionsOf, List.flatMap_assoc, Action.ofKind, List.filter_flatMap]
    rfl
  rw [group, run, List.map_eq_flatMap, List.map_eq_flatMap]
  exact List.flatMap_append_perm walkers _ _

end Counts

section Order

/-- What a character does in a group is what it does in the group of those with its name. -/
theorem isBy_walkTogether (side : Side) (walkers : List Walker) (who : String) :
    (actionsOf (side.walkTogether walkers)).filter (Action.isBy who) =
      (actionsOf (side.walkTogether (walkers.filter (isNamed who)))).filter (Action.isBy who) := by
  have each {make : Walker → Action}
      (known : ∀ walker, (make walker).isBy who = isNamed who walker) :
      (walkers.map make).filter (Action.isBy who) =
        ((walkers.filter (isNamed who)).map make).filter (Action.isBy who) := by
    have same : Action.isBy who ∘ make = isNamed who := funext known
    rw [List.filter_map, List.filter_map, same, List.filter_filter]
    simp only [Bool.and_self]
  simp only [actionsOf_walkTogether, Side.appearing, walking, standing, List.filter_append]
  rw [each fun _ => rfl, each fun _ => rfl, each fun _ => rfl, each fun _ => rfl]

/-- So it is where they come on one by one. -/
theorem isBy_run (side : Side) (walkers : List Walker) (who : String) :
    (actionsOf (walkers.flatMap side.walkOn)).filter (Action.isBy who) =
      (actionsOf ((walkers.filter (isNamed who)).flatMap side.walkOn)).filter
        (Action.isBy who) := by
  induction walkers with
  | nil => rfl
  | cons walker walkers ih =>
    rw [List.flatMap_cons, actionsOf_append, List.filter_append, ih]
    cases named : isNamed who walker with
    | true =>
      rw [List.filter_cons_of_pos named, List.flatMap_cons, actionsOf_append, List.filter_append]
    | false =>
      have spawned : Action.isBy who (.spawnCharacter walker.1 side.off) = false := named
      have animated (anim : Value) : Action.isBy who (.animate walker.1 anim) = false := named
      have moved : Action.isBy who (.move walker.1 walker.2) = false := named
      have heard : Action.isBy who (.sound "footstep") = false := rfl
      have silent : (actionsOf (side.walkOn walker)).filter (Action.isBy who) = [] := by
        have here : actionsOf (side.walkOn walker) = [.spawnCharacter walker.1 side.off,
          .animate walker.1 "Walking_A", .sound "footstep", .move walker.1 walker.2,
          .animate walker.1 idleAnim] := rfl
        rw [here]
        simp [spawned, animated, moved, heard]
      rw [List.filter_cons_of_neg (by simp [named]), silent, List.nil_append]

/-- A character that is named once does the same, in the same order, with others or alone. -/
theorem isBy_together_eq (once : (walkers.filter (isNamed who)).length = 1) :
    (actionsOf (side.walkTogether walkers)).filter (Action.isBy who) =
      (actionsOf (walkers.flatMap side.walkOn)).filter (Action.isBy who) := by
  obtain ⟨walker, alone⟩ := List.length_eq_one_iff.mp once
  rw [isBy_walkTogether, isBy_run, alone]
  rfl

theorem length_isNamed (pairs : List (String × String)) (who : String) :
    ((pairs.map asWalker).filter (isNamed who)).length = (pairs.map (·.1)).count who := by
  rw [← List.countP_eq_length_filter, List.countP_map, List.count, List.countP_map]
  rfl

/-- The call of a group expands to three steps, as each call for one of its characters does. It has
the same appearances and the same moves in the same order as those calls one after the other, and
the same animations; a character that is named once does what it does in the same order. -/
theorem group_expands_like_singles (aimed : ∀ pair ∈ pairs, pair.2 ≠ "")
    (listed : List.Forall₂ side.Lists pairs entries) :
    ∃ (group : List Step) (singles : List (List Step)),
      expand side.groupDirective [.list entries] = .ok (some group) ∧
      pairs.mapM (fun pair => expand side.directive [.str pair.1, .str pair.2]) =
        .ok (singles.map some) ∧
      group.length = 3 ∧ singles.length = pairs.length ∧ (∀ steps ∈ singles, steps.length = 3) ∧
      Action.ofKind "spawn_character" (actionsOf group) =
        Action.ofKind "spawn_character" (actionsOf singles.flatten) ∧
      Action.ofKind "move" (actionsOf group) =
        Action.ofKind "move" (actionsOf singles.flatten) ∧
      (Action.ofKind "animate" (actionsOf group)).Perm
        (Action.ofKind "animate" (actionsOf singles.flatten)) ∧
      ∀ who, (pairs.map (·.1)).count who = 1 →
        (actionsOf group).filter (Action.isBy who) =
          (actionsOf singles.flatten).filter (Action.isBy who) := by
  have flat : (pairs.map fun pair => side.walkOn (asWalker pair)).flatten =
      (pairs.map asWalker).flatMap side.walkOn := by
    rw [List.flatMap_map, List.flatMap_def]
  refine ⟨side.walkTogether (pairs.map asWalker),
    pairs.map fun pair => side.walkOn (asWalker pair), expand_group (mapM_listed aimed listed),
    ?_, rfl, List.length_map _, ?_, ?_⟩
  · rw [mapM_expand, List.map_map]
    rfl
  · intro steps member
    obtain ⟨pair, -, rfl⟩ := List.mem_map.mp member
    rfl
  · rw [flat]
    refine ⟨spawns_walkTogether _ _, moves_walkTogether _ _, animates_walkTogether _ _, ?_⟩
    intro who once
    apply isBy_together_eq
    rw [length_isNamed, once]

/-- A character that comes twice, once with its target left out, and one that comes once. -/
theorem group_expands_like_singles_pair :
    ∃ (group : List Step) (singles : List (List Step)),
      expand "GROUP_ENTER_LEFT" [.list [.list [.str "ana"], .list [.str "bo", .str "cs-center"],
        .list [.str "ana", .str "cs-right"]]] = .ok (some group) ∧
      group.length = 3 ∧ singles.length = 3 ∧
      (actionsOf group).filter (Action.isBy "bo") =
        (actionsOf singles.flatten).filter (Action.isBy "bo") := by
  have listed : List.Forall₂ Side.left.Lists
      [("ana", "cs-left"), ("bo", "cs-center"), ("ana", "cs-right")]
      [.list [.str "ana"], .list [.str "bo", .str "cs-center"],
        .list [.str "ana", .str "cs-right"]] :=
    .cons (.character rfl) (.cons .target (.cons .target .nil))
  obtain ⟨group, singles, called, -, three, count, -, -, -, -, alone⟩ :=
    group_expands_like_singles (by decide) listed
  exact ⟨group, singles, called, three, count, alone "bo" (by decide)⟩

end Order

end Stagecraft
