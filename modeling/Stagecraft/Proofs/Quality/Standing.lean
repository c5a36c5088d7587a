import Stagecraft.Proofs.Edit.Embedding
import Stagecraft.Proofs.Quality.Gathering
import Stagecraft.Proofs.Quality.Repeats

/-!
Which of the steps that a template stands for count as standing still. A step that follows a move or
an emote does not, and so the last steps of entrances and speeches do not, whatever is around them.
Two entrances make nobody move, so their last steps do count.
-/

namespace Stagecraft

variable {α β : Type} {name : String} {args : List Value} {place index : Nat}

section Surroundings

variable {above steps below : List (List Action)}

/-- The numbers of the steps that stand still. -/
def stands (steps : List (List Action)) : List Nat := pairPlacesFrom idles none 1 steps

theorem idleSteps_eq (scene : Scene) : scene.idleSteps = stands scene.steps := rfl

theorem succ_mem_stands : index + 1 ∈ stands steps ↔ ∃ step, steps[index]? = some step ∧
    idles (if index = 0 then none else steps[index - 1]?) step = true := by
  rw [stands, mem_pairPlacesFrom_iff]
  constructor
  · rintro ⟨_, step, place, there, idle⟩
    obtain rfl := Nat.add_right_cancel (place.trans (Nat.add_comm ..))
    exact ⟨step, there, idle⟩
  · rintro ⟨step, there, idle⟩
    exact ⟨index, step, Nat.add_comm .., there, idle⟩

/-- Steps of which the first one is not idle stand still in any surroundings as they do alone. -/
theorem mem_stands_around (starts : steps[0]?.any Scene.isIdle = false)
    (inside : index < steps.length) :
    above.length + index + 1 ∈ stands (above ++ steps ++ below) ↔ index + 1 ∈ stands steps := by
  have here : (above ++ steps ++ below)[above.length + index]? = steps[index]? := by
    rw [Nat.add_comm, getElem?_embedded inside]
  rw [succ_mem_stands, succ_mem_stands, here]
  cases index with
  | zero =>
    have never (before : Option (List Action)) :
        ¬ ∃ step, steps[0]? = some step ∧ idles before step = true := by
      rintro ⟨step, there, idle⟩
      rw [there, Option.any_some] at starts
      rw [idles, starts, Bool.false_and] at idle
      exact Bool.false_ne_true idle
    exact iff_of_false (never _) (never _)
  | succ index =>
    have place : above.length + (index + 1) - 1 = index + above.length := by omega
    rw [if_neg (Nat.succ_ne_zero _), if_neg (by omega), place,
      getElem?_embedded (Nat.lt_of_succ_lt inside), Nat.add_sub_cancel]

end Surroundings

namespace Arguments

/-- Whatever the template makes of a call has the property. -/
def Always (property : α → Prop) (template : Arguments α) : Prop :=
  ∀ args value rest, template args = .ok (value, rest) → property value

variable {property : β → Prop} {template : Arguments α} {rest : α → Arguments β} {value : β}

theorem always_pure (holds : property value) : Always property (pure value) := by
  rintro args made rest ⟨⟩
  exact holds

theorem always_bind (each : ∀ made, Always property (rest made)) :
    Always property (template >>= rest) := by
  intro args value left ran
  obtain ⟨⟨made, others⟩, -, ran⟩ := Except.bind_ran.mp ran
  exact each made others value left ran

end Arguments

/-- The templates that bring characters on stage. -/
def arrivals : List String := entranceDirectives ++
  ["GROUP_ENTER_LEFT", "GROUP_ENTER_RIGHT", "SNEAK_IN_LEFT", "TELEPORT_IN", "BOUNCE_ENTRANCE"]

/-- The templates in which characters speak. -/
def talks : List String := ["CHARACTER_SPEAK", "CHARACTER_EXCLAIM", "DIALOGUE"]

/-- Which steps of a template stand still. -/
def standingSteps (name : String) : List Nat :=
  if name = "DROP_IN" then [2] else if name = "TELEPORT_IN" then [3] else []

/-- The first step is not idle, and those with these numbers stand still. -/
def StandsAt (places : List Nat) (steps : List Step) : Prop :=
  (steps.map (·.actions))[0]?.any Scene.isIdle = false ∧ stands (steps.map (·.actions)) = places

namespace Directive

open Arguments

theorem standsAt_walkIn (off anim sound : String) (pace : Pace) (who target : Value) :
    StandsAt [] (walkIn off anim sound pace who target) := ⟨rfl, rfl⟩

theorem standsAt_groupSteps (off : String) (members : List (Value × Value)) :
    StandsAt [] (groupSteps off members) := by
  match members with
  | [] => exact ⟨rfl, rfl⟩
  | [_] => exact ⟨rfl, rfl⟩
  | _ :: _ :: _ => exact ⟨rfl, rfl⟩

theorem always_groupEnter (off : String) (default : Value) :
    Always (StandsAt []) (groupEnter off default) :=
  always_bind fun _ => always_bind fun _ => always_bind fun _ =>
    always_pure (standsAt_groupSteps ..)

theorem always_dialogue : Always (StandsAt []) dialogue.template :=
  always_bind fun _ => always_bind fun _ => always_bind fun _ => always_bind fun _ =>
    always_bind fun _ => always_bind fun _ => always_bind fun _ => always_pure ⟨rfl, rfl⟩

/-- Walks end with a move and speeches with an emote; a drop and a teleport do with neither. -/
theorem always_standing : ∀ name ∈ arrivals ++ talks, ∃ directive,
    findDirective? name = some directive ∧
      Always (StandsAt (standingSteps name)) directive.template := by
  simp only [arrivals, entranceDirectives, talks, List.cons_append, List.nil_append,
    List.forall_mem_cons]
  have walks {off anim sound : String} {pace : Pace} {default : Value} :
      Always (StandsAt []) (two required (optional default) >>= fun made =>
        pure (walkIn off anim sound pace made.1 made.2)) :=
    always_bind fun _ => always_pure (standsAt_walkIn ..)
  exact ⟨⟨enterFromLeft, rfl, walks⟩, ⟨enterFromRight, rfl, walks⟩,
    ⟨dropIn, rfl, always_bind fun _ => always_pure ⟨rfl, rfl⟩⟩,
    ⟨chargeInLeft, rfl, walks⟩, ⟨chargeInRight, rfl, walks⟩,
    ⟨groupEnterLeft, rfl, always_groupEnter _ _⟩, ⟨groupEnterRight, rfl, always_groupEnter _ _⟩,
    ⟨sneakInLeft, rfl, always_bind fun _ => always_pure ⟨rfl, rfl⟩⟩,
    ⟨teleportIn, rfl, always_bind fun _ => always_pure ⟨rfl, rfl⟩⟩,
    ⟨bounceEntrance, rfl, always_bind fun _ => always_pure ⟨rfl, rfl⟩⟩,
    ⟨characterSpeak, rfl, always_bind fun _ => always_pure ⟨rfl, rfl⟩⟩,
    ⟨characterExclaim, rfl, always_bind fun _ => always_pure ⟨rfl, rfl⟩⟩,
    ⟨dialogue, rfl, always_dialogue⟩, List.forall_mem_nil _⟩

end Directive

theorem expand_standsAt {steps : List Step} (named : name ∈ arrivals ++ talks)
    (expanded : expand name args = .ok (some steps)) : StandsAt (standingSteps name) steps := by
  obtain ⟨directive, found, always⟩ := Directive.always_standing name named
  rw [expand, found] at expanded
  change (directive.call args).map some = .ok (some steps) at expanded
  cases called : directive.call args with
  | error cause =>
    rw [called] at expanded
    cases expanded
  | ok whole =>
    rw [called] at expanded
    obtain rfl : whole = steps := Option.some.inj (Except.ok.inj expanded)
    obtain ⟨⟨made, rest⟩, ran, marked⟩ := Except.bind_ran.mp called
    obtain rfl := Except.ok.inj marked
    have actions : (made.map fun step => { step with directive := some directive.name }).map
        (·.actions) = made.map (·.actions) := by
      rw [List.map_map]
      rfl
    rw [StandsAt, actions]
    exact always args made rest ran

/-- Of the steps that a template for an entrance or a speech stands for, the second one of a drop and
the third one of a teleport stand still, and no other, whatever steps are above and below. -/
theorem mem_idleSteps_template_iff {vignette : Vignette} {above steps below : List Step}
    (named : name ∈ arrivals ++ talks) (expanded : expand name args = .ok (some steps))
    (parts : vignette.steps = above ++ steps ++ below) (inside : index < steps.length) :
    above.length + index + 1 ∈ (Scene.ofVignette vignette).idleSteps ↔
      name = "DROP_IN" ∧ index = 1 ∨ name = "TELEPORT_IN" ∧ index = 2 := by
  have alone := expand_standsAt named expanded
  calc
    above.length + index + 1 ∈ (Scene.ofVignette vignette).idleSteps
      ↔ (above.map (·.actions)).length + index + 1 ∈ stands (above.map (·.actions) ++
          steps.map (·.actions) ++ below.map (·.actions)) := by
        rw [idleSteps_eq, Scene.ofVignette, parts, List.map_append, List.map_append,
          List.length_map]
    _ ↔ index + 1 ∈ standingSteps name := by
        rw [mem_stands_around alone.1 (by rwa [List.length_map]), alone.2]
    _ ↔ name = "DROP_IN" ∧ index = 1 ∨ name = "TELEPORT_IN" ∧ index = 2 := by
        rw [standingSteps]
        split
        · next drop => simp [drop]
        · next other =>
          split
          · next teleport => simp [teleport]
          · next neither => simp [other, neither]

/-- What a call stands for, if it can be read. -/
def expansion (name : String) (args : List Value) : List Step :=
  match expand name args with
  | .ok (some steps) => steps
  | _ => []

/-- The king walks on between two steps of standing still. -/
def kingWalks : Vignette := staged
  ([step 0.3 [idle "king"]] ++ expansion "ENTER_FROM_LEFT" ["king"] ++ [step 0.3 [idle "king"]])

/-- Only the steps around the walk are found. -/
theorem mem_idleSteps_template_iff_walk :
    expand "ENTER_FROM_LEFT" ["king"] = .ok (some (expansion "ENTER_FROM_LEFT" ["king"])) ∧
      (Scene.ofVignette kingWalks).idleSteps = [1, 5] ∧
      ∀ index < 3, 1 + index + 1 ∉ (Scene.ofVignette kingWalks).idleSteps := by
  have expanded : expand "ENTER_FROM_LEFT" ["king"] =
      .ok (some (expansion "ENTER_FROM_LEFT" ["king"])) := rfl
  refine ⟨expanded, rfl, ?_⟩
  intro index inside found
  have parts : kingWalks.steps = [step 0.3 [idle "king"]] ++
      expansion "ENTER_FROM_LEFT" ["king"] ++ [step 0.3 [idle "king"]] := rfl
  rcases (mem_idleSteps_template_iff (by decide) expanded parts inside).mp found with
    ⟨drop, -⟩ | ⟨teleport, -⟩
  · exact absurd drop (by decide)
  · exact absurd teleport (by decide)

/-- A king who drops in stands still in the second step. -/
theorem idleSteps_dropIn :
    "DROP_IN" ∈ arrivals ∧
      expand "DROP_IN" ["king"] = .ok (some (expansion "DROP_IN" ["king"])) ∧
      (Scene.ofVignette (staged (expansion "DROP_IN" ["king"]))).idleSteps = [2] :=
  ⟨by decide, rfl, rfl⟩

end Stagecraft
