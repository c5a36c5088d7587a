import Stagecraft.Proofs.Edit.Steps
import Stagecraft.Vignette

/-!
How calls of directives fail. A template refuses what it cannot use, a value of the wrong kind or a
list that lacks a member, and such a call stays unresolved. Scattering alone can fail otherwise.
-/

namespace Stagecraft

variable {α β : Type} {cause : Misuse}

/-- The faults that leave a call unresolved. -/
def Misuse.Refuses (cause : Misuse) : Prop := cause = .wrongKind ∨ cause = .outOfRange

/-- An answer that is missing only for a refusal. -/
def Gentle (answer : Except Misuse α) : Prop := ∀ cause, answer = .error cause → cause.Refuses

namespace Gentle

@[simp] theorem ok (value : α) : Gentle (.ok value) := fun _ none => nomatch none

@[simp] theorem wrongKind : Gentle (.error .wrongKind : Except Misuse α) := by
  rintro _ ⟨⟩
  exact .inl rfl

@[simp] theorem outOfRange : Gentle (.error .outOfRange : Except Misuse α) := by
  rintro _ ⟨⟩
  exact .inr rfl

theorem bind {answer : Except Misuse α} {rest : α → Except Misuse β} (gentle : Gentle answer)
    (others : ∀ value, answer = .ok value → Gentle (rest value)) : Gentle (answer >>= rest) := by
  intro cause failed
  rcases Except.bind_failed.mp failed with first | ⟨value, known, later⟩
  · exact gentle cause first
  · exact others value known cause later

theorem mapM {items : List α} {f : α → Except Misuse β} (gentle : ∀ item, Gentle (f item)) :
    Gentle (items.mapM f) := by
  induction items with
  | nil => exact ok _
  | cons item items ih =>
    rw [List.mapM_cons]
    exact (gentle item).bind fun _ _ => ih.bind fun _ _ => ok _

end Gentle

@[simp] theorem gentle_members (value : Value) : Gentle value.members := by
  cases value <;> simp [Value.members]

@[simp] theorem gentle_thousandfold (value : Value) : Gentle (Directive.thousandfold value) := by
  cases value <;> first | exact .ok _ | exact .wrongKind

@[simp] theorem gentle_crowdOf (value : Value) : Gentle (Directive.crowdOf value) := by
  rw [Directive.crowdOf]
  split
  · cases value <;> first | exact .ok _ | exact .wrongKind
  · exact .ok _

@[simp] theorem gentle_groupMember (default value : Value) :
    Gentle (Directive.groupMember default value) := by
  cases value with
  | list items =>
    match items with
    | [] => exact .outOfRange
    | [_] | _ :: _ :: _ => exact .ok _
  | _ => exact .ok _

namespace Arguments

/-- A template that fails by refusals only. -/
def Mild (template : Arguments α) : Prop := ∀ args, Gentle (template args)

variable {template : Arguments α} {rest : α → Arguments β} {answer : Except Misuse α}

@[simp] theorem mild_pure (value : α) : Mild (pure value) := fun _ => .ok _

@[simp] theorem mild_bind (mild : Mild template) (others : ∀ value, Mild (rest value)) :
    Mild (template >>= rest) := by
  intro args
  exact (mild args).bind fun found _ => others found.1 found.2

@[simp] theorem mild_map (f : α → β) : Mild (f <$> template) ↔ Mild template := by
  rw [← bind_pure_comp]
  constructor
  · intro mild args cause failed
    exact mild args cause (Except.bind_failed.mpr (.inl failed))
  · exact fun mild => mild_bind mild fun _ => mild_pure _

@[simp] theorem mild_lift : Mild (liftM answer) ↔ Gentle answer := by
  constructor
  · intro mild cause failed
    exact mild [] cause (Except.bind_failed.mpr (.inl failed))
  · exact fun gentle args => gentle.bind fun _ _ => .ok _

@[simp] theorem mild_required : Mild required := by
  intro args
  cases args with
  | nil => exact .wrongKind
  | cons value rest => exact .ok _

@[simp] theorem mild_optional (default : Value) : Mild (optional default) := by
  intro args
  cases args <;> exact .ok _

@[simp] theorem mild_done : Mild done := by
  intro args
  cases args with
  | nil => exact .ok _
  | cons value rest => exact .wrongKind

variable {first second third : Arguments Value}

@[simp] theorem mild_one (mild : Mild first) : Mild (one first) :=
  mild_bind mild fun _ => mild_bind mild_done fun _ => mild_pure _

@[simp] theorem mild_two (mild : Mild first) (mild' : Mild second) : Mild (two first second) :=
  mild_bind mild fun _ => mild_bind mild' fun _ => mild_bind mild_done fun _ => mild_pure _

@[simp] theorem mild_three (mild : Mild first) (mild' : Mild second) (mild'' : Mild third) :
    Mild (three first second third) :=
  mild_bind mild fun _ => mild_bind mild' fun _ => mild_bind mild'' fun _ =>
    mild_bind mild_done fun _ => mild_pure _

end Arguments

open Arguments

namespace Directive

theorem mild_groupEnter (off : String) (default : Value) : Mild (groupEnter off default) := by
  refine mild_bind (by simp) fun group => mild_bind (by simp) fun entries => ?_
  simp [Gentle.mapM]

/-- A template that takes six values. -/
theorem mild_dialogue : Mild dialogue.template := by
  refine mild_bind (by simp) fun first => mild_bind (by simp) fun emoji =>
    mild_bind (by simp) fun text => mild_bind (by simp) fun second => ?_
  simp

theorem mild_slide (delay : Float) : Mild (slide delay) := by
  simp [slide]

theorem mild_entrances : ∀ directive ∈ entrances, Mild directive.template := by
  simp [entrances, enterFromLeft, enterFromRight, chargeInLeft, chargeInRight, sneakInLeft,
    groupEnterLeft, groupEnterRight, dropIn, teleportIn, bounceEntrance, fleeLeft, fleeRight,
    exitWalk, mild_groupEnter]

theorem mild_props : ∀ directive ∈ props, Mild directive.template := by
  simp [props, objectDrop, objectSlideIn, objectServe, objectGrowReveal, objectLaunch,
    objectSpinIn, objectRain, objectShrinkPop, objectFloatUp, objectPile, objectTransform,
    objectBounceTo, mild_slide]

theorem mild_speeches : ∀ directive ∈ speeches, Mild directive.template := by
  simp [speeches, characterSpeak, characterThink, characterExclaim, emote, emotionalReact,
    mild_dialogue]

theorem mild_beats : ∀ directive ∈ beats, Mild directive.template := by
  simp [beats, narrator, announce, impact, flash, celebration, disappointment, dramaticPause,
    crowdCheer, crowdGasp, spellCast, workAction, hitReact, dance, vignetteOutro]

theorem mild_movements : ∀ directive ∈ movements, directive = scatter ∨
    Mild directive.template := by
  simp [movements, walkTo, runTo, jumpTo, dodge, circleAround, pace, convergeMeet, chase, gather]

/-- No positions to go to, or an object, whose keys are no places. -/
def Nowhere (positions : Value) : Prop :=
  sizeOf? positions = some 0 ∨ ∃ entries, positions = .object entries

theorem gentle_memberAt {positions : Value} (object : ∀ entries, positions ≠ .object entries)
    (index : Nat) : Gentle (memberAt index positions) := by
  cases positions with
  | list items =>
    rw [memberAt]
    cases items[index]? <;> simp
  | str text =>
    rw [memberAt]
    cases (letters text)[index]? <;> simp
  | object entries => exact absurd rfl (object entries)
  | _ => exact .wrongKind

theorem gentle_cycled {positions : Value} (placed : ¬ Nowhere positions) (index : Nat) :
    Gentle (cycled positions index) := by
  have object : ∀ entries, positions ≠ .object entries :=
    fun entries same => placed (.inr ⟨entries, same⟩)
  rw [cycled]
  split
  · exact .wrongKind
  · next none => exact absurd (.inl none) placed
  · exact gentle_memberAt object _

theorem gentle_scatterMoves {positions : Value} (placed : ¬ Nowhere positions) (who : List Value)
    (index : Nat) : Gentle (scatterMoves positions index who) := by
  induction who generalizing index with
  | nil => exact .ok _
  | cons first rest ih =>
    exact (gentle_cycled placed index).bind fun _ _ => (ih (index + 1)).bind fun _ _ => .ok _

theorem cycled_nowhere {positions : Value} (nowhere : Nowhere positions) (index : Nat) :
    ∃ cause, cycled positions index = .error cause ∧ ¬ cause.Refuses := by
  rw [cycled]
  rcases nowhere with none | ⟨entries, rfl⟩
  · rw [none]
    exact ⟨.zeroDivisor, rfl, by simp [Misuse.Refuses]⟩
  · cases entries with
    | nil => exact ⟨.zeroDivisor, rfl, by simp [Misuse.Refuses]⟩
    | cons entry entries => exact ⟨.unknownKey, rfl, by simp [Misuse.Refuses]⟩

/-- A call that sends someone to positions that are nowhere. -/
def Strands (args : List Value) : Prop :=
  ∃ characters positions first rest, args = [characters, positions] ∧
    characters.members = .ok (first :: rest) ∧ Nowhere positions

theorem scatter_two (characters positions : Value) :
    scatter.template [characters, positions] = (do
      let who ← characters.members
      let moves ← scatterMoves positions 0 who
      return ([step 0.2 (who.map (.animate · "Running_A") ++ [.sound "whoosh"]), step 0.8 moves],
        [])) := by
  have asks : scatter.template [characters, positions] =
      ((characters.members >>= fun who => pure (who, ([] : List Value))) >>= fun got =>
        (scatterMoves positions 0 got.1 >>= fun moves => pure (moves, got.2)) >>= fun moved =>
          pure ([step 0.2 (got.1.map (.animate · "Running_A") ++ [.sound "whoosh"]),
            step 0.8 moved.1], moved.2)) := rfl
  rw [asks]
  simp only [bind_assoc, pure_bind]

theorem gentle_scatter {args : List Value} (placed : ¬ Strands args) :
    Gentle (scatter.template args) := by
  match args with
  | [] | [_] | _ :: _ :: _ :: _ => exact .wrongKind
  | [characters, positions] =>
    have moves (who : List Value) (members : characters.members = .ok who) :
        Gentle (scatterMoves positions 0 who) := by
      cases who with
      | nil => exact .ok _
      | cons first rest =>
        apply gentle_scatterMoves
        exact fun nowhere => placed ⟨_, _, _, _, rfl, members, nowhere⟩
    rw [scatter_two]
    exact (gentle_members characters).bind fun who members =>
      (moves who members).bind fun _ _ => .ok _

theorem scatter_strands {args : List Value} (strands : Strands args) :
    ∃ cause, scatter.template args = .error cause ∧ ¬ cause.Refuses := by
  obtain ⟨characters, positions, first, rest, rfl, members, nowhere⟩ := strands
  obtain ⟨cause, fails, other⟩ := cycled_nowhere nowhere 0
  refine ⟨cause, ?_, other⟩
  rw [scatter_two, members]
  exact Except.bind_failed.mpr (.inr ⟨_, rfl, Except.bind_failed.mpr (.inl
    (Except.bind_failed.mpr (.inl fails)))⟩)

end Directive

open Directive

theorem mild_of_mem {directive : Directive} (member : directive ∈ directives) :
    directive = scatter ∨ Mild directive.template := by
  simp only [directives, List.mem_append] at member
  rcases member with (((entrance | movement) | prop) | speech) | beat
  · exact .inr (mild_entrances directive entrance)
  · exact mild_movements directive movement
  · exact .inr (mild_props directive prop)
  · exact .inr (mild_speeches directive speech)
  · exact .inr (mild_beats directive beat)

theorem gentle_call {directive : Directive} {args : List Value}
    (gentle : Gentle (directive.template args)) : Gentle (directive.call args) :=
  gentle.bind fun _ _ => .ok _

/-- A call fails by other than a refusal just when it scatters to nowhere. -/
theorem gentle_expand_iff {name : String} {args : List Value} :
    Gentle (expand name args) ↔ ¬ (name = "SCATTER" ∧ Strands args) := by
  constructor
  · rintro gentle ⟨rfl, strands⟩
    obtain ⟨cause, fails, other⟩ := scatter_strands strands
    have found : findDirective? "SCATTER" = some scatter := rfl
    refine other (gentle cause ?_)
    have call : scatter.call args = .error cause := Except.bind_failed.mpr (.inl fails)
    rw [expand, found]
    simp only [call, Except.map]
  · intro placed
    rw [expand]
    cases found : findDirective? name with
    | none => exact .ok _
    | some directive =>
      have named : directive.name = name := by
        simpa using List.find?_some found
      have gentle : Gentle (directive.template args) := by
        rcases mild_of_mem (List.mem_of_find?_eq_some found) with rfl | mild
        · exact gentle_scatter fun strands => placed ⟨named.symm, strands⟩
        · exact mild args
      intro cause failed
      change (directive.call args).map some = .error cause at failed
      cases called : directive.call args with
      | ok steps =>
        rw [called] at failed
        cases failed
      | error other =>
        rw [called] at failed
        cases failed
        exact gentle_call gentle cause called

/-- A call is read, as steps or as unresolved, unless it scatters to nowhere. -/
theorem readCall_defined_iff {id : String} {args : List Value} :
    (∃ reading, Value.readCall id args = .ok reading) ↔
      ¬ (id = "SCATTER" ∧ Strands (args.map Value.plain)) := by
  rw [← gentle_expand_iff, Value.readCall]
  cases expanded : expand id (args.map Value.plain) with
  | ok steps => cases steps <;> simp
  | error cause =>
    constructor
    · intro defined other same
      obtain rfl := Except.error.inj same
      cases cause with
      | wrongKind => exact .inl rfl
      | outOfRange => exact .inr rfl
      | _ => simp at defined
    · intro gentle
      rcases gentle cause rfl with rfl | rfl
      · exact ⟨_, rfl⟩
      · exact ⟨_, rfl⟩

end Stagecraft
