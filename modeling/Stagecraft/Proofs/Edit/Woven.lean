import Stagecraft.Proofs.Edit.SpeechTokens
import Stagecraft.Proofs.Record.Seams
import Stagecraft.Proofs.Woven

/-!
A record whose steps have calls of the speaking directive woven into them is the same vignette, with
the steps of these calls woven into its own.
-/

namespace Stagecraft

section Vignettes

variable {elements elements' : List Value} {speeches : List Speech} {reading : Reading}

theorem readElements_woven (woven : Woven elements (speeches.map Speech.call) elements')
    (read : Value.readElements elements = .ok reading) :
    ∃ groups groups', Woven groups (speeches.map Speech.steps) groups' ∧
      reading.steps = groups.flatten ∧
      Value.readElements elements' = .ok ⟨groups'.flatten, reading.unresolved⟩ := by
  generalize same : speeches.map Speech.call = added at woven
  induction woven generalizing speeches reading with
  | done =>
    cases read
    obtain rfl := List.map_eq_nil_iff.mp same
    exact ⟨[], [], .done, rfl, rfl⟩
  | keep x _ ih =>
    rw [Value.readElements] at read
    obtain ⟨first, here, read⟩ := Except.bind_ran.mp read
    obtain ⟨others, behind, made⟩ := Except.bind_ran.mp read
    cases made
    obtain ⟨groups, groups', woven, steps, read'⟩ := ih behind same
    refine ⟨first.steps :: groups, first.steps :: groups', .keep _ woven, ?_, ?_⟩
    · rw [Reading.followedBy, steps, List.flatten_cons]
    · rw [Value.readElements, here, read']
      rfl
  | add x _ ih =>
    obtain ⟨speech, speeches, rfl, rfl, rest⟩ := List.map_eq_cons_iff.mp same
    obtain ⟨groups, groups', woven, steps, read'⟩ := ih read rest
    refine ⟨groups, speech.steps :: groups', .add _ woven, steps, ?_⟩
    rw [Value.readElements, readElement_call, read']
    rfl

/-- The elements of the steps are those of the list that is given last. -/
theorem elementsOf_objectOf {before behind : List Member}
    (free : ∀ member ∈ behind, member.sets "steps" = false) (values : List Value) :
    elementsOf (fieldsOf (objectOf (before ++ .entry "steps" (.list values) :: behind))) =
      values := by
  rw [elementsOf, get?_steps before free, itemsOrName_list]

theorem ofFields_woven {before behind : List Member} {vignette : Vignette}
    (free : ∀ member ∈ behind, member.sets "steps" = false)
    (woven : Woven elements (speeches.map Speech.call) elements')
    (made : Vignette.ofFields (fieldsOf (objectOf
      (before ++ .entry "steps" (.list elements) :: behind))) = .ok vignette) :
    ∃ groups groups', Woven groups (speeches.map Speech.steps) groups' ∧
      vignette.steps = groups.flatten ∧
      Vignette.ofFields (fieldsOf (objectOf
        (before ++ .entry "steps" (.list elements') :: behind))) =
          .ok { vignette with steps := groups'.flatten } := by
  obtain ⟨reading, read, rfl⟩ := ofFields_iff.mp made
  rw [elementsOf_objectOf free] at read
  obtain ⟨groups, groups', woven', steps, read'⟩ := readElements_woven woven read
  refine ⟨groups, groups', woven', steps, ?_⟩
  rw [← elementsOf_objectOf free elements'] at read'
  rw [ofFields_steps (Agree.of_members before behind).others made read']
  simp only [get?_steps before free, itemsOrName_list]

end Vignettes

section Records

variable {seams : Seams} {insertions : List Insertion} {paragraphs : List (List String)}
  {value : Value} {vignette : Vignette}

/-- The speeches of insertions from top to bottom. -/
def speechesOf (insertions : List Insertion) : List Speech := insertions.flatMap (·.speeches)

theorem elements_of_insertions (sound : ∀ insertion ∈ insertions, insertion.Sound) :
    Seams.elementsAmong (insertions.map Insertion.lines) =
      (speechesOf insertions).map Speech.call := by
  induction insertions with
  | nil => rfl
  | cons insertion insertions ih =>
    have rest := ih fun other member => sound other (List.mem_cons_of_mem _ member)
    rw [Seams.elementsAmong] at rest ⊢
    rw [List.map_cons, List.flatMap_cons, (sound insertion (by simp)).elements, Option.getD_some,
      rest, speechesOf, speechesOf, List.flatMap_cons, List.map_append]

/-- The record with insertions at its seams is read, with the speech woven into its steps. -/
theorem read_woven (sewn : seams.Sewn) (sound : ∀ insertion ∈ insertions, insertion.Sound)
    (woven : Woven seams.paragraphs (insertions.map Insertion.lines) paragraphs)
    (read : readLiteral (recordText (join "\n" seams.lines)) = .ok value)
    (made : Vignette.ofFields (fieldsOf value) = .ok vignette) :
    ∃ value' groups groups',
      readLiteral (recordText (join "\n" (seams.keeping paragraphs).lines)) = .ok value' ∧
      Woven (elementsOf (fieldsOf value)) ((speechesOf insertions).map Speech.call)
        (elementsOf (fieldsOf value')) ∧
      Woven groups ((speechesOf insertions).map Speech.steps) groups' ∧
      vignette.steps = groups.flatten ∧
      Vignette.ofFields (fieldsOf value') = .ok { vignette with steps := groups'.flatten } := by
  have whole : ∀ paragraph ∈ paragraphs, (wholeElements? paragraph).isSome := by
    intro paragraph member
    rcases woven.mem member with old | new
    · exact sewn.whole paragraph old
    · obtain ⟨insertion, present, rfl⟩ := List.mem_map.mp new
      rw [(sound insertion present).elements]
      rfl
  obtain ⟨first, last, before, behind, free, rfl, read'⟩ := seams.read_other sewn whole read
  have among : Woven (Seams.elementsAmong seams.paragraphs) ((speechesOf insertions).map Speech.call)
      (Seams.elementsAmong paragraphs) := by
    rw [← elements_of_insertions sound]
    exact woven.flatMap _
  have elements := (among.keeps_end last).keeps first
  obtain ⟨groups, groups', steps, flat, made'⟩ := ofFields_woven free elements made
  refine ⟨_, groups, groups', read', ?_, steps, flat, made'⟩
  rw [elementsOf_objectOf free, elementsOf_objectOf free]
  exact elements

end Records

end Stagecraft
