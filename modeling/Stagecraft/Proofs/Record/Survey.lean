import Stagecraft.Proofs.Record.Extent

/-!
The records a survey finds, from top to bottom. Each was located from the line of its id, which it
holds, and the next one has its id below it.
-/

namespace Stagecraft

variable {buffer : Buffer} {id : String} {line : Nat} {location : Location} {survey : Survey}

theorem length_spanLines {span : Span} (ends : span.stop ≤ buffer.lines.length) :
    (buffer.spanLines span).length = span.stop - span.start := by
  rw [Buffer.spanLines, List.length_drop, List.length_take_of_le ends]

/-- The spans of a record that was just located are current, and the steps lie within. -/
theorem locateAt_spans (located : locateAt buffer id line = .ok location) :
    location.record.revision = buffer.revision ∧ location.record.stop ≤ buffer.lines.length ∧
      ∀ steps, location.steps = some steps →
        steps.revision = buffer.revision ∧ steps.stop ≤ location.record.stop := by
  obtain ⟨first, last, ends, -, close, bounds, rfl⟩ := locateAt_ok located
  have inside := matchingClose_bounds close
  refine ⟨rfl, by simp only [Buffer.span]; omega, ?_⟩
  intro steps stepped
  obtain ⟨⟨opening, closing⟩, rfl, rfl⟩ := Option.map_eq_some_iff.mp stepped
  obtain ⟨-, -, -, short⟩ := Extent.stepsBounds_eq_some_iff.mp bounds
  refine ⟨rfl, ?_⟩
  simp only [Buffer.span]
  omega

/-- A record has a first line, and its steps open at or below it. -/
theorem locateAt_order (located : locateAt buffer id line = .ok location) :
    location.record.start < location.record.stop ∧
      ∀ steps, location.steps = some steps →
        location.record.start ≤ steps.start ∧ steps.start < steps.stop := by
  obtain ⟨first, last, ends, -, close, bounds, rfl⟩ := locateAt_ok located
  have inside := matchingClose_bounds close
  refine ⟨by simp only [Buffer.span]; omega, ?_⟩
  intro steps stepped
  obtain ⟨⟨opening, closing⟩, rfl, rfl⟩ := Option.map_eq_some_iff.mp stepped
  obtain ⟨opens, -, closes, -⟩ := Extent.stepsBounds_eq_some_iff.mp bounds
  exact ⟨opens.1, Nat.lt_succ_of_le closes.1⟩

/-- A record was located from the line of its id and holds it. -/
def Found (buffer : Buffer) (location : Location) : Prop :=
  locateAt buffer location.id location.idLine = .ok location ∧
    location.idLine < location.record.stop

theorem locateAt_id (located : locateAt buffer id line = .ok location) :
    location.id = id ∧ location.idLine = line := by
  obtain ⟨_, _, _, -, -, -, rfl⟩ := locateAt_ok located
  exact ⟨rfl, rfl⟩

theorem map_ok {ε α β : Type} {f : α → β} {answer : Except ε α} {result : β} :
    answer.map f = .ok result ↔ ∃ value, answer = .ok value ∧ f value = result := by
  cases answer <;> simp [Except.map]

theorem surveyFrom_found (surveyed : surveyFrom buffer line = .ok survey) :
    (∀ location ∈ survey.found, Found buffer location ∧ line ≤ location.idLine) ∧
      survey.found.Pairwise fun above below => above.record.stop ≤ below.idLine := by
  fun_induction surveyFrom buffer line generalizing survey with
  | case1 line inside plain ih =>
    obtain ⟨held, order⟩ := ih surveyed
    refine ⟨?_, order⟩
    intro location member
    obtain ⟨found, low⟩ := held location member
    exact ⟨found, Nat.le_of_succ_le low⟩
  | case2 line inside id named fault located ih =>
    obtain ⟨rest, behind, rfl⟩ := map_ok.mp surveyed
    obtain ⟨held, order⟩ := ih behind
    refine ⟨?_, order⟩
    intro location member
    obtain ⟨found, low⟩ := held location member
    exact ⟨found, Nat.le_of_succ_le low⟩
  | case3 line inside id named here located forward ih =>
    obtain ⟨rest, behind, rfl⟩ := map_ok.mp surveyed
    obtain ⟨held, order⟩ := ih behind
    obtain ⟨same, place⟩ := locateAt_id located
    have later {location : Location} (member : location ∈ rest.found) :
        Found buffer location ∧ line ≤ location.idLine := by
      obtain ⟨found, low⟩ := held location member
      exact ⟨found, by omega⟩
    rw [Survey.addFound]
    split
    · refine ⟨?_, List.pairwise_cons.mpr ⟨fun other member => (held other member).2, order⟩⟩
      intro location member
      rcases List.mem_cons.mp member with rfl | member
      · exact ⟨⟨by rw [same, place]; exact located, by rwa [place]⟩, Nat.le_of_eq place.symm⟩
      · exact later member
    · exact ⟨fun location member => later member, order⟩
  | case4 => cases surveyed
  | case5 =>
    cases surveyed
    exact ⟨by simp, .nil⟩

/-- Only records with steps are listed. -/
theorem surveyFrom_steps (surveyed : surveyFrom buffer line = .ok survey) :
    ∀ location ∈ survey.found, ∃ steps, location.steps = some steps := by
  fun_induction surveyFrom buffer line generalizing survey with
  | case1 line inside plain ih => exact ih surveyed
  | case2 line inside id named fault located ih =>
    obtain ⟨rest, behind, rfl⟩ := map_ok.mp surveyed
    have others := ih behind
    exact others
  | case3 line inside id named here located forward ih =>
    obtain ⟨rest, behind, rfl⟩ := map_ok.mp surveyed
    rw [Survey.addFound]
    split
    · next some =>
      intro location member
      rcases List.mem_cons.mp member with rfl | later
      · exact Option.isSome_iff_exists.mp some
      · exact ih behind location later
    · exact ih behind
  | case4 => cases surveyed
  | case5 =>
    cases surveyed
    simp

theorem found_of_findAll (surveyed : findAll buffer = .ok survey)
    (member : location ∈ survey.found) : Found buffer location :=
  ((surveyFrom_found surveyed).1 location member).1

/-- The records from the last one up, as the passes go over them. -/
theorem listed_of_findAll (surveyed : findAll buffer = .ok survey) :
    ∀ location ∈ survey.found.reverse, location ∈ survey.found ∧
      locateAt buffer location.id location.idLine = .ok location := by
  intro location member
  have present := List.mem_reverse.mp member
  exact ⟨present, (found_of_findAll surveyed present).1⟩

/-- The records a survey finds. -/
def foundIn (buffer : Buffer) : List Location :=
  match findAll buffer with
  | .ok survey => survey.found
  | .error _ => []

theorem foundIn_eq {locations : List Location} (found : foundIn buffer = locations)
    (filled : locations ≠ []) :
    ∃ survey, findAll buffer = .ok survey ∧ survey.found = locations := by
  rw [foundIn] at found
  split at found
  · next survey surveyed => exact ⟨survey, surveyed, found⟩
  · exact absurd found.symm filled

/-- A survey that meets with no fault. -/
theorem findAll_of_quiet {locations : List Location}
    (quiet : (findAll buffer).toOption.map (fun survey => (survey.found, survey.issues)) =
      some (locations, [])) : findAll buffer = .ok ⟨locations, []⟩ := by
  cases surveyed : findAll buffer with
  | error fault =>
    rw [surveyed] at quiet
    cases quiet
  | ok survey =>
    rw [surveyed] at quiet
    obtain ⟨rfl, none⟩ := Prod.mk.inj (Option.some.inj quiet)
    rw [← none]

end Stagecraft
