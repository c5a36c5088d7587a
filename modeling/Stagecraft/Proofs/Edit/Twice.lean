import Stagecraft.Proofs.Edit.Imports
import Stagecraft.Proofs.Edit.RowRun

/-!
Applying the same rows twice. The second time nothing goes in just when the first time has voiced
every row. It has when the lines that went in can be read back and disturb nothing: names without
escapes, balanced brackets and no ids in the fields, one character for the openings of one record,
and the imports above the records.
-/

namespace Stagecraft

variable {module : String} {rows : List FixRow} {buffer : Buffer} {bench after : Bench}
  {report : SpeechReport}

/-- Rows and a file in which no line that goes in disturbs what the others are found by. -/
structure Tame (module : String) (rows : List FixRow) (buffer : Buffer) : Prop where
  plain : ∀ row ∈ rows, ∀ speech ∈ row.fixes.speeches, speech.Plain module (rows.map (·.id))
  alone : ∀ line ∈ buffer.lines, Opens rows line →
    lineDelta .square line = 0 ∧ opensSteps line = false ∧ cuesOn line = false
  apart : ∀ line ∈ buffer.lines, opensRecord line → opensSteps line = false
  agree : ∀ row ∈ rows, ∀ second ∈ rows, ∀ place other steps,
    locate buffer row.id = .ok (some place) → locate buffer second.id = .ok (some other) →
      place.steps = some steps → other.steps = some steps → openingsAgree row.fixes second.fixes
  imports : ∃ top, (∀ line ∈ buffer.lines.take top, Clear line) ∧
    importOpen false (buffer.lines.take top) = false ∧
    ∀ line ∈ buffer.lines.drop top, startsImport line = false ∧ namesModule module line = false
  statement : ∀ row ∈ rows, hasId row.id (importStatement speakDirective module) = false

theorem Tame.underway (tame : Tame module rows buffer) :
    ∃ head, (∀ line ∈ head, Clear line) ∧ importOpen false head = false ∧
      Underway module rows head (fun row => ¬ ∃ extent : Extent, extent.Stands buffer.lines row.id)
        (bottomUp (locateRows buffer rows).1) buffer := by
  have imports : ImportsAbove module buffer.lines := tame.imports
  obtain ⟨head, clear, closed, above, rest⟩ := imports.split
  refine ⟨head, clear, closed, ?_⟩
  have tuned : Tuned rows head.length buffer.lines := {
    alone := tame.alone
    apart := tame.apart
    agree := by
      intro row member second there extent other stands found same
      obtain ⟨line, located⟩ := Extent.locate_of_stands stands
      obtain ⟨line', located'⟩ := Extent.locate_of_stands found
      have closing : extent.closing = other.closing := by
        have ends := stands.ends
        rw [same] at ends
        exact ends.unique found.ends
      refine tame.agree row member second there _ _ _ located located' rfl ?_
      rw [same, closing]
    below := fun _ _ _ stands => length_le_first clear above stands }
  refine ⟨tuned, ?_, ?_, above, rest⟩
  · intro pair member
    obtain ⟨known, current, extent, steps, stands, stepped, marks⟩ := marks_of_located member
    exact ⟨known, current, fun _ => ⟨extent, steps, stepped, marks, tuned.holds known stands⟩⟩
  · intro row member absent
    exact voiced_iff.mpr fun extent stands => absurd ⟨extent, stands⟩ absent

theorem Tame.voiced (tame : Tame module rows bench.buffer)
    (ran : applyFixes module rows bench = .ok report after) :
    ∀ row ∈ rows, Voiced after.buffer row := by
  obtain ⟨head, clear, closed, underway⟩ := tame.underway
  obtain ⟨counts, middle, worked, -, -, same⟩ := applyFixes_ran ran
  have whole := underway.applyRows tame.plain worked
  have voiced : ∀ row ∈ rows, Voiced middle.buffer row := by
    intro row member
    apply whole.voiced row member
    by_cases present : ∃ extent : Extent, extent.Stands bench.buffer.lines row.id
    · obtain ⟨extent, stands⟩ := present
      obtain ⟨line, located⟩ := Extent.locate_of_stands stands
      exact .inr ⟨(_, row), mem_bottomUp.mpr (mem_locateRows.mpr ⟨member, located, rfl⟩), rfl⟩
    · exact .inl present
  rw [same]
  split
  · exact voiced
  · have parts : middle.buffer.lines = head ++ middle.buffer.lines.drop head.length := by
      have split := List.take_append_drop head.length middle.buffer.lines
      rw [whole.above] at split
      exact split.symm
    have statement : ∀ id ∈ rows.map (·.id),
        hasId id (importStatement speakDirective module) = false := by
      simpa using tame.statement
    have free : 'i' ∉ speakDirective.toList := by decide
    obtain ⟨head', lines, passed⟩ :=
      ensureImport_above parts clear closed whole.rest statement free
    intro row member
    refine voiced_iff.mpr fun extent stands => ?_
    have passed' : ∀ line ∈ head', Passed [row.id] line := by
      intro line there
      refine ⟨(passed line there).1, fun id one => ?_⟩
      rw [List.mem_singleton.mp one]
      exact (passed line there).2 _ (List.mem_map_of_mem member)
    rw [lines] at stands ⊢
    obtain ⟨other, rfl, found⟩ := stands_behind passed' stands
    have clear' : ∀ line ∈ head, Passed [row.id] line := fun line there => (clear line there).passed
    have old := stands_below clear' found
    rw [← parts] at old
    have heard := voiced_iff.mp (voiced row member) _ old
    rw [parts] at heard
    exact voicedOn_top_iff.mpr (voicedOn_top_iff.mp heard)

/-- The second run puts nothing in just when the first one has voiced every row. -/
theorem applyFixes_again_iff (ran : applyFixes module rows bench = .ok report after) :
    ((∃ again last, applyFixes module rows after = .ok again last ∧ again.inserted = 0 ∧
        last.buffer = after.buffer) ↔ ∀ row ∈ rows, Voiced after.buffer row) ∧
      (Tame module rows bench.buffer → ∃ again last, applyFixes module rows after =
        .ok again last ∧ again.inserted = 0 ∧ last.buffer = after.buffer) :=
  ⟨applyFixes_silent_iff, fun tame => applyFixes_silent_iff.mpr (tame.voiced ran)⟩

def scene : Buffer := ⟨["import \x7b ENTER_FROM_LEFT \x7d from '../movement-templates';",
  "const A = \x7b", "  id: 'a',", "  steps: [", "    ...ENTER_FROM_LEFT('king'),",
  "    ...CELEBRATION(['king']),", "  ],", "\x7d;"], []⟩

def castRow (name : String) : FixRow :=
  ⟨"zone", "a", "NEEDS_FIXES", ⟨[⟨name, "happy", "Hello!"⟩], some ⟨"king", "calm", "So."⟩, none⟩⟩

theorem plain_name {name : String}
    (plain : name.toList.all (fun c => c != '\'' && c != '\\') = true) :
    ∀ c ∈ name.toList, c ≠ '\'' ∧ c ≠ '\\' := by
  intro c member
  have here := List.all_eq_true.mp plain c member
  simpa using here

theorem tame_scene : Tame templateModule [castRow "queen"] scene where
  plain := by
    intro row member speech known
    rw [List.mem_singleton.mp member] at known
    simp only [castRow, SpeechFixes.speeches, Option.toList_none, Option.toList_some,
      List.append_nil, List.cons_append, List.nil_append, List.mem_cons, List.not_mem_nil,
      or_false] at known
    rcases known with rfl | rfl
    · exact ⟨plain_name (by decide +kernel), by decide +kernel, by decide +kernel,
        by decide +kernel, by decide +kernel⟩
    · exact ⟨plain_name (by decide +kernel), by decide +kernel, by decide +kernel,
        by decide +kernel, by decide +kernel⟩
  alone := by
    rintro line member ⟨row, known, opening, opens, speaks⟩
    rw [List.mem_singleton.mp known] at opens
    obtain rfl := Option.some.inj opens
    have silent : ∀ line ∈ scene.lines, speaksFor "king" line = false := by decide +kernel
    rw [silent line member] at speaks
    cases speaks
  apart := by decide +kernel
  agree := by
    intro row member second there place other steps _ _ _ _ a opens b opens'
    rw [List.mem_singleton.mp member] at opens
    rw [List.mem_singleton.mp there] at opens'
    rw [← Option.some.inj opens, ← Option.some.inj opens']
  imports := ⟨1, by unfold Clear; decide +kernel, by decide +kernel, by decide +kernel⟩
  statement := by decide +kernel

/-- How many lines the second run puts in. -/
def insertedAgain (rows : List FixRow) (buffer : Buffer) : Option Nat :=
  match applyFixes templateModule rows ⟨buffer, []⟩ with
  | .error _ _ => none
  | .ok _ after =>
    match applyFixes templateModule rows after with
    | .error _ _ => none
    | .ok again _ => some again.inserted

theorem insertedAgain_eq_some {buffer : Buffer} {count : Nat}
    (answer : insertedAgain rows buffer = some count) :
    ∃ report after again last, applyFixes templateModule rows ⟨buffer, []⟩ = .ok report after ∧
      applyFixes templateModule rows after = .ok again last ∧ again.inserted = count := by
  rw [insertedAgain] at answer
  split at answer
  · cases answer
  · next report after first =>
    split at answer
    · cases answer
    · next again last second =>
      exact ⟨report, after, again, last, first, second, Option.some.inj answer⟩

theorem applyFixes_again_scene : ∃ report after,
    applyFixes templateModule [castRow "queen"] ⟨scene, []⟩ = .ok report after ∧
      ∃ again last, applyFixes templateModule [castRow "queen"] after = .ok again last ∧
        again.inserted = 0 ∧ last.buffer = after.buffer := by
  have answer : (match applyFixes templateModule [castRow "queen"] ⟨scene, []⟩ with
      | .ok report _ => some report.inserted
      | .error _ _ => none) = some 2 := by decide +kernel
  split at answer
  · next report after ran => exact ⟨report, after, ran, (applyFixes_again_iff ran).2 tame_scene⟩
  · cases answer

/-- A name with an apostrophe is not found again in the line that was put in for it. -/
theorem applyFixes_again_escaped : ∃ report after again last,
    applyFixes templateModule [castRow "o'brien"] ⟨scene, []⟩ = .ok report after ∧
      applyFixes templateModule [castRow "o'brien"] after = .ok again last ∧
        again.inserted = 1 :=
  insertedAgain_eq_some (by decide +kernel)

end Stagecraft
