import Stagecraft.Proofs.Edit.Embedding
import Stagecraft.Proofs.Edit.Turns

/-!
A row looks at nothing but its record. With other lines above and below, its speech goes in at the
same lines further down, with the same indents and for the same characters, and the lines around the
record stay.
-/

namespace Stagecraft

variable {front back : List String} {old : List Nat} {site alone : Site} {index : Nat}
  {added : List String} {speeches : List Speech} {more : List String} {fixes : SpeechFixes}

/-- A record at work stands by itself in the other site, and its spans are good in both. What was
edited there went on within the record or below it. -/
structure Inset (front back : List String) (old : List Nat) (site alone : Site) : Prop
    extends Embedded front back site alone where
  first : site.record.start = alone.record.start + front.length
  last : site.record.stop = alone.record.stop + front.length
  within : alone.record.stop ≤ alone.buffer.lines.length
  valid : site.Valid
  good : alone.Valid
  edits : ∃ new, site.buffer.edits = old ++ new ∧ ∀ line ∈ new, front.length ≤ line

theorem putLines_embedded {α : Type} {front inner back more : List α}
    (inside : index ≤ inner.length) :
    putLines (index + front.length) more (front ++ inner ++ back) =
      front ++ putLines index more inner ++ back := by
  rw [List.append_assoc, putLines_append_right (Nat.le_add_left _ _), Nat.add_sub_cancel,
    putLines_append_left inside, List.append_assoc]

theorem Span.afterInsert_add {span own : Span} {down : Nat} (start : span.start = own.start + down)
    (stop : span.stop = own.stop + down) (index count revision revision' : Nat) :
    (span.afterInsert (index + down) count revision).start =
        (own.afterInsert index count revision').start + down ∧
      (span.afterInsert (index + down) count revision).stop =
        (own.afterInsert index count revision').stop + down := by
  simp only [Span.afterInsert, start, stop, Nat.add_le_add_iff_right, Nat.add_lt_add_iff_right]
  constructor
  · split <;> omega
  · split <;> omega

section Indent

variable {buffer : Buffer} {steps : Span} {levels : List Nat} {line : Nat}

def filledLines (buffer : Buffer) (levels : List Nat) : List Nat :=
  levels.filter fun line => !(buffer.line? line).all isBlankText

/-- The line that a new line is indented like. -/
def guideFor (buffer : Buffer) (levels : List Nat) (index : Nat) : Option Nat :=
  ((filledLines buffer levels).filter (· ≤ index)).getLast? <|> (filledLines buffer levels).getLast?

theorem mem_of_guideFor (guide : guideFor buffer levels index = some line) : line ∈ levels := by
  rw [guideFor] at guide
  cases above : ((filledLines buffer levels).filter (· ≤ index)).getLast? with
  | some found =>
    rw [above] at guide
    cases guide
    exact List.mem_of_mem_filter (List.mem_of_mem_filter (List.mem_of_getLast? above))
  | none =>
    rw [above] at guide
    exact List.mem_of_mem_filter (List.mem_of_getLast? guide)

theorem stepIndent_of_levels
    (found : stepLevelLines buffer.lines steps.start (steps.stop - 1) = .ok levels) (index : Nat) :
    stepIndent buffer steps index = .ok (match guideFor buffer levels index with
      | some line => indentOf ((buffer.line? line).getD "")
      | none => indentOf ((buffer.line? steps.start).getD "") ++ "  ") := by
  rw [stepIndent, found]
  rfl

end Indent

theorem getD_orElse_map {α β : Type} (f : α → β) (one two three : Option α) (default : α) :
    (one.map f <|> two.map f <|> three.map f).getD (f default) =
      f ((one <|> two <|> three).getD default) := by
  cases one <;> cases two <;> cases three <;> rfl

namespace Inset

section Queries

variable (inset : Inset front back old site alone)

include inset

theorem low : alone.steps.start < alone.buffer.lines.length :=
  Nat.lt_of_lt_of_le inset.order inset.inside

theorem high : alone.steps.stop - 1 ≤ alone.buffer.lines.length :=
  Nat.le_trans (Nat.sub_le _ _) inset.inside

theorem low' : site.steps.start < site.buffer.lines.length := by
  have low := inset.low
  rw [inset.start, inset.lines, List.length_append, List.length_append]
  omega

theorem high' : site.steps.stop - 1 ≤ site.buffer.lines.length := by
  have high := inset.high
  rw [inset.closing, inset.lines, List.length_append, List.length_append]
  omega

theorem levels : ∃ levels,
    stepLevelLines alone.buffer.lines alone.steps.start (alone.steps.stop - 1) = .ok levels ∧
    stepLevelLines site.buffer.lines site.steps.start (site.steps.stop - 1) =
      .ok (levels.map (· + front.length)) ∧
    (∀ line ∈ levels, alone.steps.start < line ∧ line < alone.steps.stop - 1) ∧
    ∀ line ∈ levels, line < alone.buffer.lines.length := by
  obtain ⟨levels, found⟩ := stepLevelLines_defined inset.low inset.high
  have bounds : ∀ line ∈ levels, alone.steps.start < line ∧ line < alone.steps.stop - 1 := by
    intro line member
    obtain ⟨low, high, -⟩ := ((stepLevelLines_ok found).2 line).mp member
    exact ⟨low, high⟩
  refine ⟨levels, found, ?_, bounds, ?_⟩
  · rw [inset.lines, inset.start, inset.closing, stepLevelLines_embedded inset.low inset.high,
      found]
    rfl
  · intro line member
    exact Nat.lt_of_lt_of_le (bounds line member).2 inset.high

theorem line?_eq {line : Nat} (inside : line < alone.buffer.lines.length) :
    site.buffer.line? (line + front.length) = alone.buffer.line? line := by
  rw [Buffer.line?, inset.lines, getElem?_embedded inside, Buffer.line?]

/-- Levels are told apart by their lines alike. -/
theorem filter_eq {levels : List Nat} {test : Option String → Bool}
    (inside : ∀ line ∈ levels, line < alone.buffer.lines.length) :
    (levels.map (· + front.length)).filter (fun line => test (site.buffer.line? line)) =
      (levels.filter fun line => test (alone.buffer.line? line)).map (· + front.length) := by
  rw [List.filter_map]
  congr 1
  apply List.filter_congr
  intro line member
  simp only [Function.comp, inset.line?_eq (inside line member)]

theorem spreadsOf_eq {levels : List Nat} (name : String)
    (inside : ∀ line ∈ levels, line < alone.buffer.lines.length) :
    spreadsOf site.buffer (levels.map (· + front.length)) name =
      (spreadsOf alone.buffer levels name).map (· + front.length) :=
  @filter_eq _ _ _ _ _ inset _ (fun text => text.bind spreadDirective? = some name) inside

theorem insertionPoint_eq : ∃ point, insertionPoint alone.buffer alone.steps = .ok point ∧
    insertionPoint site.buffer site.steps = .ok (point + front.length) ∧
    alone.steps.start ≤ point ∧ point < alone.steps.stop := by
  obtain ⟨levels, found, found', -, inside⟩ := inset.levels
  obtain ⟨point, pointed⟩ := insertionPoint_defined inset.good.2 inset.low inset.high
  obtain ⟨point', pointed'⟩ := insertionPoint_defined inset.valid.2 inset.low' inset.high'
  have order := inset.order
  refine ⟨point, pointed, ?_, ?_⟩
  · obtain ⟨_, asked, same⟩ := insertionPoint_cases pointed
    obtain ⟨_, asked', same'⟩ := insertionPoint_cases pointed'
    obtain rfl := Except.ok.inj (found.symm.trans asked)
    obtain rfl := Except.ok.inj (found'.symm.trans asked')
    -- A narrator is late by its distance from the start, which is the same on both sides.
    have late : ((spreadsOf alone.buffer levels "NARRATOR").map (· + front.length)).filter
        (site.steps.start + lateNarrator < ·) =
          ((spreadsOf alone.buffer levels "NARRATOR").filter
            (alone.steps.start + lateNarrator < ·)).map (· + front.length) := by
      rw [List.filter_map]
      congr 1
      apply List.filter_congr
      intro line _
      rw [inset.start, Function.comp, Nat.add_right_comm]
      simp only [Nat.add_lt_add_iff_right]
    rw [pointed', same', same, inset.spreadsOf_eq _ inside, inset.spreadsOf_eq _ inside,
      inset.spreadsOf_eq _ inside, late, List.getLast?_map, List.getLast?_map, List.getLast?_map,
      inset.closing, getD_orElse_map]
  · rcases insertionPoint_ok pointed with rfl | ⟨⟨low, high, -⟩, -⟩
    · omega
    · omega

theorem entranceLine_eq : ∃ answer, entranceLine alone.buffer alone.steps = .ok answer ∧
    entranceLine site.buffer site.steps = .ok (answer.map (· + front.length)) ∧
    ∀ below ∈ answer, alone.steps.start < below ∧ below < alone.steps.stop := by
  obtain ⟨levels, found, found', bounds, inside⟩ := inset.levels
  have order := inset.order
  let enters (text : Option String) : Bool :=
    (text.bind spreadDirective?).any (entranceDirectives.contains ·)
  have own : entranceLine alone.buffer alone.steps =
      .ok ((levels.find? fun line => enters (alone.buffer.line? line)).map (· + 1)) := by
    rw [entranceLine, liftFault_require_ran.mpr inset.good.2, found]
    rfl
  refine ⟨_, own, ?_, ?_⟩
  · have first : (levels.map (· + front.length)).find?
        (fun line => enters (site.buffer.line? line)) =
          (levels.find? fun line => enters (alone.buffer.line? line)).map (· + front.length) := by
      rw [← List.head?_filter, inset.filter_eq inside, List.head?_map, List.head?_filter]
    have other : entranceLine site.buffer site.steps =
        .ok (((levels.map (· + front.length)).find?
          fun line => enters (site.buffer.line? line)).map (· + 1)) := by
      rw [entranceLine, liftFault_require_ran.mpr inset.valid.2, found']
      rfl
    rw [other, first, Option.map_map, Option.map_map]
    simp only [Function.comp_def, Nat.add_right_comm]
  · intro below entered
    obtain ⟨line, there, rfl⟩ := Option.map_eq_some_iff.mp entered
    have bound := bounds line (List.mem_of_find?_eq_some there)
    omega

theorem guideFor_eq {levels : List Nat} (inside : ∀ line ∈ levels, line < alone.buffer.lines.length)
    (index : Nat) : guideFor site.buffer (levels.map (· + front.length)) (index + front.length) =
      (guideFor alone.buffer levels index).map (· + front.length) := by
  have kept : filledLines site.buffer (levels.map (· + front.length)) =
      (filledLines alone.buffer levels).map (· + front.length) :=
    @filter_eq _ _ _ _ _ inset _ (fun text => !text.all isBlankText) inside
  have above : ((filledLines alone.buffer levels).map (· + front.length)).filter
      (· ≤ index + front.length) =
        ((filledLines alone.buffer levels).filter (· ≤ index)).map (· + front.length) := by
    rw [List.filter_map]
    congr 1
    apply List.filter_congr
    intro line _
    simp only [Function.comp, Nat.add_le_add_iff_right]
  rw [guideFor, guideFor, kept, above, List.getLast?_map, List.getLast?_map]
  cases ((filledLines alone.buffer levels).filter (· ≤ index)).getLast? <;> rfl

theorem stepIndent_eq (index : Nat) : ∃ indent,
    stepIndent alone.buffer alone.steps index = .ok indent ∧
    stepIndent site.buffer site.steps (index + front.length) = .ok indent := by
  obtain ⟨levels, found, found', -, inside⟩ := inset.levels
  refine ⟨_, stepIndent_of_levels found index, ?_⟩
  rw [stepIndent_of_levels found', inset.guideFor_eq inside]
  cases guide : guideFor alone.buffer levels index with
  | none =>
    simp only [Option.map_none]
    rw [inset.start, inset.line?_eq inset.low]
  | some line =>
    simp only [Option.map_some]
    rw [inset.line?_eq (inside line (mem_of_guideFor guide))]

theorem hasDialogue_eq (character : String) :
    hasDialogue site.buffer site.record character =
      hasDialogue alone.buffer alone.record character := by
  have same : site.buffer.spanLines site.record = alone.buffer.spanLines alone.record := by
    rw [Buffer.spanLines, inset.lines, inset.first, inset.last, slice_embedded inset.within,
      Buffer.spanLines]
  rw [hasDialogue_valid inset.valid.1, hasDialogue_valid inset.good.1, same]

theorem missingSpeeches_eq : missingSpeeches site.buffer site.record added speeches =
    missingSpeeches alone.buffer alone.record added speeches := by
  induction speeches generalizing added with
  | nil => rfl
  | cons speech rest ih =>
    rw [missingSpeeches, missingSpeeches, inset.hasDialogue_eq, ih]
    simp only [ih]

end Queries

/-- The same lines go in on both sides. -/
theorem put (inset : Inset front back old site alone) (low : alone.steps.start ≤ index)
    (high : index < alone.steps.stop) :
    Inset front back old (site.put (index + front.length) more) (alone.put index more) := by
  have inside : index ≤ alone.buffer.lines.length :=
    Nat.le_trans (Nat.le_of_lt high) inset.inside
  have grown : (alone.put index more).buffer.lines.length =
      alone.buffer.lines.length + more.length := length_putLines ..
  obtain ⟨new, edits, below⟩ := inset.edits
  have steps := Span.afterInsert_add inset.start inset.stop index more.length
    (site.put (index + front.length) more).buffer.revision (alone.put index more).buffer.revision
  have record := Span.afterInsert_add inset.first inset.last index more.length
    (site.put (index + front.length) more).buffer.revision (alone.put index more).buffer.revision
  refine {
    lines := ?_, start := steps.1, stop := steps.2, order := ?_, inside := ?_
    first := record.1, last := record.2, within := ?_
    valid := .put .., good := .put .., edits := ⟨new ++ [index + front.length], ?_, ?_⟩ }
  · change putLines _ _ site.buffer.lines = front ++ putLines _ _ alone.buffer.lines ++ back
    rw [inset.lines, putLines_embedded inside]
  · have order := inset.order
    simp only [Site.put, Span.afterInsert, if_pos high]
    split <;> omega
  · have inside := inset.inside
    rw [grown]
    simp only [Site.put, Span.afterInsert, if_pos high]
    omega
  · have within := inset.within
    rw [grown]
    simp only [Site.put, Span.afterInsert]
    split <;> omega
  · change site.buffer.edits ++ [index + front.length] = _
    rw [edits, List.append_assoc]
  · intro line member
    rcases List.mem_append.mp member with early | here
    · exact below line early
    · rw [List.mem_singleton.mp here]
      exact Nat.le_add_left _ _

theorem insertDialogue (inset : Inset front back old site alone) :
    ∃ count after last, insertDialogue fixes site = .ok count after ∧
      insertDialogue fixes alone = .ok count last ∧ Inset front back old after last := by
  obtain ⟨point, pointed, pointed', low, high⟩ := inset.insertionPoint_eq
  obtain ⟨indent, indented, indented'⟩ := inset.stepIndent_eq point
  obtain ⟨missing, sought⟩ : ∃ missing, missingSpeeches alone.buffer alone.record []
      (fixes.dialogue ++ fixes.closing.toList) = .ok missing :=
    missingSpeeches_defined inset.good.1
  have sought' := inset.missingSpeeches_eq.trans sought
  refine ⟨_, _, _, insertDialogue_eq inset.valid pointed' indented' sought',
    insertDialogue_eq inset.good pointed indented sought, ?_⟩
  split
  · exact inset
  · exact inset.put low high

theorem insertOpening (inset : Inset front back old site alone) (opening : Speech) :
    ∃ count after last, insertOpening opening site = .ok count after ∧
      insertOpening opening alone = .ok count last ∧ Inset front back old after last := by
  obtain ⟨answer, entered, entered', bounds⟩ := inset.entranceLine_eq
  cases answer with
  | none => exact ⟨0, site, alone, insertOpening_absent entered', insertOpening_absent entered, inset⟩
  | some below =>
    obtain ⟨low, high⟩ := bounds below rfl
    obtain ⟨indent, indented, indented'⟩ := inset.stepIndent_eq (below - 1)
    have above : below - 1 + front.length = below + front.length - 1 := by omega
    have line := inset.line?_eq (Nat.lt_of_lt_of_le high inset.inside)
    rw [above] at indented'
    rw [insertOpening_eq inset.valid entered' indented', insertOpening_eq inset.good entered indented,
      line]
    split
    · exact ⟨0, site, alone, rfl, rfl, inset⟩
    · exact ⟨1, _, _, rfl, rfl, inset.put (Nat.le_of_lt low) high⟩

/-- A row does at a record among others what it does at the record by itself. -/
theorem applyRow (inset : Inset front back old site alone) (fixes : SpeechFixes) :
    ∃ count after last, applyRow fixes site = .ok count after ∧
      applyRow fixes alone = .ok count last ∧ Inset front back old after last := by
  obtain ⟨dialogue, middle, middle', first, first', between⟩ :=
    @insertDialogue _ _ _ _ _ fixes inset
  rw [Stagecraft.applyRow]
  cases opens : fixes.opening with
  | none =>
    exact ⟨dialogue, middle, middle', bind_ran.mpr ⟨_, _, first, rfl⟩,
      bind_ran.mpr ⟨_, _, first', rfl⟩, between⟩
  | some opening =>
    obtain ⟨count, after, last, second, second', done⟩ := between.insertOpening opening
    exact ⟨dialogue + count, after, last,
      bind_ran.mpr ⟨_, _, first, bind_ran.mpr ⟨_, _, second, rfl⟩⟩,
      bind_ran.mpr ⟨_, _, first', bind_ran.mpr ⟨_, _, second', rfl⟩⟩, done⟩

end Inset

end Stagecraft
