import Stagecraft.Proofs.Edit.Voicing

/-!
A run over the rows of a sheet, row by row. What the searches need stays as it is while harmless
lines go in: each row still to do is found where it was, unless it has become out of date, and each
row that is done stays voiced.
-/

namespace Stagecraft

variable {module : String} {ids : List String} {lines more : List String} {index top : Nat}
  {extent other : Extent} {fixes : SpeechFixes} {buffer : Buffer} {row : FixRow}
  {rows : List FixRow}

def openingsAgree (first second : SpeechFixes) : Prop :=
  ∀ a ∈ first.opening, ∀ b ∈ second.opening, a.character = b.character

/-- The line speaks for the character of an opening. -/
def Opens (rows : List FixRow) (line : String) : Prop :=
  ∃ row ∈ rows, ∃ opening ∈ row.fixes.opening, speaksFor opening.character line

/-- Lines in which the openings of the rows do not get into each other's way. -/
structure Tuned (rows : List FixRow) (top : Nat) (lines : List String) : Prop where
  alone : ∀ line ∈ lines, Opens rows line →
    lineDelta .square line = 0 ∧ opensSteps line = false ∧ cuesOn line = false
  apart : ∀ line ∈ lines, opensRecord line → opensSteps line = false
  agree : ∀ row ∈ rows, ∀ second ∈ rows, ∀ extent other : Extent, extent.Stands lines row.id →
    other.Stands lines second.id → extent.opening = other.opening →
      openingsAgree row.fixes second.fixes
  below : ∀ row ∈ rows, ∀ extent : Extent, extent.Stands lines row.id → top ≤ extent.first

/-- The extent is that of a row, even if the id has moved too far away to be found. -/
structure Holds (rows : List FixRow) (top : Nat) (lines : List String) (row : FixRow)
    (extent : Extent) : Prop where
  frames : extent.Frames lines
  opens : (lines[extent.first]?).any opensRecord
  only : ∀ other : Extent, other.Stands lines row.id → other = extent
  agree : ∀ second ∈ rows, ∀ other : Extent, other.Stands lines second.id →
    extent.opening = other.opening → openingsAgree row.fixes second.fixes
  below : top ≤ extent.first

theorem Tuned.holds (tuned : Tuned rows top lines) (member : row ∈ rows)
    (stands : extent.Stands lines row.id) : Holds rows top lines row extent where
  frames := stands.toFrames
  opens := by
    obtain ⟨line, -, opens, -⟩ := stands.named
    exact opens.2.1
  only := fun _ again => again.unique stands
  agree := fun second there other found => tuned.agree row member second there extent other
    stands found
  below := tuned.below row member extent stands

section Put

variable (inside : index ≤ lines.length)
  (harmless : ∀ line ∈ more, Harmless module (rows.map (·.id)) line)

include inside harmless

theorem stands_of_put (member : row ∈ rows) (stands : other.Stands (putLines index more lines)
    row.id) : ∃ extent : Extent, other = extent.push index more.length ∧
      extent.Stands lines row.id :=
  Extent.stands_of_putLines inside
    (fun line there => (harmless line there).unnamed _ (List.mem_map_of_mem member))
    (fun line there => (harmless line there).closed)
    (.inr fun line there => (harmless line there).toQuiet) stands

theorem Tuned.put (tuned : Tuned rows top lines) :
    Tuned rows top (putLines index more lines) where
  alone := by
    intro line member opens
    rcases mem_putLines.mp member with new | old
    · exact ⟨(harmless line new).square, (harmless line new).plain, (harmless line new).cues⟩
    · exact tuned.alone line old opens
  apart := by
    intro line member opens
    rcases mem_putLines.mp member with new | old
    · exact (harmless line new).plain
    · exact tuned.apart line old opens
  agree := by
    intro row member second there extent other first found same
    obtain ⟨extent', rfl, first'⟩ := stands_of_put inside harmless member first
    obtain ⟨other', rfl, found'⟩ := stands_of_put inside harmless there found
    exact tuned.agree row member second there extent' other' first' found' (pushDown_inj.mp same)
  below := by
    intro row member extent stands
    obtain ⟨extent', rfl, stands'⟩ := stands_of_put inside harmless member stands
    exact Nat.le_trans (tuned.below row member extent' stands') le_pushDown

theorem Holds.put (holds : Holds rows top lines row extent) (member : row ∈ rows)
    (behind : extent.last < index) : Holds rows top (putLines index more lines) row extent := by
  have still : extent.push index more.length = extent :=
    holds.frames.push_of_lt behind
  have quiet : ∀ line ∈ more, Quiet line := fun line there => (harmless line there).toQuiet
  have order := holds.frames.closes.1
  refine ⟨?_, ?_, ?_, ?_, holds.below⟩
  · rw [← still]
    exact holds.frames.putLines_outside inside (.inr ⟨behind, quiet⟩)
  · have above : pushDown index more.length extent.first = extent.first :=
      pushDown_of_lt (by omega)
    rw [← above, getElem?_putLines_old inside]
    exact holds.opens
  · intro other stands
    obtain ⟨old, rfl, stands'⟩ := stands_of_put inside harmless member stands
    rw [holds.only old stands', still]
  · intro second there other stands same
    obtain ⟨old, rfl, stands'⟩ := stands_of_put inside harmless there stands
    rw [← still] at same
    exact holds.agree second there old stands' (pushDown_inj.mp same)

end Put

/-- A line that closes an array below its opening changes the depth. -/
theorem lineDelta_ne_zero_of_closesAt {start found : Nat} {line : String}
    (ends : ClosesAt .square lines start found) (later : start < found)
    (present : lines[found]? = some line) : lineDelta .square line ≠ 0 := by
  obtain ⟨-, short, zero, open'⟩ := ends
  have before := open' found later (Nat.le_refl _)
  have next : lines.take (found + 1) = lines.take found ++ [line] := by
    rw [List.take_add_one, present]
    rfl
  rw [depthAt_eq_sub (by omega), next, totalDelta_append] at zero
  rw [depthAt_eq_sub (Nat.le_of_lt later)] at before
  simp only [totalDelta] at zero
  omega

/-- Dialogue does not go in front of a line that speaks for an opening. -/
theorem not_opens_of_insertion {point : Nat} {line : String} (tuned : Tuned rows top lines)
    (frames : extent.Frames lines) (present : lines[point]? = some line)
    (place : point = extent.closing ∨ (lines[point]?).any cuesOn) : ¬ Opens rows line := by
  intro opens
  obtain ⟨level, plain, quiet⟩ := tuned.alone line (List.mem_of_getElem? present) opens
  rcases place with rfl | cue
  · rcases Nat.lt_or_eq_of_le frames.opening_le with later | same
    · exact lineDelta_ne_zero_of_closesAt frames.ends later present level
    · have steps := frames.steps.2.1
      rw [same, present, Option.any_some, plain] at steps
      cases steps
  · rw [present, Option.any_some, quiet] at cue
    cases cue

/-- What is left of it for a row while its own lines go in. -/
structure Grips (rows : List FixRow) (lines : List String) (row : FixRow) (extent : Extent) :
    Prop where
  order : extent.first ≤ extent.opening
  ends : ClosesAt .square lines extent.opening extent.closing
  inside : extent.closing ≤ extent.last
  only : ∀ other : Extent, other.Stands lines row.id → other = extent
  agree : ∀ second ∈ rows, ∀ other : Extent, other.Stands lines second.id →
    extent.opening = other.opening → openingsAgree row.fixes second.fixes

theorem Holds.grips (holds : Holds rows top lines row extent) : Grips rows lines row extent where
  order := holds.frames.first_le
  ends := holds.frames.ends
  inside := holds.frames.inside
  only := holds.only
  agree := holds.agree

theorem Grips.put (grips : Grips rows lines row extent) (inside : index ≤ lines.length)
    (harmless : ∀ line ∈ more, Harmless module (rows.map (·.id)) line) (member : row ∈ rows) :
    Grips rows (putLines index more lines) row (extent.push index more.length) where
  order := pushDown_le_iff.mpr grips.order
  ends := (closesAt_putLines inside
    (.inr fun line there => (harmless line there).square)).mpr ⟨_, rfl, grips.ends⟩
  inside := pushDown_le_iff.mpr grips.inside
  only := by
    intro other stands
    obtain ⟨old, rfl, stands'⟩ := stands_of_put inside harmless member stands
    rw [grips.only old stands']
  agree := by
    intro second there other stands same
    obtain ⟨old, rfl, stands'⟩ := stands_of_put inside harmless there stands
    exact grips.agree second there old stands' (pushDown_inj.mp same)

/-- The two spans are those of the extent. -/
structure Extent.Marks (extent : Extent) (record steps : Span) : Prop where
  first : record.start = extent.first
  last : record.stop = extent.last + 1
  opening : steps.start = extent.opening
  closing : steps.stop = extent.closing + 1

theorem Extent.marks_of_locate {location : Location} {steps : Span} {id : String}
    (located : locate buffer id = .ok (some location)) (stepped : location.steps = some steps) :
    ∃ extent : Extent, extent.Stands buffer.lines id ∧ extent.Marks location.record steps := by
  obtain ⟨extent, stands, record, rfl⟩ := Extent.stands_of_locate located stepped
  refine ⟨extent, stands, ?_, ?_, rfl, rfl⟩
  · rw [record]
    rfl
  · rw [record]
    rfl

/-- A row that is located is one of the rows, and its spans are those of its record. -/
theorem marks_of_located {pair : Location × FixRow}
    (member : pair ∈ bottomUp (locateRows buffer rows).1) :
    pair.2 ∈ rows ∧ pair.1.record.revision ≤ buffer.revision ∧
      ∃ (extent : Extent) (steps : Span), extent.Stands buffer.lines pair.2.id ∧
        pair.1.steps = some steps ∧ extent.Marks pair.1.record steps := by
  obtain ⟨known, located, stepped⟩ := mem_locateRows.mp (mem_bottomUp.mp member)
  obtain ⟨steps, stepped⟩ := Option.isSome_iff_exists.mp stepped
  obtain ⟨_, _, record, _⟩ := Extent.stands_of_locate located stepped
  obtain ⟨extent, stands, marks⟩ := Extent.marks_of_locate located stepped
  refine ⟨known, ?_, extent, steps, stands, stepped, marks⟩
  rw [record]
  exact Nat.le_refl _

theorem Extent.Marks.afterInsert {record steps : Span} {count revision : Nat}
    (marks : extent.Marks record steps) : (extent.push index count).Marks
      (record.afterInsert index count revision) (steps.afterInsert index count revision) := by
  obtain ⟨first, last, opening, closing⟩ := marks
  constructor
  · simp only [Span.afterInsert, first, Extent.push, pushDown]
  · simp only [Span.afterInsert, last, Extent.push, pushDown, Nat.lt_succ_iff]
    split <;> omega
  · simp only [Span.afterInsert, opening, Extent.push, pushDown]
  · simp only [Span.afterInsert, closing, Extent.push, pushDown, Nat.lt_succ_iff]
    split <;> omega

/-- A row still to do: as long as its span is good, the span is where the record is. -/
def Pending (rows : List FixRow) (top : Nat) (buffer : Buffer) (pair : Location × FixRow) : Prop :=
  pair.1.record.revision ≤ buffer.revision ∧ (buffer.isValid pair.1.record = true →
    ∃ (extent : Extent) (steps : Span), pair.1.steps = some steps ∧
      extent.Marks pair.1.record steps ∧ Holds rows top buffer.lines pair.2 extent)

theorem Buffer.isValid_insertLines {span : Span} (known : span.revision ≤ buffer.revision) :
    (buffer.insertLines index more).isValid span = true ↔
      buffer.isValid span = true ∧ span.stop ≤ index := by
  simp only [Buffer.isValid, Buffer.insertLines, List.drop_append_of_le_length known,
    List.all_append, List.all_cons, List.all_nil, Bool.and_true, Bool.and_eq_true,
    decide_eq_true_eq]

theorem Pending.put {pair : Location × FixRow} (pending : Pending rows top buffer pair)
    (member : pair.2 ∈ rows) (inside : index ≤ buffer.lines.length)
    (harmless : ∀ line ∈ more, Harmless module (rows.map (·.id)) line) :
    Pending rows top (buffer.insertLines index more) pair := by
  obtain ⟨known, holds⟩ := pending
  refine ⟨by simp only [Buffer.revision_insertLines]; omega, ?_⟩
  intro valid
  obtain ⟨valid, behind⟩ := (Buffer.isValid_insertLines known).mp valid
  obtain ⟨extent, steps, stepped, marks, held⟩ := holds valid
  rw [marks.last] at behind
  exact ⟨extent, steps, stepped, marks, held.put inside harmless member behind⟩

/-- How far a run has come: the rows that are done are voiced, the others can be found, and
the lines above all records are as they were. -/
structure Underway (module : String) (rows : List FixRow) (head : List String)
    (done : FixRow → Prop) (todo : List (Location × FixRow)) (buffer : Buffer) : Prop where
  tuned : Tuned rows head.length buffer.lines
  todo : ∀ pair ∈ todo, pair.2 ∈ rows ∧ Pending rows head.length buffer pair
  voiced : ∀ row ∈ rows, done row → Voiced buffer row
  above : buffer.lines.take head.length = head
  rest : ∀ line ∈ buffer.lines.drop head.length,
    startsImport line = false ∧ namesModule module line = false

variable {head : List String} {done : FixRow → Prop} {todo : List (Location × FixRow)}

section Top

variable (below : head.length ≤ index) (above : lines.take head.length = head)

include below above

/-- Lines that go in further down leave those at the top. -/
theorem take_putLines_top (inside : index ≤ lines.length) :
    (putLines index more lines).take head.length = head := by
  have short : head.length ≤ (lines.take index).length := by
    rw [List.length_take_of_le inside]
    exact below
  rw [putLines, List.append_assoc, List.take_append_of_le_length short, List.take_take,
    Nat.min_eq_left below, above]

theorem mem_drop_putLines {line : String}
    (member : line ∈ (putLines index more lines).drop head.length) :
    line ∈ more ∨ line ∈ lines.drop head.length := by
  have whole := List.take_append_drop head.length lines
  rw [above] at whole
  rw [← whole, putLines_append_right below, List.drop_left] at member
  exact mem_putLines.mp member

end Top

theorem Underway.put (underway : Underway module rows head done todo buffer)
    (inside : index ≤ buffer.lines.length) (below : head.length ≤ index)
    (harmless : ∀ line ∈ more, Harmless module (rows.map (·.id)) line)
    (elsewhere : ∀ row ∈ rows, done row → ∀ extent : Extent, extent.Stands buffer.lines row.id →
      ∀ opening ∈ row.fixes.opening, ∀ line,
        EntranceAt buffer.lines extent.opening extent.closing line → index ≠ line + 1) :
    Underway module rows head done todo (buffer.insertLines index more) where
  tuned := underway.tuned.put inside harmless
  todo := by
    intro pair member
    obtain ⟨known, pending⟩ := underway.todo pair member
    exact ⟨known, pending.put known inside harmless⟩
  voiced := by
    intro row member finished
    have before := voiced_iff.mp (underway.voiced row member finished)
    refine voiced_iff.mpr fun other stands => ?_
    obtain ⟨old, rfl, stands'⟩ := stands_of_put inside harmless member stands
    exact (before old stands').putLines inside
      (.inr fun line there => ⟨(harmless line there).square, (harmless line there).enters⟩)
      (elsewhere row member finished old stands')
  above := take_putLines_top below underway.above inside
  rest := by
    intro line member
    rcases mem_drop_putLines below underway.above member with new | old
    · exact ⟨(harmless line new).starts, (harmless line new).foreign⟩
    · exact underway.rest line old

theorem EntranceAt.unique {opening closing first second : Nat}
    (one : EntranceAt lines opening closing first) (two : EntranceAt lines opening closing second) :
    first = second := by
  obtain ⟨level, enters, before⟩ := one
  obtain ⟨level', enters', before'⟩ := two
  rcases Nat.lt_trichotomy first second with less | same | more
  · exact absurd enters (before' first level less)
  · exact same
  · exact absurd enters' (before second level' more)

/-- The lines of a record, by their places. -/
theorem Extent.Marks.any_spanLines {record steps : Span} (marks : extent.Marks record steps)
    (test : String → Bool) : (buffer.spanLines record).any test ↔
      ∃ place, extent.first ≤ place ∧ place ≤ extent.last ∧
        (buffer.lines[place]?).any test := by
  rw [Buffer.spanLines, marks.first, marks.last]
  exact any_slice

/-- Where dialogue goes in at a record is below the opening line of the record. -/
theorem Holds.first_lt_of_insertion {point : Nat} (holds : Holds rows top lines row extent)
    (tuned : Tuned rows top lines) (inside : point < lines.length)
    (place : point = extent.closing ∨ LevelAt lines extent.opening extent.closing point) :
    extent.first < point ∧ point ≤ extent.last := by
  have order := holds.frames.first_le
  have order' := holds.frames.opening_le
  have inner := holds.frames.inside
  rcases place with rfl | ⟨low, high, -⟩
  · refine ⟨Nat.lt_of_le_of_ne (by omega) fun both => ?_, inner⟩
    -- the line would open the record and its steps at once
    have opening : extent.opening = extent.closing := by omega
    have present := List.getElem?_eq_getElem inside
    have record := holds.opens
    have steps := holds.frames.steps.2.1
    rw [both, present, Option.any_some] at record
    rw [opening, present, Option.any_some] at steps
    rw [tuned.apart _ (List.getElem_mem inside) record] at steps
    cases steps
  · omega

theorem speaks_dialogueBlock {missing : List Speech} {speech : Speech} {indent : String}
    (member : speech ∈ missing) (plain : ∀ c ∈ speech.character.toList, c ≠ '\'' ∧ c ≠ '\\') :
    ∃ offset < (dialogueBlock missing indent).length,
      ((dialogueBlock missing indent)[offset]?).any (speaksFor speech.character) := by
  obtain ⟨place, low, found⟩ := List.mem_iff_getElem.mp member
  have line : (dialogueBlock missing indent)[place + 1]? = some (speakLine speech indent) := by
    simp [dialogueBlock, List.getElem?_eq_getElem low, found]
  refine ⟨place + 1, by simpa [dialogueBlock] using low, ?_⟩
  rw [line, Option.any_some]
  exact speaksFor_speakLine plain

/-- Dialogue goes in, and then the record speaks for every character of it. -/
theorem Underway.insertDialogue {site after : Site} {count : Nat}
    (underway : Underway module rows head done todo site.buffer) (member : row ∈ rows)
    (plain : ∀ speech ∈ row.fixes.dialogue ++ row.fixes.closing.toList,
      speech.Plain module (rows.map (·.id)))
    (marks : extent.Marks site.record site.steps)
    (holds : Holds rows head.length site.buffer.lines row extent)
    (ran : insertDialogue row.fixes site = .ok count after) :
    ∃ extent : Extent, Underway module rows head done todo after.buffer ∧
      extent.Marks after.record after.steps ∧ Grips rows after.buffer.lines row extent ∧
      head.length ≤ extent.first ∧
      ∀ speech ∈ row.fixes.dialogue ++ row.fixes.closing.toList, ∃ place, extent.first ≤ place ∧
        place ≤ extent.last ∧ (after.buffer.lines[place]?).any (speaksFor speech.character) := by
  obtain ⟨point, indent, missing, pointed, blank, sought, -, same⟩ := insertDialogue_ran ran
  obtain ⟨old, -, all⟩ := missingSpeeches_ok sought
  by_cases empty : missing = []
  · rw [if_pos empty] at same
    subst same
    refine ⟨extent, underway, marks, holds.grips, holds.below, ?_⟩
    intro speech there
    exact (marks.any_spanLines _).mp ((missingSpeeches_eq_nil_iff sought).mp empty speech there)
  rw [if_neg empty] at same
  subst same
  have harmless : ∀ line ∈ dialogueBlock missing indent,
      Harmless module (rows.map (·.id)) line :=
    harmless_dialogueBlock blank fun speech there => plain speech (old speech there)
  have frames := holds.frames
  have place : point = extent.closing ∨ LevelAt site.buffer.lines extent.opening extent.closing
      point ∧ (site.buffer.lines[point]?).any cuesOn := by
    have found := insertionPoint_ok pointed
    rwa [marks.opening, marks.closing, Nat.add_sub_cancel] at found
  have inside : point < site.buffer.lines.length := by
    have short := frames.ends.2.1
    rcases place with rfl | ⟨⟨-, high, -⟩, -⟩ <;> omega
  have present := List.getElem?_eq_getElem inside
  have silent : ¬ Opens rows site.buffer.lines[point] :=
    not_opens_of_insertion underway.tuned frames present (place.imp_right And.right)
  have within := holds.first_lt_of_insertion underway.tuned inside (place.imp_right And.left)
  refine ⟨extent.push point (dialogueBlock missing indent).length, ?_, marks.afterInsert,
    holds.grips.put (Nat.le_of_lt inside) harmless member, ?_, ?_⟩
  · refine underway.put (Nat.le_of_lt inside) (Nat.le_trans holds.below (Nat.le_of_lt within.1))
      harmless ?_
    intro other there finished other' stands opening some' line entrance same
    have heard := (voiced_iff.mp (underway.voiced other there finished) other' stands).2
      opening some' line entrance
    rw [← same, present, Option.any_some] at heard
    exact silent ⟨other, there, opening, some', heard⟩
  · exact Nat.le_trans holds.below le_pushDown
  · intro speech there
    rcases all speech there with known | spoken | ⟨other, gone, same⟩
    · cases known
    · obtain ⟨line, low, high, heard⟩ := (marks.any_spanLines _).mp spoken
      refine ⟨pushDown point (dialogueBlock missing indent).length line,
        pushDown_le_iff.mpr low, pushDown_le_iff.mpr high, ?_⟩
      change ((putLines point (dialogueBlock missing indent) site.buffer.lines)[_]?).any _
      rwa [getElem?_putLines_old (Nat.le_of_lt inside)]
    · -- the line of the speech is one of the block
      obtain ⟨offset, low, heard⟩ :=
        @speaks_dialogueBlock _ _ indent gone (plain other (old other gone)).name
      refine ⟨point + offset, ?_, ?_, ?_⟩
      · simp only [Extent.push, pushDown]
        split <;> omega
      · simp only [Extent.push, pushDown]
        split <;> omega
      · change ((putLines point (dialogueBlock missing indent) site.buffer.lines)[_]?).any _
        rw [getElem?_putLines_new (Nat.le_of_lt inside) low, ← same]
        exact heard

/-- An opening goes in, and then the line below the entrance speaks for its character. -/
theorem Underway.insertOpening {site after : Site} {count : Nat} {opening : Speech}
    (underway : Underway module rows head done todo site.buffer) (member : row ∈ rows)
    (opens : row.fixes.opening = some opening) (plain : opening.Plain module (rows.map (·.id)))
    (marks : extent.Marks site.record site.steps)
    (grips : Grips rows site.buffer.lines row extent) (below : head.length ≤ extent.first)
    (spoken : ∀ speech ∈ row.fixes.dialogue ++ row.fixes.closing.toList, ∃ place,
      extent.first ≤ place ∧ place ≤ extent.last ∧
        (site.buffer.lines[place]?).any (speaksFor speech.character))
    (ran : insertOpening opening site = .ok count after) :
    Underway module rows head done todo after.buffer ∧ Voiced after.buffer row := by
  obtain ⟨answer, entered, choice⟩ := insertOpening_ran ran
  have entrance (below : Nat) : answer = some below ↔ ∃ line, below = line + 1 ∧
      EntranceAt site.buffer.lines extent.opening extent.closing line := by
    rw [entranceLine_ok entered, marks.opening, marks.closing, Nat.add_sub_cancel]
  rcases choice with ⟨-, same, heard⟩ | ⟨-, under, indent, found, blank, silent, same⟩
  · subst same
    refine ⟨underway, voiced_iff.mpr fun other stands => ?_⟩
    rw [grips.only other stands]
    refine ⟨spoken, ?_⟩
    intro other some' line first
    obtain rfl := Option.some.inj (opens.symm.trans some')
    exact heard (line + 1) ((entrance _).mpr ⟨line, rfl, first⟩)
  subst same
  obtain ⟨line, under', first⟩ := (entrance under).mp found
  subst under'
  have harmless : ∀ other ∈ [speakLine opening indent],
      Harmless module (rows.map (·.id)) other := by
    intro other there
    rw [List.mem_singleton.mp there]
    exact harmless_speakLine blank plain
  obtain ⟨low, high, -⟩ := first.1
  have order := grips.order
  have inside : line + 1 ≤ site.buffer.lines.length := by
    have short := grips.ends.2.1
    omega
  have fresh := grips.put inside harmless member
  refine ⟨underway.put inside (by omega) harmless ?_, voiced_iff.mpr fun other stands => ?_⟩
  · intro second there finished other stands opening' some' line' first' next
    obtain rfl := Nat.succ.inj next
    have shared := first.1.opening_unique first'.1 grips.ends stands.ends
    have agreed := grips.agree second there other stands shared opening opens opening' some'
    have heard := (voiced_iff.mp (underway.voiced second there finished) other stands).2
      opening' some' line first'
    rw [← agreed] at heard
    exact silent heard
  · rw [fresh.only other stands]
    constructor
    · intro speech there
      obtain ⟨place, first, last, heard⟩ := spoken speech there
      refine ⟨_, pushDown_le_iff.mpr first, pushDown_le_iff.mpr last, ?_⟩
      change ((putLines (line + 1) [speakLine opening indent] site.buffer.lines)[_]?).any _
      rwa [getElem?_putLines_old inside]
    · intro other some' place first'
      obtain rfl := Option.some.inj (opens.symm.trans some')
      obtain ⟨old, moved, first''⟩ := (entranceAt_putLines inside
        (.inr fun line there => ⟨(harmless line there).square, (harmless line there).enters⟩)).mp
          first'
      obtain rfl := first.unique first''
      rw [pushDown_of_lt (Nat.lt_succ_self _)] at moved
      subst moved
      change ((putLines (place + 1) [speakLine opening indent] site.buffer.lines)[_]?).any _
      have size : 0 < [speakLine opening indent].length := Nat.succ_pos 0
      have line := getElem?_putLines_new inside size
      rw [Nat.add_zero] at line
      rw [line]
      exact speaksFor_speakLine plain.name

def SpeechFixes.speeches (fixes : SpeechFixes) : List Speech :=
  fixes.dialogue ++ fixes.closing.toList ++ fixes.opening.toList

theorem Underway.applyRow {site after : Site} {count : Nat}
    (underway : Underway module rows head done todo site.buffer) (member : row ∈ rows)
    (plain : ∀ speech ∈ row.fixes.speeches, speech.Plain module (rows.map (·.id)))
    (marks : extent.Marks site.record site.steps)
    (holds : Holds rows head.length site.buffer.lines row extent)
    (ran : applyRow row.fixes site = .ok count after) :
    Underway module rows head (fun other => done other ∨ other = row) todo after.buffer := by
  obtain ⟨dialogue, middle, first, rest⟩ := applyRow_ran ran
  obtain ⟨extent', underway', marks', grips, below, spoken⟩ := underway.insertDialogue member
    (fun speech there => plain speech (List.mem_append_left _ there)) marks holds first
  have both : Underway module rows head done todo after.buffer ∧ Voiced after.buffer row := by
    rcases rest with ⟨none, -, rfl⟩ | ⟨opening, more, opens, second, -⟩
    · refine ⟨underway', voiced_iff.mpr fun other stands => ?_⟩
      rw [grips.only other stands]
      exact ⟨spoken, by simp [none]⟩
    · have known : opening ∈ row.fixes.speeches :=
        List.mem_append_right _ (by simp [opens])
      exact underway'.insertOpening member opens (plain opening known) marks' grips below spoken
        second
  obtain ⟨onward, voiced⟩ := both
  exact { onward with
    voiced := by
      intro other there finished
      rcases finished with before | rfl
      · exact onward.voiced other there before
      · exact voiced }

/-- A run over all rows voices each of them. -/
theorem Underway.applyRows {bench last : Bench} {counts : List (String × Nat)}
    (plain : ∀ row ∈ rows, ∀ speech ∈ row.fixes.speeches, speech.Plain module (rows.map (·.id)))
    (underway : Underway module rows head done todo bench.buffer)
    (ran : applyRows todo bench = .ok counts last) :
    Underway module rows head (fun row => done row ∨ ∃ pair ∈ todo, pair.2 = row) []
      last.buffer := by
  induction todo generalizing bench counts done with
  | nil =>
    obtain ⟨-, rfl⟩ := pure_ran.mp ran
    exact { underway with
      voiced := by
        intro row member finished
        rcases finished with before | ⟨pair, there, -⟩
        · exact underway.voiced row member before
        · cases there }
  | cons first rest ih =>
    obtain ⟨location, row⟩ := first
    obtain ⟨current, steps, count, place, others, found, stepped, worked, ⟨log, later⟩, -⟩ :=
      applyRows_cons_ran ran
    obtain ⟨member, pending⟩ := underway.todo _ (List.mem_cons_self ..)
    have located : ∃ extent : Extent, extent.Marks current.record steps ∧
        Holds rows head.length bench.buffer.lines row extent := by
      by_cases valid : bench.buffer.isValid location.record = true
      · rw [refreshed_of_valid valid] at found
        obtain rfl := Except.ok.inj found
        obtain ⟨extent, steps', stepped', marks, holds⟩ := pending.2 valid
        rw [stepped] at stepped'
        obtain rfl := Option.some.inj stepped'
        exact ⟨extent, marks, holds⟩
      · obtain ⟨extent, stands, marks⟩ :=
          Extent.marks_of_locate (locate_of_refreshed valid found) stepped
        exact ⟨extent, marks, underway.tuned.holds member stands⟩
    obtain ⟨extent, marks, holds⟩ := located
    have next : Underway module rows head done rest bench.buffer := { underway with
      todo := fun pair there => underway.todo pair (List.mem_cons_of_mem _ there) }
    have step := next.applyRow member (plain row member) marks holds worked
    have whole := ih step later
    exact { whole with
      voiced := by
        intro other there finished
        apply whole.voiced other there
        rcases finished with before | ⟨pair, present, same⟩
        · exact .inl (.inl before)
        · rcases List.mem_cons.mp present with rfl | present
          · exact .inl (.inr same.symm)
          · exact .inr ⟨pair, present, same⟩ }

end Stagecraft
