import Stagecraft.Proofs.Edit.Staging

/-!
A record when the entrances of its file have been merged. It stands between what became of the lines
above and below it, and is read as the same vignette but for the steps of its runs, which are
regrouped. The lines of an entrance are told by their text alone: where they are no elements, as in
a comment, a group is reported but no step goes.
-/

namespace Stagecraft

variable {module id : String} {first : Buffer} {bench last : Bench} {survey : Survey}
  {location : Location} {locations upper lower : List Location} {groups : List MergedGroup}
  {report : MergeReport} {vignette : Vignette} {top : Nat} {back : List String}
  {runs : List (List Entrance)} {steps : Span} {u : Unit}

/-- The runs in the steps of a record. -/
def runsAt (buffer : Buffer) (location : Location) : List (List Entrance) :=
  match location.steps with
  | none => []
  | some steps =>
    match entranceRuns buffer steps with
    | .ok runs => runs
    | .error _ => []

theorem runsAt_eq (stepped : location.steps = some steps)
    (found : entranceRuns first steps = .ok runs) : runsAt first location = runs := by
  rw [runsAt, stepped]
  simp only [found]

/-- The steps of the other records lie above the record or below it. -/
def StandsAlone (survey : Survey) (location : Location) : Prop :=
  ∀ other ∈ survey.found, other ≠ location → ∀ steps, other.steps = some steps →
    steps.stop ≤ location.record.start ∨ location.record.stop ≤ steps.start

/-- No group call names the module as a source. -/
def CallsUnnamed (module : String) (buffer : Buffer) (survey : Survey) : Prop :=
  ∀ location ∈ survey.found, ∀ run ∈ runsAt buffer location,
    namesModule module (callOf buffer.lines run) = false

/-- What merging made of the lines from one on: none of them was altered. -/
def MergedFrom (first : Buffer) (locations : List Location) (start : Nat) (lines : List String) :
    Prop :=
  ∃ patch : Patch, patch.before = List.range' start (first.lines.length - start) ∧
    patch.after first.lines = lines ∧ patch.redos = 0 ∧
      ∀ change ∈ patch, MergeChange first locations change

/-- A span of lines between what merging made of those above and of those below. -/
structure Regathered (module : String) (first : Buffer) (span : Span) (buffer : Buffer)
    (left : Span) : Prop where
  current : left.revision = buffer.revision
  above : Patched (WithImports groupSymbols module first.lines
    (MergeChange first (foundIn first))) first.lines span.start 2 (buffer.lines.take left.start)
  below : MergedFrom first (foundIn first) span.stop (buffer.lines.drop left.stop)

section Order

/-- The records above one end before its last line, and those below have their ids behind it. -/
theorem found_around (surveyed : findAll first = .ok survey)
    (split : survey.found = upper ++ location :: lower) :
    (∀ other ∈ upper, other.record.stop ≤ location.idLine ∧ other ≠ location) ∧
      ∀ other ∈ lower, location.record.stop ≤ other.idLine ∧ other ≠ location := by
  obtain ⟨found, order⟩ := surveyFrom_found surveyed
  have holds {other : Location} (member : other ∈ survey.found) :
      other.idLine < other.record.stop := (found other member).1.2
  rw [split] at holds order
  obtain ⟨-, inner, across⟩ := List.pairwise_append.mp order
  have below := (List.pairwise_cons.mp inner).1
  constructor
  · intro other member
    have ends := across other member location (List.mem_cons_self ..)
    refine ⟨ends, ?_⟩
    rintro rfl
    exact absurd (holds (List.mem_append_left _ member)) (by omega)
  · intro other member
    have ends := below other member
    refine ⟨ends, ?_⟩
    rintro rfl
    have own : other ∈ upper ++ other :: lower := by simp
    exact absurd (holds own) (by omega)

/-- Lines that hold no import above the records are above all of them. -/
theorem length_le_start (surveyed : findAll first = .ok survey) (member : location ∈ survey.found)
    {head : List String} (clear : ∀ line ∈ head, Clear line)
    (above : first.lines.take head.length = head) : head.length ≤ location.record.start := by
  obtain ⟨start, stop, ends, opening, -, -, same⟩ :=
    locateAt_ok (found_of_findAll surveyed member).1
  have begins : location.record.start = start := by rw [same]; rfl
  obtain ⟨-, -, opens, -⟩ := openingAbove_eq_some_iff.mp opening
  obtain ⟨line, present, opens⟩ := (Option.any_eq_true _ _).mp opens
  by_contra low
  rw [Nat.not_le, begins] at low
  have inside : line ∈ head := by
    rw [← above]
    exact List.mem_of_getElem? (by rwa [List.getElem?_take_of_lt low])
  rw [(clear line inside).2] at opens
  cases opens

end Order

section Groups

/-- The groups that are reported are those of the records. -/
theorem mergeRecords_groups (ran : mergeRecords locations bench = .ok groups last) :
    ∀ group ∈ groups, ∃ location ∈ locations, group.id = location.id := by
  induction locations generalizing bench groups with
  | nil =>
    obtain ⟨rfl, -⟩ := pure_ran.mp ran
    exact fun group absent => absurd absent List.not_mem_nil
  | cons location locations ih =>
    obtain ⟨steps, site, here, middle, above, -, worked, -, ran', rfl⟩ := mergeRecords_cons_ran ran
    obtain ⟨runs, -, rfl, -⟩ := mergeRecord_ran worked
    intro group member
    rcases List.mem_append.mp member with up | own
    · obtain ⟨other, listed, same⟩ := ih ran' group up
      exact ⟨other, List.mem_cons_of_mem _ listed, same⟩
    · obtain ⟨run, -, made⟩ := List.mem_filterMap.mp own
      obtain ⟨entrance, -, rfl⟩ := Option.map_eq_some_iff.mp made
      exact ⟨location, List.mem_cons_self .., rfl⟩

end Groups

section Lines

variable {head old : List String} {patch : Patch} {line : String}

theorem startsImport_callOf (lines : List String) (run : List Entrance) :
    startsImport (callOf lines run) = false := by
  rw [← Bool.not_eq_true]
  intro begun
  obtain ⟨rest, split, -⟩ := startsImport_iff.mp begun
  cases run with
  | nil => cases split
  | cons entrance run =>
    have blank := isIndent_indentOf (lines[entrance.line]?.getD "")
    rw [callOf, groupCall] at split
    generalize indentOf (lines[entrance.line]?.getD "") = indent at blank split
    cases blanks : indent.toList with
    | nil =>
      obtain rfl : indent = "" := String.toList_injective blanks
      simp at split
    | cons c more =>
      have white := blank c (by simp [blanks])
      simp [blanks] at split
      rw [split.1] at white
      exact absurd white (by decide)

/-- The line is no part of an import of the module. -/
def NoImport (module line : String) : Prop :=
  startsImport line = false ∧ namesModule module line = false

theorem noImport_of_mem (below : ∀ line ∈ first.lines.drop head.length, NoImport module line)
    (unnamed : CallsUnnamed module first survey)
    (low : ∀ number ∈ patch.before, head.length ≤ number)
    (sound : ∀ change ∈ patch, MergeChange first survey.found change)
    (member : line ∈ patch.after first.lines) : NoImport module line := by
  obtain ⟨change, present, stands⟩ := List.mem_filterMap.mp member
  cases sound change present with
  | keep number =>
    have inside : head.length ≤ number :=
      low number (List.mem_filterMap.mpr ⟨_, present, rfl⟩)
    apply below
    apply List.mem_of_getElem? (i := number - head.length)
    rw [List.getElem?_drop, Nat.add_sub_cancel' inside]
    exact stands
  | drop listed inside known idle => cases stands
  | call listed stepped found known =>
    cases stands
    refine ⟨startsImport_callOf _ _, unnamed _ listed _ ?_⟩
    rwa [runsAt_eq stepped found]

theorem noImport_of_merged (below : ∀ line ∈ first.lines.drop head.length, NoImport module line)
    (unnamed : ∀ run ∈ runs, namesModule module (callOf first.lines run) = false)
    {record : Span} (low : head.length ≤ record.start) (descend : Descend top runs)
    (start : record.start ≤ top) (stop : lineBehind top runs ≤ record.stop)
    (member : line ∈ mergedRecord first.lines record top runs) : NoImport module line := by
  rcases mem_mergedRecord descend start stop member with held | ⟨run, known, rfl⟩
  · apply below
    have deeper : first.lines.drop record.start =
        (first.lines.drop head.length).drop (record.start - head.length) := by
      rw [List.drop_drop, Nat.add_sub_cancel' low]
    rw [linesFrom, List.drop_take, deeper] at held
    exact List.mem_of_mem_drop (List.mem_of_mem_take held)
  · exact ⟨startsImport_callOf _ _, unnamed run known⟩

end Lines

section Stages

/-- Merging other records first leaves the lines down to the end of a record that stands alone. -/
theorem mergeRecords_below (surveyed : findAll bench.buffer = .ok survey)
    (member : location ∈ survey.found) (alone : StandsAlone survey location)
    (others : ∀ other ∈ locations, other ∈ survey.found ∧ other ≠ location)
    (stepped : location.steps = some steps)
    (ran : mergeRecords locations bench = .ok groups last)
    (valid : last.buffer.isValid steps = true) :
    ∃ below, MergedFrom bench.buffer survey.found location.record.stop below ∧
      last.buffer.lines = bench.buffer.lines.take location.record.stop ++ below ∧
      bench.buffer.revision ≤ last.buffer.revision := by
  have spans := spans_of_findAll surveyed
  obtain ⟨current, order, inner, inside⟩ := spans location member steps stepped
  have begin : Merging (MergeChange bench.buffer survey.found) bench.buffer
      bench.buffer.lines.length [] (Patch.keeps 0 bench.buffer.lines.length) bench.buffer :=
    .begin .keep (Nat.le_refl _) (by rw [List.take_length, List.append_nil]) (Nat.le_refl _)
  obtain ⟨patch, merging⟩ := begin.mergeRecords (fun other listed => (others other listed).1) (by
    intro other listed steps' stepped'
    obtain ⟨current', order', inner', inside'⟩ :=
      spans other (others other listed).1 steps' stepped'
    exact ⟨current', order', Nat.le_trans inner' inside'⟩) ran
  have free : Untouched bench.buffer last.buffer location.record.stop := by
    have near := untouched_of_isValid current valid
    obtain ⟨made, whole, placed⟩ := mergeRecords_edits ran
    intro index edited
    have low := near index edited
    rw [whole, Buffer.revision, List.drop_left] at edited
    obtain ⟨other, listed, steps', stepped', start, stop⟩ := placed index edited
    obtain ⟨known, apart⟩ := others other listed
    rcases alone other known apart steps' stepped' with up | down
    · have held := ((locateAt_order (found_of_findAll surveyed member).1).2
        steps stepped).1
      omega
    · omega
  obtain ⟨rest, rfl⟩ := merging.held _ inside free
  have known := merging.before
  have made := merging.lines
  have calm := merging.calm
  rw [Patch.before_append, Patch.before_keeps] at known
  rw [Patch.after_append, Patch.after_keeps, List.drop_zero, List.append_nil] at made
  rw [Patch.redos_append, Patch.redos_keeps, Nat.zero_add] at calm
  refine ⟨_, ⟨rest, ?_, rfl, calm, ?_⟩, made, merging.later⟩
  · have joined := List.range'_append_1 (s := 0) (m := location.record.stop)
      (n := bench.buffer.lines.length - location.record.stop)
    rw [List.range_eq_range'] at known
    rw [Nat.zero_add, Nat.add_sub_cancel' inside, ← known] at joined
    exact (List.append_cancel_left joined).symm
  · exact fun change present => merging.sound change (List.mem_append_right _ present)

/-- The record itself, and then the records above it. -/
theorem mergeRecords_above (surveyed : findAll bench.buffer = .ok survey)
    (split : survey.found = upper ++ location :: lower) (alone : StandsAlone survey location)
    (ran : mergeRecords survey.found.reverse bench = .ok groups last) :
    ∃ steps above below, location.steps = some steps ∧
      entranceRuns bench.buffer steps = .ok (runsAt bench.buffer location) ∧
      groups = above ++ groupsOf location.id (runsAt bench.buffer location) ++ below ∧
      (∀ group ∈ above, ∃ other ∈ upper, group.id = other.id) ∧
      (∀ group ∈ below, ∃ other ∈ lower, group.id = other.id) ∧
      ∀ top, location.record.start ≤ top → top ≤ location.record.stop →
        (∀ run ∈ runsAt bench.buffer location, top ≤ startOf run) →
        ∃ behind patch, MergedFrom bench.buffer survey.found location.record.stop behind ∧
          Merging (MergeChange bench.buffer survey.found) bench.buffer location.record.start
            (mergedRecord bench.buffer.lines location.record top (runsAt bench.buffer location) ++
              behind) patch last.buffer := by
  have member : location ∈ survey.found := by simp [split]
  obtain ⟨up, down⟩ := found_around surveyed split
  have spans := spans_of_findAll surveyed
  rw [split, List.reverse_append, List.reverse_cons, List.append_assoc,
    List.singleton_append] at ran
  obtain ⟨middle, below, rest, ranBelow, ran', rfl⟩ := mergeRecords_append_ran ran
  obtain ⟨steps, site, own, place, above, stepped, worked, same, ranAbove, rfl⟩ :=
    mergeRecords_cons_ran ran'
  obtain ⟨runs, found, rfl, merged⟩ := mergeRecord_ran worked
  obtain ⟨valid, -, -⟩ := entranceRuns_ok found
  have others : ∀ other ∈ lower.reverse, other ∈ survey.found ∧ other ≠ location := by
    intro other listed
    have listed' := List.mem_reverse.mp listed
    exact ⟨by simp [split, listed'], (down other listed').2⟩
  obtain ⟨behind, follows, lines, later⟩ :=
    mergeRecords_below surveyed member alone others stepped ranBelow valid
  obtain ⟨current, order, inner, inside⟩ := spans location member steps stepped
  have found' : entranceRuns bench.buffer steps = .ok runs := by
    apply entranceRuns_congr order (Buffer.isValid_of_current current) _ found
    have size : steps.stop ≤ (bench.buffer.lines.take location.record.stop).length := by
      rw [List.length_take_of_le inside]
      exact inner
    change _ = middle.buffer.lines.take steps.stop
    rw [lines, List.take_append_of_le_length size, List.take_take, Nat.min_eq_left inner]
  obtain ⟨-, each, apart⟩ := entranceRuns_ok found'
  have whole := runsAt_eq stepped found'
  rw [whole]
  refine ⟨steps, above, below, stepped, found', rfl, ?_, ?_, ?_⟩
  · intro group reported
    obtain ⟨other, listed, name⟩ := mergeRecords_groups ranAbove group reported
    exact ⟨other, List.mem_reverse.mp listed, name⟩
  · intro group reported
    obtain ⟨other, listed, name⟩ := mergeRecords_groups ranBelow group reported
    exact ⟨other, List.mem_reverse.mp listed, name⟩
  intro top low high starts
  have descend : Descend top runs := descend_of_pairwise apart fun run known =>
    ⟨starts run known, (each run known).2.1.start_lt_stop⟩
  have ends : lineBehind top runs ≤ location.record.stop := lineBehind_le high fun run known =>
    Nat.le_trans (Nat.le_of_lt (each run known).2.2.2) inner
  have parts : middle.buffer.lines = bench.buffer.lines.take (lineBehind top runs) ++
      (linesFrom bench.buffer.lines (lineBehind top runs) location.record.stop ++ behind) := by
    rw [lines, ← take_append_linesFrom ends, List.append_assoc]
  have here := mergeEach_lines descend (Nat.le_trans ends inside) parts merged
  rw [← take_append_linesFrom low, List.append_assoc] at here
  have made : place.buffer.lines = bench.buffer.lines.take location.record.start ++
      (mergedRecord bench.buffer.lines location.record top runs ++ behind) := by
    rw [same, here, mergedRecord]
    simp only [List.append_assoc]
  have later' : bench.buffer.revision ≤ place.buffer.revision := by
    have edits := mergeEach_edits (fun run known =>
      (each run (List.mem_reverse.mp known)).2.1.start_lt_stop) merged
    have longer : site.buffer.revision = middle.buffer.revision +
        (runs.reverse.flatMap fun run => [startOf run, startOf run]).length := by
      rw [Buffer.revision, edits, List.length_append]
      rfl
    rw [same, longer]
    exact Nat.le_add_right_of_le later
  have start : location.record.start ≤ bench.buffer.lines.length := by omega
  have begin : Merging (MergeChange bench.buffer survey.found) bench.buffer location.record.start
      (mergedRecord bench.buffer.lines location.record top runs ++ behind)
      (Patch.keeps 0 location.record.start) place.buffer := .begin .keep start made later'
  obtain ⟨patch, merging⟩ := begin.mergeRecords
    (fun other listed => by simp [split, List.mem_reverse.mp listed]) (by
      intro other listed steps' stepped'
      have known : other ∈ survey.found := by simp [split, List.mem_reverse.mp listed]
      have holds := (found_of_findAll surveyed member).2
      obtain ⟨ends', apart'⟩ := up other (List.mem_reverse.mp listed)
      obtain ⟨current', order', inner', -⟩ := spans other known steps' stepped'
      rcases alone other known apart' steps' stepped' with above' | below'
      · exact ⟨current', order', above'⟩
      · omega) ranAbove
  exact ⟨behind, patch, follows, merging⟩

end Stages

section Imports

variable {sides : List Side} {answer : List String × List Issue} {front old : List String}
  {plain : Change → Prop} {count : Nat}

/-- Imports are put in order above lines that are none. -/
theorem importGroups_front (parts : bench.buffer.lines = front ++ back)
    (patched : Patched (WithImports groupSymbols module old plain) old top count front)
    (closed : importOpen false front = false) (free : ∀ line ∈ back, NoImport module line)
    (ran : importGroups module sides bench = .ok answer last) :
    ∃ front', last.buffer.lines = front' ++ back ∧
      Patched (WithImports groupSymbols module old plain) old top (count + sides.length)
        front' := by
  induction sides generalizing bench front count answer with
  | nil =>
    obtain ⟨-, rfl⟩ := pure_ran.mp ran
    exact ⟨front, parts, patched⟩
  | cons side sides ih =>
    obtain ⟨others, rest⟩ := importGroups_cons_ran ran
    have low : ∀ found, lastImportLine bench.buffer.lines = some found → found < front.length := by
      intro found answer
      rw [lastImportLine, parts] at answer
      have begun : ∀ line ∈ back, startsImport line = false :=
        fun line member => (free line member).1
      rcases lastImportFrom_lt closed begun answer with none | low
      · cases none
      · omega
    obtain ⟨front', parts', patched', opened⟩ := FrontPatched.ensureImport
      (importStable_group side plain) parts patched (fun line member => (free line member).2) low
    have closed' : importOpen false front' = false := by
      rw [Bool.eq_false_iff] at closed ⊢
      exact fun left => closed (opened left)
    obtain ⟨front'', parts'', patched''⟩ := ih parts' patched' closed' rest
    refine ⟨front'', parts'', ?_⟩
    rwa [List.length_cons, Nat.add_comm sides.length, ← Nat.add_assoc]

end Imports

section Records

variable {value : Value} {record left : Span} {front behind : List String}

/-- The lines above a record and those from it on, once the runs have been merged, hold no part of
an import but for the head of the file. -/
theorem noImport_around {patch : Patch} (surveyed : findAll bench.buffer = .ok survey)
    (member : location ∈ survey.found) (imports : ImportsAbove module bench.buffer.lines)
    (unnamed : CallsUnnamed module bench.buffer survey)
    (merging : Merging (MergeChange bench.buffer survey.found) bench.buffer location.record.start
      back patch last.buffer)
    (ran : mergeRecords survey.found.reverse bench = .ok groups last) :
    importOpen false (patch.after bench.buffer.lines) = false ∧
      ∀ top, location.record.start ≤ top → Descend top (runsAt bench.buffer location) →
        lineBehind top (runsAt bench.buffer location) ≤ location.record.stop →
        ∀ behind, MergedFrom bench.buffer survey.found location.record.stop behind →
          ∀ line ∈ mergedRecord bench.buffer.lines location.record top
              (runsAt bench.buffer location) ++ behind, NoImport module line := by
  obtain ⟨head, clear, closed, above, below⟩ := imports.split
  have low := length_le_start surveyed member clear above
  constructor
  · have free : Untouched bench.buffer last.buffer head.length := by
      obtain ⟨made, whole, placed⟩ := mergeRecords_edits ran
      intro index edited
      rw [whole, Buffer.revision, List.drop_left] at edited
      obtain ⟨other, listed, steps, stepped, start, -⟩ := placed index edited
      have known := List.mem_reverse.mp listed
      have inner := ((locateAt_order (found_of_findAll surveyed known).1).2 steps stepped).1
      have high := length_le_start surveyed known clear above
      omega
    obtain ⟨rest, rfl⟩ := merging.held _ low free
    have known := merging.before
    rw [Patch.before_append, Patch.before_keeps, List.range_eq_range'] at known
    have others : ∀ line ∈ rest.after bench.buffer.lines, NoImport module line := by
      intro line held
      apply noImport_of_mem below unnamed _ _ held
      · intro number present
        have joined := List.range'_append_1 (s := 0) (m := head.length)
          (n := location.record.start - head.length)
        rw [Nat.zero_add, Nat.add_sub_cancel' low, ← known] at joined
        rw [← List.append_cancel_left joined] at present
        exact (List.mem_range'_1.mp present).1
      · exact fun change present => merging.sound change (List.mem_append_right _ present)
    rw [Patch.after_append, Patch.after_keeps, List.drop_zero, above, importOpen_append, closed,
      Bool.eq_false_iff]
    intro opened
    have shut : ∀ line ∈ rest.after bench.buffer.lines, Shut line := by
      intro line held begun
      rw [(others line held).1] at begun
      cases begun
    exact absurd (importOpen_shut shut opened) Bool.false_ne_true
  · intro top start descend stop behind follows line held
    rcases List.mem_append.mp held with inside | held
    · exact noImport_of_merged below (unnamed location member) low descend start stop inside
    · obtain ⟨patch', before, rfl, -, sound⟩ := follows
      apply noImport_of_mem below unnamed _ sound held
      intro number present
      rw [before] at present
      have high := (List.mem_range'_1.mp present).1
      have order := (locateAt_order (found_of_findAll surveyed member).1).1
      omega

/-- A record whose runs are merged is read where it stands now. -/
theorem readRecord_merged {buffer : Buffer} {lines : List String}
    (stands : buffer.lines = front ++ lines ++ behind)
    (reads : readLiteral (recordText (join "\n" lines)) = .ok value)
    (made : Vignette.ofFields (fieldsOf value) = .ok vignette) :
    readRecord buffer { location with record := buffer.spanBehind front lines } = .ok vignette := by
  refine readRecord_iff.mpr ⟨value, ⟨Buffer.isValid_of_current rfl, ?_⟩, made⟩
  rwa [Buffer.spanText, spanLines_spanBehind stands]

/-- With its runs merged, the lines of a record are read as before but for its steps. -/
theorem exists_mergedRecord (found : entranceRuns first steps = .ok runs)
    (inner : steps.stop ≤ record.stop) (inside : record.stop ≤ first.lines.length)
    (order : record.start ≤ record.stop)
    (staged : runs ≠ [] → ∃ top, Staged first.lines record top runs)
    (reads : readLiteral (recordText (join "\n" (linesFrom first.lines record.start record.stop))) =
      .ok value)
    (made : Vignette.ofFields (fieldsOf value) = .ok vignette) :
    ∃ top value' steps', record.start ≤ top ∧ top ≤ record.stop ∧
      (∀ run ∈ runs, top ≤ startOf run) ∧ Descend top runs ∧ lineBehind top runs ≤ record.stop ∧
      readLiteral (recordText (join "\n" (mergedRecord first.lines record top runs))) =
        .ok value' ∧
      Regrouped vignette.steps steps' runs ∧
      Vignette.ofFields (fieldsOf value') = .ok { vignette with steps := steps' } := by
  obtain ⟨-, each, apart⟩ := entranceRuns_ok found
  by_cases idle : runs = []
  · subst idle
    refine ⟨record.start, value, vignette.steps, Nat.le_refl _, order, by simp, trivial, order, ?_,
      .refl _, made⟩
    have whole : mergedRecord first.lines record record.start [] =
        linesFrom first.lines record.start record.stop := by
      simp [mergedRecord, actsFrom, lineBehind, linesFrom]
    rwa [whole]
  · obtain ⟨top, staged⟩ := staged idle
    have descend : Descend top runs := descend_of_pairwise apart fun run member =>
      ⟨staged.high run member, (each run member).2.1.start_lt_stop⟩
    obtain ⟨run, runs', rfl⟩ := List.exists_cons_of_ne_nil idle
    have first' := staged.high run (List.mem_cons_self ..)
    obtain ⟨-, isRun, -, ends⟩ := each run (List.mem_cons_self ..)
    have lines := isRun.start_lt_stop
    have behind : lineBehind top (run :: runs') ≤ steps.stop - 1 :=
      lineBehind_le (by omega) fun other member => Nat.le_sub_one_of_lt (each other member).2.2.2
    obtain ⟨value', steps', read', regrouped, made'⟩ := read_staged staged
      (fun other member => (each other member).2.1) descend (by omega) inside reads made
    exact ⟨top, value', steps', staged.low, by omega, staged.high, descend, by omega, read',
      regrouped, made'⟩

/-- Merging entrances keeps a record that stands alone and whose runs are whole elements of its
steps: it is read as before but that each run comes in one group. -/
theorem mergeEntrances_readRecord (ran : mergeEntrances module bench = .ok report last)
    (surveyed : findAll bench.buffer = .ok survey) (listed : location ∈ survey.found)
    (alone : StandsAlone survey location) (imports : ImportsAbove module bench.buffer.lines)
    (unnamed : CallsUnnamed module bench.buffer survey)
    (staged : runsAt bench.buffer location ≠ [] →
      ∃ top, Staged bench.buffer.lines location.record top (runsAt bench.buffer location))
    (read : readRecord bench.buffer location = .ok vignette) :
    ∃ left steps above below,
      Regathered module bench.buffer location.record last.buffer left ∧
      report.groups = above ++ groupsOf location.id (runsAt bench.buffer location) ++ below ∧
      (∀ group ∈ above ++ below, ∃ other ∈ survey.found, other ≠ location ∧ group.id = other.id) ∧
      readRecord last.buffer { location with record := left } =
        .ok { vignette with steps := steps } ∧
      Regrouped vignette.steps steps (runsAt bench.buffer location) ∧
      Action.ofKind "spawn_character" (actionsOf vignette.steps) =
        Action.ofKind "spawn_character" (actionsOf steps) ∧
      Action.ofKind "move" (actionsOf vignette.steps) =
        Action.ofKind "move" (actionsOf steps) ∧
      vignette.steps.length = steps.length +
        sumOf (·.stepsSaved) (groupsOf location.id (runsAt bench.buffer location)) := by
  obtain ⟨upper, lower, split⟩ := List.append_of_mem listed
  obtain ⟨survey', middle, answer, surveyed', merged, imported⟩ := mergeEntrances_ran ran
  obtain rfl : survey' = survey := Except.ok.inj (surveyed'.symm.trans surveyed)
  obtain ⟨steps, above, below, stepped, found, groups, up, down, merging⟩ :=
    mergeRecords_above surveyed split alone merged
  obtain ⟨-, each, apart⟩ := entranceRuns_ok found
  obtain ⟨current, order, inner, inside⟩ := spans_of_findAll surveyed location listed steps stepped
  obtain ⟨value, ⟨-, reads⟩, made⟩ := readRecord_iff.mp read
  have lines : bench.buffer.spanText location.record = join "\n"
      (linesFrom bench.buffer.lines location.record.start location.record.stop) := rfl
  rw [lines] at reads
  have start := (locateAt_order (found_of_findAll surveyed listed).1).1
  obtain ⟨top, value', steps', low, high, starts, descend, ends, read', regrouped, made'⟩ :=
    exists_mergedRecord found inner inside (Nat.le_of_lt start) staged reads made
  obtain ⟨behind, patch, follows, merging⟩ := merging top low high starts
  obtain ⟨closed, free⟩ := noImport_around surveyed listed imports unnamed merging merged
  have plain : Patched (WithImports groupSymbols module bench.buffer.lines
      (MergeChange bench.buffer survey'.found)) bench.buffer.lines location.record.start 0
        (patch.after bench.buffer.lines) :=
    ⟨patch, merging.before, rfl, Nat.le_of_eq merging.calm,
      fun change member => .plain (merging.sound change member)⟩
  obtain ⟨front, parts, patched⟩ := importGroups_front merging.lines plain closed
    (free top low descend ends behind follows) imported
  rw [← List.append_assoc] at parts
  have few : (sidesOf report.groups).length ≤ 2 := List.length_filter_le _ _
  have same : foundIn bench.buffer = survey'.found := by rw [foundIn, surveyed]
  refine ⟨last.buffer.spanBehind front (mergedRecord bench.buffer.lines location.record top
    (runsAt bench.buffer location)), steps', above, below, ⟨rfl, ?_, ?_⟩, groups, ?_,
    readRecord_merged parts read' made', regrouped, regrouped.spawns, regrouped.moves,
    regrouped.length location.id⟩
  · rw [same]
    change Patched _ _ _ _ (last.buffer.lines.take front.length)
    rw [parts, List.append_assoc, List.take_left]
    exact patched.mono (by omega)
  · rw [same]
    change MergedFrom _ _ _ (last.buffer.lines.drop (front ++ _).length)
    rw [parts, List.drop_left]
    exact follows
  · obtain ⟨higher, deeper⟩ := found_around surveyed split
    intro group member
    rcases List.mem_append.mp member with over' | under
    · obtain ⟨other, among, name⟩ := up group over'
      exact ⟨other, by simp [split, among], (higher other among).2, name⟩
    · obtain ⟨other, among, name⟩ := down group under
      exact ⟨other, by simp [split, among], (deeper other among).2, name⟩

/-- The groups of a file, and its lines once the entrances have been merged. -/
def groupedScene (buffer : Buffer) : Option (List MergedGroup × List String) :=
  match mergeEntrances templateModule ⟨buffer, []⟩ with
  | .ok report after => some (report.groups, after.buffer.lines)
  | .error _ _ => none

theorem groupedScene_eq_some {buffer : Buffer} {lines : List String}
    (merged : groupedScene buffer = some (groups, lines)) :
    ∃ report after, mergeEntrances templateModule ⟨buffer, []⟩ = .ok report after ∧
      report.groups = groups ∧ after.buffer.lines = lines := by
  rw [groupedScene] at merged
  split at merged
  · next report after ran =>
    cases merged
    exact ⟨report, after, ran, rfl, rfl⟩
  · cases merged

def gatheredScene : Buffer := ⟨["import \x7b NARRATOR \x7d from '../movement-templates';",
  "const A = \x7b", "id: 'a',", "steps: [", "...NARRATOR('Once.'),", "...ENTER_FROM_LEFT('king'),",
  "// late", "...ENTER_FROM_LEFT('queen', 'ds-left')", "],", "\x7d;"], []⟩

def gatheredLocation : Location := ⟨"a", 2, ⟨1, 10, 0⟩, some ⟨3, 9, 0⟩⟩

def gatheredRun : List Entrance :=
  [⟨5, .left, "king", "cs-left"⟩, ⟨7, .left, "queen", "ds-left"⟩]

theorem runsAt_gatheredScene : runsAt gatheredScene gatheredLocation = [gatheredRun] := by
  decide +kernel

theorem staged_gatheredScene : Staged gatheredScene.lines gatheredLocation.record 5
    (runsAt gatheredScene gatheredLocation) := by
  rw [runsAt_gatheredScene]
  exact {
    low := by decide
    high := by decide
    leads := by decide +kernel
    elements := .inr (by decide +kernel)
    settled := by decide +kernel
    plain := by
      have names : ∀ run ∈ [gatheredRun], ∀ entrance ∈ run,
          (entrance.character.toList ++ entrance.target.toList).all
            (fun c => c != '\\' && c != '\n') = true := by
        decide +kernel
      intro run member entrance present
      have plain := names run member entrance present
      simp only [List.all_append, Bool.and_eq_true, List.all_eq_true, bne_iff_ne] at plain
      exact ⟨plain.1, plain.2⟩
    whole := by decide +kernel }

/-- Two characters with a comment between them come on together, in three steps less. -/
theorem mergeEntrances_readRecord_gathered : ∃ report last left vignette steps,
    mergeEntrances templateModule ⟨gatheredScene, []⟩ = .ok report last ∧
      Regathered templateModule gatheredScene gatheredLocation.record last.buffer left ∧
      readRecord gatheredScene gatheredLocation = .ok vignette ∧
      readRecord last.buffer { gatheredLocation with record := left } =
        .ok { vignette with steps := steps } ∧
      vignette.steps.length = steps.length + 3 := by
  have merged : (groupedScene gatheredScene).isSome := by decide +kernel
  obtain ⟨⟨groups, lines⟩, merged⟩ := Option.isSome_iff_exists.mp merged
  obtain ⟨report, last, ran, -, -⟩ := groupedScene_eq_some merged
  have found : foundIn gatheredScene = [gatheredLocation] := by decide +kernel
  obtain ⟨survey, surveyed, listed⟩ := foundIn_eq found (by simp)
  have only {other : Location} (member : other ∈ survey.found) : other = gatheredLocation := by
    rw [listed] at member
    exact List.mem_singleton.mp member
  obtain ⟨vignette, read⟩ := read_isOk (show
    (readRecord gatheredScene gatheredLocation).isOk = true by rw [readRecord_eq]; decide +kernel)
  have alone : StandsAlone survey gatheredLocation := fun other member apart =>
    absurd (only member) apart
  have imports : ImportsAbove templateModule gatheredScene.lines := by
    refine ⟨1, ?_, by decide +kernel, by decide +kernel⟩
    have clear : ∀ line ∈ gatheredScene.lines.take 1,
        (search afterIdKey? none line.toList).isNone ∧ opensRecord line = false := by
      decide +kernel
    exact clear
  have unnamed : CallsUnnamed templateModule gatheredScene survey := by
    intro location member
    rw [only member, runsAt_gatheredScene]
    decide +kernel
  obtain ⟨left, steps, -, -, regathered, -, -, read', -, -, -, fewer⟩ :=
    mergeEntrances_readRecord ran surveyed (by simp [listed]) alone imports unnamed
      (fun _ => ⟨5, staged_gatheredScene⟩) read
  rw [runsAt_gatheredScene] at fewer
  exact ⟨report, last, left, vignette, steps, ran, regathered, read, read', fewer⟩

/-- The number of the steps of a record. -/
def stepCount? (buffer : Buffer) (location : Location) : Option Nat :=
  (readRecord buffer location).toOption.map (·.steps.length)

theorem stepCount?_eq {buffer : Buffer} {location : Location} : stepCount? buffer location =
    (recordValue buffer location >>= describedBy).toOption.map (·.steps.length) := by
  rw [stepCount?, readRecord_eq]

def hiddenScene : Buffer := ⟨["const A = \x7b", "id: 'a',", "steps: [", "/*",
  "...ENTER_FROM_LEFT('king'),", "...ENTER_FROM_LEFT('queen'),", "*/", "],", "\x7d;"], []⟩

def crossingScene : Buffer := ⟨["const A = \x7b", "id: 'a',", "steps: [", "pose = \x7b",
  "steps: [ // ]", "...ENTER_FROM_LEFT('king'),", "...ENTER_FROM_LEFT('queen'),",
  "], // []\x7d\x7d", "id: 'b',", "\x7d // \x7b\x7b"], []⟩

/-- Lines in a comment are merged for a record that has no steps, and those of a record that starts
among the steps of the one above are merged for that one. -/
theorem mergeEntrances_hidden :
    (∃ report after, mergeEntrances templateModule ⟨hiddenScene, []⟩ = .ok report after ∧
      foundIn hiddenScene = [⟨"a", 1, ⟨0, 9, 0⟩, some ⟨2, 8, 0⟩⟩] ∧
      stepCount? hiddenScene ⟨"a", 1, ⟨0, 9, 0⟩, some ⟨2, 8, 0⟩⟩ = some 0 ∧
      report.groups = [⟨"a", .left, ["king", "queen"]⟩] ∧ report.stepsSaved = 3 ∧
      foundIn ⟨after.buffer.lines, []⟩ = [⟨"a", 3, ⟨2, 10, 0⟩, some ⟨4, 9, 0⟩⟩] ∧
      stepCount? ⟨after.buffer.lines, []⟩ ⟨"a", 3, ⟨2, 10, 0⟩, some ⟨4, 9, 0⟩⟩ = some 0) ∧
    ∃ report after, mergeEntrances templateModule ⟨crossingScene, []⟩ = .ok report after ∧
      (foundIn crossingScene)[1]? = some ⟨"b", 8, ⟨3, 10, 0⟩, some ⟨4, 5, 0⟩⟩ ∧
      stepCount? crossingScene ⟨"b", 8, ⟨3, 10, 0⟩, some ⟨4, 5, 0⟩⟩ = some 6 ∧
      report.groups = [⟨"a", .left, ["king", "queen"]⟩] ∧
      (foundIn ⟨after.buffer.lines, []⟩)[1]? = some ⟨"b", 9, ⟨5, 11, 0⟩, some ⟨6, 7, 0⟩⟩ ∧
      stepCount? ⟨after.buffer.lines, []⟩ ⟨"b", 9, ⟨5, 11, 0⟩, some ⟨6, 7, 0⟩⟩ = some 3 := by
  constructor
  · have merged : groupedScene hiddenScene = some ([⟨"a", .left, ["king", "queen"]⟩],
        ["import \x7b GROUP_ENTER_LEFT \x7d from '../movement-templates';", "", "const A = \x7b",
          "id: 'a',", "steps: [", "/*", "...GROUP_ENTER_LEFT([['king'], ['queen']]),", "*/", "],",
          "\x7d;"]) := by
      decide +kernel
    obtain ⟨report, after, ran, groups, lines⟩ := groupedScene_eq_some merged
    refine ⟨report, after, ran, by decide +kernel, ?_, groups, ?_, ?_, ?_⟩
    · rw [stepCount?_eq]
      decide +kernel
    · rw [MergeReport.stepsSaved, groups]
      rfl
    · rw [lines]
      decide +kernel
    · rw [lines, stepCount?_eq]
      decide +kernel
  · have merged : groupedScene crossingScene = some ([⟨"a", .left, ["king", "queen"]⟩],
        ["import \x7b GROUP_ENTER_LEFT \x7d from '../movement-templates';", "", "const A = \x7b",
          "id: 'a',", "steps: [", "pose = \x7b", "steps: [ // ]",
          "...GROUP_ENTER_LEFT([['king'], ['queen']]),", "], // []\x7d\x7d", "id: 'b',",
          "\x7d // \x7b\x7b"]) := by
      decide +kernel
    obtain ⟨report, after, ran, groups, lines⟩ := groupedScene_eq_some merged
    refine ⟨report, after, ran, by decide +kernel, ?_, groups, ?_, ?_⟩
    · rw [stepCount?_eq]
      decide +kernel
    · rw [lines]
      decide +kernel
    · rw [lines, stepCount?_eq]
      decide +kernel

end Records

end Stagecraft
