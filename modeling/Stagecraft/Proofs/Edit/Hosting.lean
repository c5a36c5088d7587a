import Stagecraft.Proofs.Edit.Welcome

/-!
Runs over the rows of a sheet, as one record sees them. It hosts the speech of its own rows, which
is woven in at its seams as long as there is room; what goes in at other records goes in outside of
it. So when the run is over the record has its own lines and those of the speech it was counted.
-/

namespace Stagecraft

variable {module id : String} {rows : List FixRow} {head lines more : List String} {seams : Seams}
  {paragraphs : List (List String)} {insertion : Insertion} {insertions : List Insertion}
  {room less count index top size : Nat} {extent own : Extent} {buffer : Buffer} {row : FixRow}
  {todo : List (Location × FixRow)} {record steps : Span}

/-- A line above which speech may go in: one among the steps, and a seam in whatever record
welcomes speech there. -/
structure Entry (lines : List String) (extent : Extent) (index : Nat) : Prop where
  low : extent.opening < index ∨ index = extent.closing
  high : index ≤ extent.closing
  seam : ∀ seams, Welcomes lines extent seams → seams.SeamAt extent.first index

theorem entry_of_insertionPoint (marks : extent.Marks record steps)
    (pointed : insertionPoint buffer steps = .ok index) : Entry buffer.lines extent index where
  low := by
    rcases insertionPoint_ok pointed with ends | ⟨⟨low, -, -⟩, -⟩
    · exact .inr (by rw [ends, marks.closing, Nat.add_sub_cancel])
    · exact .inl (by rwa [marks.opening] at low)
  high := by
    have closing := marks.closing
    rcases insertionPoint_ok pointed with ends | ⟨⟨-, high, -⟩, -⟩ <;> omega
  seam := fun _ welcomes => welcomes.dialogue marks pointed

theorem entry_of_entranceAt {line : Nat}
    (entrance : EntranceAt lines extent.opening extent.closing line) :
    Entry lines extent (line + 1) where
  low := .inl (Nat.lt_succ_of_lt entrance.1.1)
  high := entrance.1.2.1
  seam := fun _ welcomes => welcomes.entrance line entrance

theorem Insertion.harmless (blank : IsIndent insertion.indent)
    (calm : ∀ speech ∈ insertion.speeches, speech.Calm module (rows.map (·.id))) :
    ∀ line ∈ insertion.lines, Harmless module (rows.map (·.id)) line := by
  intro line member
  rcases mem_lines member with rfl | ⟨speech, there, rfl⟩
  · exact harmless_comment blank
  · exact (calm speech there).harmless blank

/-- The record of the id has the insertions woven into what it had, and room for more. -/
structure Hosting (rows : List FixRow) (id : String) (seams : Seams)
    (paragraphs : List (List String)) (insertions : List Insertion) (room : Nat)
    (lines : List String) (extent : Extent) : Prop where
  roomy : extent.Roomy lines id room
  opens : extent.opening < extent.closing
  fills : (seams.keeping paragraphs).Fills lines extent
  welcomes : Welcomes lines extent (seams.keeping paragraphs)
  woven : Woven seams.paragraphs (insertions.map Insertion.lines) paragraphs
  sound : ∀ insertion ∈ insertions, insertion.Sound
  asked : ∀ speech ∈ speechesOf insertions,
    ∃ row ∈ rows, row.id = id ∧ speech ∈ row.fixes.speeches

/-- So many lines of speech have gone in at the record. -/
def Told (rows : List FixRow) (id : String) (seams : Seams) (room count : Nat)
    (lines : List String) (extent : Extent) : Prop :=
  ∃ paragraphs insertions, (speechesOf insertions).length = count ∧
    Hosting rows id seams paragraphs insertions room lines extent

theorem Told.mono (told : Told rows id seams room count lines extent) (smaller : less ≤ room) :
    Told rows id seams less count lines extent := by
  obtain ⟨paragraphs, insertions, counted, hosting⟩ := told
  exact ⟨paragraphs, insertions, counted, { hosting with roomy := hosting.roomy.mono smaller }⟩

section Put

variable (inside : index ≤ lines.length) (named : id ∈ rows.map (·.id))

include inside named

theorem Hosting.outside
    (hosting : Hosting rows id seams paragraphs insertions room lines extent)
    (harmless : ∀ line ∈ more, Harmless module (rows.map (·.id)) line)
    (outside : index ≤ extent.first ∨ extent.last < index) :
    Hosting rows id seams paragraphs insertions room (putLines index more lines)
      (extent.push index more.length) := by
  have ordered := hosting.roomy.ordered
  obtain ⟨first, opening, closing, -⟩ := ordered
  have welcomes : Welcomes (putLines index more lines) (extent.push index more.length)
      (seams.keeping paragraphs) := by
    apply hosting.welcomes.put inside (fun line there => (harmless line there).square)
      (fun line there => ⟨(harmless line there).enters, (harmless line there).cues⟩)
    · intro place high seam
      obtain ⟨before, after, split, rfl⟩ := seam
      refine ⟨before, after, split, ?_⟩
      simp only [pushDown]
      split <;> split <;> omega
    · intro high low
      omega
    · exact first
  exact { hosting with
    roomy := hosting.roomy.putLines_outside inside
      (fun line there => (harmless line there).unnamed id named)
      (fun line there => (harmless line there).toQuiet) outside
    opens := pushDown_lt_iff.mpr hosting.opens
    fills := hosting.fills.outside (by omega) outside
    welcomes := welcomes }

theorem Hosting.insert (sewn : seams.Sewn)
    (hosting : Hosting rows id seams paragraphs insertions (room + insertion.lines.length) lines
      extent)
    (harmless : ∀ line ∈ insertion.lines, Harmless module (rows.map (·.id)) line)
    (sound : insertion.Sound)
    (asked : ∀ speech ∈ insertion.speeches,
      ∃ row ∈ rows, row.id = id ∧ speech ∈ row.fixes.speeches)
    (entry : Entry lines extent index) :
    Told rows id seams room ((speechesOf insertions).length + insertion.speeches.length)
      (putLines index insertion.lines lines) (extent.push index insertion.lines.length) := by
  have first := hosting.roomy.ordered.first_le
  have low : extent.opening < index := by
    have opens := hosting.opens
    rcases entry.low with low | same <;> omega
  obtain ⟨before, after, split, place⟩ := entry.seam _ hosting.welcomes
  change paragraphs = before ++ after at split
  have woven := hosting.woven
  rw [split] at woven
  obtain ⟨added, others, parts, woven'⟩ := woven.put [insertion.lines]
  obtain ⟨earlier, later, rfl, rfl, rfl⟩ := List.map_eq_append_iff.mp parts
  have still : pushDown index insertion.lines.length extent.first = extent.first :=
    pushDown_of_lt (by omega)
  refine ⟨before ++ insertion.lines :: after, earlier ++ insertion :: later, ?_, ?_⟩
  · simp only [speechesOf, List.flatMap_append, List.flatMap_cons, List.length_append]
    omega
  refine {
    roomy := hosting.roomy.putLines_inside inside
      (fun line there => (harmless line there).unnamed id named)
      (fun line there => (harmless line there).toQuiet) low
    opens := pushDown_lt_iff.mpr hosting.opens
    fills := ?_, welcomes := ?_, woven := ?_, sound := ?_, asked := ?_ }
  · rw [place]
    exact hosting.fills.inside split sewn.front_ne_nil sewn.ends
  · apply hosting.welcomes.put inside (fun line there => (harmless line there).square)
      (fun line there => ⟨(harmless line there).enters, (harmless line there).cues⟩)
    · intro other _ seam
      rw [still]
      exact seam.inside split place
    · intro _ _ _
      rw [still]
      exact ⟨before, insertion.lines :: after, rfl, place⟩
    · exact first
  · simpa using woven'
  · intro other member
    rcases List.mem_append.mp member with old | member
    · exact hosting.sound other (List.mem_append_left _ old)
    · rcases List.mem_cons.mp member with rfl | old
      · exact sound
      · exact hosting.sound other (List.mem_append_right _ old)
  · intro speech member
    simp only [speechesOf, List.flatMap_append, List.flatMap_cons, List.mem_append] at member
    have known := hosting.asked speech
    simp only [speechesOf, List.flatMap_append, List.mem_append] at known
    rcases member with old | new | old
    · exact known (.inl old)
    · exact asked speech new
    · exact known (.inr old)

end Put

/-- What falls to the id. -/
def share (id other : String) (amount : Nat) : Nat := if other = id then amount else 0

/-- Where the record of a row is, seen from the one of the id. -/
structure Placed (top size : Nat) (id : String) (extent own : Extent) (row : FixRow) : Prop where
  ordered : own.Ordered size
  below : top ≤ own.first
  same : row.id = id → own = extent
  apart : row.id ≠ id → own.Apart extent

theorem Placed.push (placed : Placed top size id extent own row) {added : Nat} :
    Placed top (size + added) id (extent.push index added) (own.push index added) row where
  ordered := placed.ordered.push
  below := Nat.le_trans placed.below le_pushDown
  same := fun mine => by rw [placed.same mine]
  apart := fun other => Extent.apart_push.mpr (placed.apart other)

/-- A row still to do: as long as its span is good, the span is where its record is. -/
def Awaits (top : Nat) (id : String) (buffer : Buffer) (extent : Extent)
    (pair : Location × FixRow) : Prop :=
  pair.1.record.revision ≤ buffer.revision ∧ (buffer.isValid pair.1.record = true →
    ∃ (own : Extent) (steps : Span), pair.1.steps = some steps ∧
      own.Marks pair.1.record steps ∧ Placed top buffer.lines.length id extent own pair.2)

/-- How far a run has come: the record has been told so much, the rows still to do can be found,
the other records stand apart, and the lines above all records are as they were. -/
structure Run (module : String) (rows : List FixRow) (head : List String) (id : String)
    (seams : Seams) (todo : List (Location × FixRow)) (room count : Nat) (buffer : Buffer)
    (extent : Extent) : Prop where
  told : Told rows id seams room count buffer.lines extent
  apart : ∀ row ∈ rows, row.id ≠ id → ∀ other : Extent, other.Stands buffer.lines row.id →
    other.Apart extent
  below : ∀ row ∈ rows, ∀ other : Extent, other.Stands buffer.lines row.id →
    head.length ≤ other.first
  todo : ∀ pair ∈ todo, pair.2 ∈ rows ∧ Awaits head.length id buffer extent pair
  above : buffer.lines.take head.length = head
  rest : ∀ line ∈ buffer.lines.drop head.length,
    startsImport line = false ∧ namesModule module line = false

theorem Run.stands (run : Run module rows head id seams todo room count buffer extent) :
    extent.Stands buffer.lines id := by
  obtain ⟨_, _, -, hosting⟩ := run.told
  exact hosting.roomy.stands

theorem Run.mono (run : Run module rows head id seams todo room count buffer extent)
    (smaller : less ≤ room) : Run module rows head id seams todo less count buffer extent :=
  { run with told := run.told.mono smaller }

theorem Awaits.put {pair : Location × FixRow} (awaits : Awaits top id buffer extent pair) :
    Awaits top id (buffer.insertLines index more) (extent.push index more.length) pair := by
  obtain ⟨known, placed⟩ := awaits
  refine ⟨by simp only [Buffer.revision_insertLines]; omega, ?_⟩
  intro valid
  obtain ⟨valid, behind⟩ := (Buffer.isValid_insertLines known).mp valid
  obtain ⟨own, steps, stepped, marks, placed⟩ := placed valid
  rw [marks.last] at behind
  have still : own.push index more.length = own := placed.ordered.push_of_lt behind
  refine ⟨own, steps, stepped, marks, ?_⟩
  have moved : Placed top (buffer.lines.length + more.length) id (extent.push index more.length)
      (own.push index more.length) pair.2 := placed.push
  change Placed top (putLines index more buffer.lines).length id _ own pair.2
  rwa [length_putLines, ← still]

section Row

variable (sewn : seams.Sewn)
  (calm : ∀ row ∈ rows, ∀ speech ∈ row.fixes.speeches, speech.Calm module (rows.map (·.id)))
  (whole : ∀ row ∈ rows, row.id = id → ∀ speech ∈ row.fixes.speeches, speech.OneLine)

include sewn calm whole

/-- Speech of a row goes in at its record, which is the one of the id or apart from it. -/
theorem Run.put
    (run : Run module rows head id seams todo (share id row.id insertion.lines.length + room) count
      buffer extent)
    (named : id ∈ rows.map (·.id)) (member : row ∈ rows)
    (placed : Placed head.length buffer.lines.length id extent own row)
    (blank : IsIndent insertion.indent)
    (asked : ∀ speech ∈ insertion.speeches, speech ∈ row.fixes.speeches)
    (entry : Entry buffer.lines own index) :
    Run module rows head id seams todo room (count + share id row.id insertion.speeches.length)
      (buffer.insertLines index insertion.lines) (extent.push index insertion.lines.length) := by
  have harmless : ∀ line ∈ insertion.lines, Harmless module (rows.map (·.id)) line :=
    Insertion.harmless blank fun speech there => calm row member speech (asked speech there)
  obtain ⟨first, opening, closing, last⟩ := placed.ordered
  have low := entry.low
  have high := entry.high
  have inside : index ≤ buffer.lines.length := by omega
  have below : head.length ≤ index := by
    have top := placed.below
    omega
  refine {
    told := ?_, apart := ?_, below := ?_, todo := ?_
    above := take_putLines_top below run.above inside, rest := ?_ }
  · by_cases mine : row.id = id
    · obtain ⟨paragraphs, insertions, rfl, hosting⟩ := run.told
      rw [share, if_pos mine, Nat.add_comm] at hosting
      rw [share, if_pos mine]
      rw [placed.same mine] at entry
      exact hosting.insert inside named sewn harmless
        ⟨blank, fun speech there => whole row member mine speech (asked speech there)⟩
        (fun speech there => ⟨row, member, mine, asked speech there⟩) entry
    · obtain ⟨paragraphs, insertions, rfl, hosting⟩ := run.told
      rw [share, if_neg mine, Nat.zero_add] at hosting
      rw [share, if_neg mine]
      refine ⟨paragraphs, insertions, rfl, hosting.outside inside named harmless ?_⟩
      rcases placed.apart mine with up | down
      · exact .inl (by omega)
      · exact .inr (by omega)
  · intro other there foreign stands stood
    obtain ⟨old, rfl, stood'⟩ := stands_of_put inside harmless there stood
    exact Extent.apart_push.mpr (run.apart other there foreign old stood')
  · intro other there stands stood
    obtain ⟨old, rfl, stood'⟩ := stands_of_put inside harmless there stood
    exact Nat.le_trans (run.below other there old stood') le_pushDown
  · intro pair there
    obtain ⟨known, awaits⟩ := run.todo pair there
    exact ⟨known, awaits.put⟩
  · intro line there
    rcases mem_drop_putLines below run.above there with new | old
    · exact ⟨(harmless line new).starts, (harmless line new).foreign⟩
    · exact run.rest line old

variable (named : id ∈ rows.map (·.id)) (member : row ∈ rows)

include named member

theorem Run.insertDialogue {site after : Site} {spoken : Nat}
    (run : Run module rows head id seams todo (share id row.id
      ((row.fixes.dialogue ++ row.fixes.closing.toList).length + 1) + room) count site.buffer extent)
    (placed : Placed head.length site.buffer.lines.length id extent own row)
    (marks : own.Marks site.record site.steps)
    (ran : insertDialogue row.fixes site = .ok spoken after) :
    ∃ extent own : Extent,
      Run module rows head id seams todo room (count + share id row.id spoken) after.buffer extent ∧
      Placed head.length after.buffer.lines.length id extent own row ∧
      own.Marks after.record after.steps := by
  obtain ⟨point, indent, missing, pointed, blank, sought, rfl, same⟩ := insertDialogue_ran ran
  have fewer := missingSpeeches_sublist sought
  by_cases empty : missing = []
  · subst empty
    rw [if_pos rfl] at same
    subst same
    have none : share id row.id ([] : List Speech).length = 0 := by simp [share]
    rw [none]
    exact ⟨extent, own, run.mono (Nat.le_add_left ..), placed, marks⟩
  rw [if_neg empty] at same
  subst same
  let block : Insertion := ⟨indent, true, missing⟩
  have lines : dialogueBlock missing indent = block.lines := rfl
  have size : block.lines.length = missing.length + 1 := by
    rw [← lines, dialogueBlock, List.length_cons, List.length_map]
  have short := fewer.length_le
  have enough : share id row.id block.lines.length + room ≤ share id row.id
      ((row.fixes.dialogue ++ row.fixes.closing.toList).length + 1) + room := by
    rw [size, share, share]
    split <;> omega
  have roomy : Run module rows head id seams todo (share id row.id block.lines.length + room) count
      site.buffer extent := run.mono enough
  have told := roomy.put sewn calm whole named member placed blank
    (fun speech there => List.mem_append_left _ (fewer.subset there))
    (entry_of_insertionPoint marks pointed)
  refine ⟨_, _, told, ?_, marks.afterInsert⟩
  change Placed head.length (putLines point block.lines site.buffer.lines).length id _ _ row
  rw [length_putLines]
  exact placed.push

theorem Run.insertOpening {site after : Site} {spoken : Nat} {opening : Speech}
    (run : Run module rows head id seams todo (share id row.id 1 + room) count site.buffer extent)
    (placed : Placed head.length site.buffer.lines.length id extent own row)
    (marks : own.Marks site.record site.steps) (opens : row.fixes.opening = some opening)
    (ran : insertOpening opening site = .ok spoken after) :
    ∃ extent : Extent,
      Run module rows head id seams todo room (count + share id row.id spoken) after.buffer
        extent := by
  obtain ⟨answer, entered, ⟨rfl, rfl, -⟩ | ⟨rfl, below, indent, found, blank, -, rfl⟩⟩ :=
    insertOpening_ran ran
  · have none : share id row.id 0 = 0 := by simp [share]
    rw [none]
    exact ⟨extent, run.mono (Nat.le_add_left ..)⟩
  · obtain ⟨line, rfl, entrance⟩ := (entranceLine_ok entered below).mp found
    rw [marks.opening, marks.closing, Nat.add_sub_cancel] at entrance
    let single : Insertion := ⟨indent, false, [opening]⟩
    have roomy : Run module rows head id seams todo (share id row.id single.lines.length + room)
        count site.buffer extent := run
    have told := roomy.put sewn calm whole named member placed blank
      (fun speech there => List.mem_append_right _ (by
        rw [List.mem_singleton.mp there, opens]
        exact List.mem_singleton_self _))
      (entry_of_entranceAt entrance)
    exact ⟨_, told⟩

theorem Run.applyRow {site after : Site} {spoken : Nat}
    (run : Run module rows head id seams todo
      (share id row.id (row.fixes.speeches.length + 1) + room) count site.buffer extent)
    (placed : Placed head.length site.buffer.lines.length id extent own row)
    (marks : own.Marks site.record site.steps)
    (ran : applyRow row.fixes site = .ok spoken after) :
    ∃ extent : Extent,
      Run module rows head id seams todo room (count + share id row.id spoken) after.buffer
        extent := by
  obtain ⟨dialogue, middle, first, rest⟩ := applyRow_ran ran
  have size : row.fixes.speeches.length = (row.fixes.dialogue ++ row.fixes.closing.toList).length +
      row.fixes.opening.toList.length := List.length_append
  rcases rest with ⟨-, rfl, rfl⟩ | ⟨opening, more, opens, second, rfl⟩
  · have enough : share id row.id ((row.fixes.dialogue ++ row.fixes.closing.toList).length + 1) +
        room ≤ share id row.id (row.fixes.speeches.length + 1) + room := by
      rw [share, share]
      split <;> omega
    obtain ⟨extent, -, told, -⟩ :=
      (run.mono enough).insertDialogue sewn calm whole named member placed marks first
    exact ⟨extent, told⟩
  · rw [opens, Option.toList_some, List.length_singleton] at size
    have parts : share id row.id (row.fixes.speeches.length + 1) + room = share id row.id
        ((row.fixes.dialogue ++ row.fixes.closing.toList).length + 1) +
          (share id row.id 1 + room) := by
      simp only [share]
      split <;> omega
    rw [parts] at run
    obtain ⟨extent, own, told, placed, marks⟩ :=
      run.insertDialogue sewn calm whole named member placed marks first
    obtain ⟨extent, told⟩ :=
      told.insertOpening sewn calm whole named member placed marks opens second
    have both : share id row.id dialogue + share id row.id more =
        share id row.id (dialogue + more) := by
      simp only [share]
      split <;> omega
    rw [Nat.add_assoc, both] at told
    exact ⟨extent, told⟩

end Row

/-- The most lines that rows can put in at a record: their speech, and a comment for each. -/
def roomFor (id : String) (rows : List FixRow) : Nat :=
  sumOf (fun row => share id row.id (row.fixes.speeches.length + 1)) rows

/-- What was counted for the id. -/
def countFor (id : String) (counts : List (String × Nat)) : Nat :=
  sumOf (fun count => share id count.1 count.2) counts

/-- When a row gets its turn, its record is where its location says, or where it is found again. -/
theorem Run.refreshed {location current : Location} {steps : Span}
    (run : Run module rows head id seams todo room count buffer extent)
    (turn : (location, row) ∈ todo)
    (found : refreshed buffer location row.id = .ok current)
    (stepped : current.steps = some steps) :
    ∃ own : Extent, own.Marks current.record steps ∧
      Placed head.length buffer.lines.length id extent own row := by
  obtain ⟨member, -, placed⟩ := run.todo _ turn
  by_cases valid : buffer.isValid location.record = true
  · rw [refreshed_of_valid valid] at found
    obtain rfl := Except.ok.inj found
    obtain ⟨own, steps', stepped', marks, placed⟩ := placed valid
    rw [stepped] at stepped'
    obtain rfl := Option.some.inj stepped'
    exact ⟨own, marks, placed⟩
  · obtain ⟨own, stands, marks⟩ :=
      Extent.marks_of_locate (locate_of_refreshed valid found) stepped
    refine ⟨own, marks, ?_⟩
    exact {
      ordered := stands.toFrames.ordered
      below := run.below row member own stands
      same := fun mine => (mine ▸ stands).unique run.stands
      apart := fun foreign => run.apart row member foreign own stands }

/-- A run over all rows tells the record what it counts for it. -/
theorem Run.applyRows {bench last : Bench} {counts : List (String × Nat)} (sewn : seams.Sewn)
    (calm : ∀ row ∈ rows, ∀ speech ∈ row.fixes.speeches, speech.Calm module (rows.map (·.id)))
    (whole : ∀ row ∈ rows, row.id = id → ∀ speech ∈ row.fixes.speeches, speech.OneLine)
    (named : id ∈ rows.map (·.id))
    (run : Run module rows head id seams todo (roomFor id (todo.map (·.2)) + room) count
      bench.buffer extent)
    (ran : applyRows todo bench = .ok counts last) :
    ∃ extent : Extent,
      Run module rows head id seams [] room (count + countFor id counts) last.buffer extent := by
  induction todo generalizing bench counts count extent with
  | nil =>
    obtain ⟨rfl, rfl⟩ := pure_ran.mp ran
    exact ⟨extent, run.mono (Nat.le_add_left ..)⟩
  | cons first rest ih =>
    obtain ⟨location, row⟩ := first
    obtain ⟨current, steps, spoken, place, others, found, stepped, worked, ⟨log, later⟩, rfl⟩ :=
      applyRows_cons_ran ran
    have member := (run.todo _ (List.mem_cons_self ..)).1
    obtain ⟨own, marks, placed⟩ := run.refreshed (List.mem_cons_self ..) found stepped
    have next : Run module rows head id seams rest (share id row.id (row.fixes.speeches.length + 1) +
        (roomFor id (rest.map (·.2)) + room)) count bench.buffer extent := { run with
      told := by
        have told := run.told
        rw [List.map_cons, roomFor, sumOf, Nat.add_assoc] at told
        exact told
      todo := fun pair there => run.todo pair (List.mem_cons_of_mem _ there) }
    obtain ⟨extent, told⟩ := next.applyRow sewn calm whole named member placed marks worked
    obtain ⟨extent, told⟩ := ih told later
    have counted : share id row.id spoken + countFor id others =
        countFor id (if spoken ≠ 0 then (row.id, spoken) :: others else others) := by
      by_cases none : spoken = 0
      · simp [none, share]
      · simp [none, countFor, sumOf]
    rw [Nat.add_assoc, counted] at told
    exact ⟨extent, told⟩

end Stagecraft
