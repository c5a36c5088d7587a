import Stagecraft.Proofs.Edit.Hosting
import Stagecraft.Proofs.Edit.Twice
import Stagecraft.Proofs.Edit.WholeSteps

/-!
Fixed records are read again. A record that is cut at seams wherever speech may go in, and has room
for that of its rows, is found and read when the rows have been applied: it is the vignette it was,
with the steps of as many lines of speech woven into its own as the report counts for it.
-/

namespace Stagecraft

variable {module id : String} {rows : List FixRow} {head lines : List String} {seams : Seams}
  {extent : Extent} {buffer : Buffer} {row : FixRow} {location : Location} {bench after : Bench}
  {report : SpeechReport} {vignette : Vignette} {counts : List (String × Nat)}

/-- The four lines of a record with steps. -/
def Location.extent? (location : Location) : Option Extent :=
  location.steps.map fun steps =>
    ⟨location.record.start, location.record.stop - 1, steps.start, steps.stop - 1⟩

theorem stands_of_extent? (located : locate buffer id = .ok (some location))
    (stepped : location.extent? = some extent) : extent.Stands buffer.lines id ∧
      location.record = buffer.span extent.first (extent.last + 1) := by
  obtain ⟨steps, inner, rfl⟩ := Option.map_eq_some_iff.mp stepped
  obtain ⟨extent, stands, record, rfl⟩ := Extent.stands_of_locate located inner
  rw [record]
  exact ⟨stands, rfl⟩

theorem extent?_of_stands (stands : extent.Stands buffer.lines id) :
    ∃ location, locate buffer id = .ok (some location) ∧ location.extent? = some extent ∧
      location.record = buffer.span extent.first (extent.last + 1) := by
  obtain ⟨line, located⟩ := Extent.locate_of_stands stands
  exact ⟨_, located, rfl, rfl⟩

theorem firstAt_idLine (located : locate buffer id = .ok (some location)) :
    FirstAt (hasId id) buffer.lines 0 location.idLine := by
  rw [locate] at located
  split at located
  · cases located
  · next line named =>
    cases found : locateAt buffer id line with
    | error fault =>
      rw [found] at located
      cases located
    | ok other =>
      rw [found] at located
      obtain rfl := Option.some.inj (Except.ok.inj located)
      obtain ⟨first, last, ends, -, -, -, rfl⟩ := locateAt_ok found
      exact firstLine_iff_firstAt.mp named

section Counts

theorem lookup_map_self {β : Type} (f : String → β) (ids : List String) :
    (ids.map fun id => (id, f id)).lookup id = if id ∈ ids then some (f id) else none := by
  induction ids with
  | nil => rfl
  | cons first rest ih =>
    rw [List.map_cons, List.lookup_cons, ih]
    by_cases same : id = first
    · simp [same]
    · have other : (id == first) = false := beq_eq_false_iff_ne.mpr same
      simp [other, same]

theorem sumOf_filter : sumOf (·.2) (counts.filter (·.1 == id)) = countFor id counts := by
  induction counts with
  | nil => rfl
  | cons count rest ih =>
    rw [List.filter_cons, countFor, sumOf, ← countFor, ← ih, share]
    by_cases same : count.1 = id
    · simp [same, sumOf]
    · simp [same]

/-- The report has what was counted for an id. -/
theorem lookup_countByRecord :
    ((countByRecord counts).lookup id).getD 0 = countFor id counts := by
  rw [countByRecord, lookup_map_self (fun id => sumOf (·.2) (counts.filter (·.1 == id)))]
  split
  · exact sumOf_filter
  · next absent =>
    rw [List.mem_eraseDups] at absent
    have none : counts.filter (·.1 == id) = [] := by
      apply List.filter_eq_nil_iff.mpr
      intro count member same
      rw [beq_iff_eq] at same
      exact absent (List.mem_map.mpr ⟨count, member, same⟩)
    rw [← sumOf_filter, none]
    rfl

theorem sublist_locateRows : ((locateRows buffer rows).1.map (·.2)).Sublist rows := by
  induction rows with
  | nil => exact .slnil
  | cons row rest ih =>
    rw [locateRows]
    cases locate buffer row.id with
    | error fault => exact ih.cons row
    | ok place =>
      cases place with
      | none => exact ih.cons row
      | some location =>
        by_cases stepped : location.steps.isSome
        · simp only [stepped, if_true]
          exact ih.cons_cons row
        · simp only [stepped, Bool.false_eq_true, if_false]
          exact ih.cons row

theorem roomFor_located :
    roomFor id ((bottomUp (locateRows buffer rows).1).map (·.2)) ≤ roomFor id rows := by
  have same := (List.mergeSort_perm (locateRows buffer rows).1
    fun a b => decide (b.1.record.start ≤ a.1.record.start)).map (·.2)
  calc
    roomFor id ((bottomUp (locateRows buffer rows).1).map (·.2)) =
        roomFor id ((locateRows buffer rows).1.map (·.2)) := sumOf_perm same
    _ ≤ roomFor id rows := sumOf_sublist sublist_locateRows

end Counts

/-- A record that hosts the speech of its rows. It is cut at seams, with one wherever speech may go
in; the searches reach as far as it may grow; no line of speech of any row disturbs them, and what
goes in for other rows goes in outside of it, as do the imports. -/
structure Hosts (module : String) (rows : List FixRow) (id : String) (buffer : Buffer)
    (location : Location) (extent : Extent) (seams : Seams) : Prop where
  stepped : location.extent? = some extent
  opens : extent.opening < extent.closing
  sewn : seams.Sewn
  lines : buffer.spanLines location.record = seams.lines
  welcomes : Welcomes buffer.lines extent seams
  near : location.idLine ≤ extent.opening ∨ location.idLine ≤ extent.last ∧
    location.idLine + roomFor id rows ≤ extent.first + openingWindow
  record : extent.last + roomFor id rows ≤ extent.first + recordReach
  array : extent.closing + roomFor id rows ≤ extent.opening + stepsReach
  calm : ∀ row ∈ rows, ∀ speech ∈ row.fixes.speeches, speech.Calm module (rows.map (·.id))
  whole : ∀ row ∈ rows, row.id = id → ∀ speech ∈ row.fixes.speeches, speech.OneLine
  apart : ∀ row ∈ rows, row.id ≠ id → ∀ place other, locate buffer row.id = .ok (some place) →
    place.extent? = some other → other.Apart extent
  imports : ImportsAbove module buffer.lines
  statement : hasId id (importStatement speakDirective module) = false

theorem Hosts.roomy (hosts : Hosts module rows id buffer location extent seams)
    (located : locate buffer id = .ok (some location)) :
    extent.Roomy buffer.lines id (roomFor id rows) := by
  obtain ⟨stands, -⟩ := stands_of_extent? located hosts.stepped
  obtain ⟨line, found, opens, window⟩ := stands.named
  obtain rfl := found.unique (firstAt_idLine located)
  exact { stands with
    named := ⟨_, found, opens, window, hosts.near⟩
    record := hosts.record
    array := hosts.array }

theorem Hosts.run (hosts : Hosts module rows id buffer location extent seams)
    (located : locate buffer id = .ok (some location)) :
    ∃ head, (∀ line ∈ head, Clear line) ∧ importOpen false head = false ∧
      Run module rows head id seams (bottomUp (locateRows buffer rows).1) (roomFor id rows) 0
        buffer extent := by
  obtain ⟨head, clear, closed, above, rest⟩ := hosts.imports.split
  obtain ⟨stands, record⟩ := stands_of_extent? located hosts.stepped
  obtain ⟨first, opening, closing, last⟩ := stands.toFrames.ordered
  have apart : ∀ row ∈ rows, row.id ≠ id → ∀ other : Extent, other.Stands buffer.lines row.id →
      other.Apart extent := by
    intro row member foreign other stood
    obtain ⟨place, found, stepped, -⟩ := extent?_of_stands stood
    exact hosts.apart row member foreign place other found stepped
  have below : ∀ row ∈ rows, ∀ other : Extent, other.Stands buffer.lines row.id →
      head.length ≤ other.first :=
    fun _ _ _ stood => length_le_first clear above stood
  refine ⟨head, clear, closed, ⟨seams.paragraphs, [], rfl, ?_⟩, apart, below, ?_, above, rest⟩
  · exact {
      roomy := hosts.roomy located
      opens := hosts.opens
      fills := by
        apply (Seams.fills_iff (by omega) last).mpr
        have same : extent.linesIn buffer.lines = buffer.spanLines location.record := by
          rw [record]
          rfl
        rw [same]
        exact hosts.lines
      welcomes := hosts.welcomes
      woven := .refl _
      sound := fun _ none => absurd none List.not_mem_nil
      asked := fun _ none => absurd none List.not_mem_nil }
  · intro pair member
    obtain ⟨known, current, own, steps, stood, inner, marks⟩ := marks_of_located member
    refine ⟨known, current, fun _ => ⟨own, steps, inner, marks, ?_⟩⟩
    exact {
      ordered := stood.toFrames.ordered
      below := below pair.2 known own stood
      same := fun mine => (mine ▸ stood).unique stands
      apart := fun foreign => apart pair.2 known foreign own stood }

/-- The import goes above a record and leaves its lines. -/
theorem stands_ensureImport (above : buffer.lines.take head.length = head)
    (clear : ∀ line ∈ head, Clear line) (closed : importOpen false head = false)
    (below : ∀ line ∈ buffer.lines.drop head.length,
      startsImport line = false ∧ namesModule module line = false)
    (statement : hasId id (importStatement speakDirective module) = false)
    (stands : extent.Stands buffer.lines id) :
    ∃ other : Extent, other.Stands (ensureImport buffer speakDirective module).1.lines id ∧
      other.linesIn (ensureImport buffer speakDirective module).1.lines =
        extent.linesIn buffer.lines := by
  have parts : buffer.lines = head ++ buffer.lines.drop head.length := by
    have split := List.take_append_drop head.length buffer.lines
    rw [above] at split
    exact split.symm
  have free : 'i' ∉ speakDirective.toList := by decide
  have unnamed : ∀ other ∈ [id], hasId other (importStatement speakDirective module) = false := by
    simpa using statement
  obtain ⟨head', lines, passed⟩ := ensureImport_above parts clear closed below unnamed free
  have clear' : ∀ line ∈ head, Passed [id] line := fun line there => (clear line there).passed
  have moved (top rest : List String) (extent : Extent) :
      (extent.push 0 top.length).linesIn (top ++ rest) = extent.linesIn rest := by
    have last : extent.last + top.length + 1 = top.length + (extent.last + 1) := by omega
    change ((top ++ rest).take (extent.last + top.length + 1)).drop (extent.first + top.length) = _
    rw [last, Nat.add_comm extent.first, List.take_length_add_append, List.drop_length_add_append,
      Extent.linesIn]
  rw [parts] at stands
  obtain ⟨other, rfl, found⟩ := stands_behind clear' stands
  rw [lines]
  refine ⟨other.push 0 head'.length, stands_below passed found, ?_⟩
  rw [moved, ← moved head, ← parts]

/-- The record at the second location is the one at the first with speech woven into it. -/
structure Retold (before after : Buffer) (old new : Location) (vignette : Vignette)
    (speeches : List Speech) : Prop where
  elements : ∃ elements elements', stepElements before old = .ok elements ∧
    stepElements after new = .ok elements' ∧
    Woven elements (speeches.map Speech.call) elements'
  read : ∃ groups groups', vignette.steps = groups.flatten ∧
    Woven groups (speeches.map Speech.steps) groups' ∧
    readRecord after new = .ok { vignette with steps := groups'.flatten }

/-- Rows are applied at the record, and then the import is kept in order above it. -/
theorem Hosts.told (hosts : Hosts module rows row.id bench.buffer location extent seams)
    (ran : applyFixes module rows bench = .ok report after) (member : row ∈ rows)
    (located : locate bench.buffer row.id = .ok (some location)) :
    ∃ paragraphs insertions, ∃ other : Extent, other.Stands after.buffer.lines row.id ∧
      other.linesIn after.buffer.lines = (seams.keeping paragraphs).lines ∧
      Woven seams.paragraphs (insertions.map Insertion.lines) paragraphs ∧
      (∀ insertion ∈ insertions, insertion.Sound) ∧
      (speechesOf insertions).length = (report.records.lookup row.id).getD 0 ∧
      ∀ speech ∈ speechesOf insertions,
        ∃ second ∈ rows, second.id = row.id ∧ speech ∈ second.fixes.speeches := by
  obtain ⟨head, clear, closed, run⟩ := hosts.run located
  obtain ⟨counts, middle, worked, -, records, same⟩ := applyFixes_ran ran
  obtain ⟨extent', run'⟩ := Run.applyRows hosts.sewn hosts.calm hosts.whole
    (List.mem_map_of_mem member) (run.mono (by rw [Nat.add_zero]; exact roomFor_located)) worked
  obtain ⟨paragraphs, insertions, counted, hosting⟩ := run'.told
  rw [Nat.zero_add, ← lookup_countByRecord, ← records] at counted
  have ordered := hosting.roomy.ordered
  have order : extent'.first ≤ extent'.last :=
    Nat.le_trans ordered.first_le (Nat.le_trans ordered.opening_le ordered.closing_le)
  have inner := (Seams.fills_iff order ordered.inside).mp hosting.fills
  obtain ⟨other, stands, lines⟩ : ∃ other : Extent, other.Stands after.buffer.lines row.id ∧
      other.linesIn after.buffer.lines = extent'.linesIn middle.buffer.lines := by
    rw [same]
    split
    · exact ⟨extent', run'.stands, rfl⟩
    · exact stands_ensureImport run'.above clear closed run'.rest hosts.statement run'.stands
  exact ⟨paragraphs, insertions, other, stands, lines.trans inner, hosting.woven, hosting.sound,
    counted, hosting.asked⟩

/-- A fixed record still reads, with exactly the new speech. -/
theorem applyFixes_readRecord (ran : applyFixes module rows bench = .ok report after)
    (member : row ∈ rows) (located : locate bench.buffer row.id = .ok (some location))
    (read : readRecord bench.buffer location = .ok vignette)
    (hosts : Hosts module rows row.id bench.buffer location extent seams) :
    ∃ new speeches, locate after.buffer row.id = .ok (some new) ∧
      Retold bench.buffer after.buffer location new vignette speeches ∧
      speeches.length = (report.records.lookup row.id).getD 0 ∧
      ∀ speech ∈ speeches, ∃ other ∈ rows, other.id = row.id ∧ speech ∈ other.fixes.speeches := by
  obtain ⟨paragraphs, insertions, other, stands, lines, woven, sound, counted, asked⟩ :=
    hosts.told ran member located
  obtain ⟨new, located', -, record⟩ := extent?_of_stands stands
  obtain ⟨value, reads, made⟩ := readRecord_iff.mp read
  have text := reads.2
  rw [Buffer.spanText, hosts.lines] at text
  obtain ⟨value', groups, groups', text', elements, steps, flat, made'⟩ :=
    read_woven hosts.sewn sound woven text made
  have reads' : RecordReads after.buffer new value' := by
    constructor
    · exact Buffer.isValid_of_current (by rw [record]; rfl)
    · have same : after.buffer.spanLines new.record = (seams.keeping paragraphs).lines := by
        rw [record, ← lines]
        rfl
      rw [Buffer.spanText, same]
      exact text'
  refine ⟨new, speechesOf insertions, located', ⟨?_, ?_⟩, counted, asked⟩
  · exact ⟨_, _, stepElements_iff.mpr ⟨value, reads, rfl⟩, stepElements_iff.mpr ⟨value', reads', rfl⟩,
      elements⟩
  · exact ⟨groups, groups', flat, steps, readRecord_iff.mpr ⟨value', reads', made'⟩⟩

def sceneLocation : Location := ⟨"a", 2, ⟨1, 8, 0⟩, some ⟨3, 7, 0⟩⟩

def sceneSeams : Seams where
  front := ["const A = \x7b", "  id: 'a',", "  steps: ["]
  paragraphs := [["    ...ENTER_FROM_LEFT('king'),"], ["    ...CELEBRATION(['king']),"]]
  back := ["  ],", "\x7d;"]

def queenRow : FixRow := ⟨"zone", "a", "NEEDS_FIXES",
  ⟨[⟨"queen", "happy", "It's time."⟩], some ⟨"king", "calm", "So."⟩, none⟩⟩

/-- What rows leave of a file, with the counts of the report and whether it has no issue. -/
def fixed? (rows : List FixRow) (buffer : Buffer) : Option (List (String × Nat) × Bool × Buffer) :=
  match applyFixes templateModule rows ⟨buffer, []⟩ with
  | .error _ _ => none
  | .ok report after => some (report.records, report.issues.isEmpty, after.buffer)

theorem fixed?_eq_some {records : List (String × Nat)} {clean : Bool} {left : Buffer}
    (answer : fixed? rows buffer = some (records, clean, left)) :
    ∃ report after, applyFixes templateModule rows ⟨buffer, []⟩ = .ok report after ∧
      report.records = records ∧ report.issues.isEmpty = clean ∧ after.buffer = left := by
  rw [fixed?] at answer
  split at answer
  · cases answer
  · next report after ran =>
    cases answer
    exact ⟨report, after, ran, rfl, rfl, rfl⟩

theorem welcomes_scene : Welcomes scene.lines ⟨1, 7, 3, 6⟩ sceneSeams where
  cues := by
    intro line level cue
    obtain ⟨low, high, -⟩ := level
    have here : line = 4 ∨ line = 5 := by
      simp only at low high
      omega
    rcases here with rfl | rfl
    · exact absurd cue (by decide +kernel)
    · exact ⟨[["    ...ENTER_FROM_LEFT('king'),"]], _, rfl, rfl⟩
  entrance := by
    intro line entrance
    obtain ⟨⟨low, high, -⟩, enters, -⟩ := entrance
    have here : line = 4 ∨ line = 5 := by
      simp only at low high
      omega
    rcases here with rfl | rfl
    · exact ⟨[["    ...ENTER_FROM_LEFT('king'),"]], _, rfl, rfl⟩
    · exact absurd enters (by decide +kernel)
  ending := .inl ⟨sceneSeams.paragraphs, [], rfl, rfl⟩

theorem hosts_scene :
    Hosts templateModule [queenRow] "a" scene sceneLocation ⟨1, 7, 3, 6⟩ sceneSeams where
  stepped := rfl
  opens := by decide
  sewn := ⟨by decide +kernel, by decide +kernel, by decide +kernel, by decide⟩
  lines := by decide +kernel
  welcomes := welcomes_scene
  near := .inl (by decide)
  record := by decide +kernel
  array := by decide +kernel
  calm := by
    have calm : ∀ row ∈ [queenRow], ∀ speech ∈ row.fixes.speeches,
        lineDelta .square (speakLine speech "") = 0 ∧ lineDelta .curly (speakLine speech "") = 0 ∧
          (∀ id ∈ [queenRow].map (·.id), hasId id (speakLine speech "") = false) ∧
            namesModule templateModule (speakLine speech "") = false := by decide +kernel
    intro row member speech there
    obtain ⟨square, curly, unnamed, foreign⟩ := calm row member speech there
    exact ⟨square, curly, unnamed, foreign⟩
  whole := by
    unfold Speech.OneLine
    decide +kernel
  apart := by
    intro row member foreign
    rw [List.mem_singleton.mp member] at foreign
    exact absurd rfl foreign
  imports := ⟨1, by unfold Clear; decide +kernel, by decide +kernel, by decide +kernel⟩
  statement := by decide +kernel

theorem applyFixes_readRecord_scene : ∃ report after vignette new speeches,
    applyFixes templateModule [queenRow] ⟨scene, []⟩ = .ok report after ∧
      report.issues.isEmpty ∧ readRecord scene sceneLocation = .ok vignette ∧
      locate after.buffer "a" = .ok (some new) ∧
      Retold scene after.buffer sceneLocation new vignette speeches ∧ speeches.length = 2 := by
  have answer : (fixed? [queenRow] scene).map (fun left => (left.1, left.2.1)) =
      some ([("a", 2)], true) := by decide +kernel
  obtain ⟨⟨records, clean, left⟩, fixed, same⟩ := Option.map_eq_some_iff.mp answer
  obtain ⟨report, after, ran, counted, silent, -⟩ := fixed?_eq_some fixed
  obtain ⟨rfl, rfl⟩ := Prod.mk.inj same
  obtain ⟨vignette, read⟩ := read_isOk (show
    (readRecord scene sceneLocation).isOk = true by rw [readRecord_eq]; decide +kernel)
  have located : locate scene "a" = .ok (some sceneLocation) := by decide +kernel
  have member : queenRow ∈ [queenRow] := List.mem_singleton_self _
  obtain ⟨new, speeches, found, retold, size, -⟩ :=
    applyFixes_readRecord ran member located read hosts_scene
  refine ⟨report, after, vignette, new, speeches, ran, silent, read, found, retold, ?_⟩
  rw [size, counted]
  rfl

def bareScene : Buffer := ⟨["const A = \x7b", "id: 'a',", "steps: [", "...NARRATOR('Once.')",
  "],", "\x7d;"], []⟩

def bareLocation : Location := ⟨"a", 1, ⟨0, 6, 0⟩, some ⟨2, 5, 0⟩⟩

def bareFixed : Buffer := ⟨["import \x7b CHARACTER_SPEAK \x7d from '../movement-templates';", "",
  "const A = \x7b", "id: 'a',", "steps: [", "...NARRATOR('Once.')",
  "// Dialogue fix: give silent characters a voice",
  "...CHARACTER_SPEAK('queen', 'happy', 'It\\'s time.'),", "],", "\x7d;"], [4, 0]⟩

/-- Where the last step lacks its comma, the speech behind it runs into it. -/
theorem applyFixes_unreadable_bare : ∃ report after vignette,
    applyFixes templateModule [queenRow] ⟨bareScene, []⟩ = .ok report after ∧
      report.issues.isEmpty ∧ locate bareScene "a" = .ok (some bareLocation) ∧
      readRecord bareScene bareLocation = .ok vignette ∧
      ∀ new vignette', locate after.buffer "a" = .ok (some new) →
        readRecord after.buffer new ≠ .ok vignette' := by
  have answer : fixed? [queenRow] bareScene = some ([("a", 1)], true, bareFixed) := by
    decide +kernel
  obtain ⟨report, after, ran, -, silent, left⟩ := fixed?_eq_some answer
  obtain ⟨vignette, read⟩ := read_isOk (show
    (readRecord bareScene bareLocation).isOk = true by rw [readRecord_eq]; decide +kernel)
  refine ⟨report, after, vignette, ran, silent, by decide +kernel, read, ?_⟩
  intro new vignette' found read'
  rw [left] at found read'
  have again : locate bareFixed "a" =
      .ok (some ⟨"a", 3, ⟨2, 10, 2⟩, some ⟨4, 9, 2⟩⟩) := by decide +kernel
  obtain rfl := Option.some.inj (Except.ok.inj (again.symm.trans found))
  have unread : (readRecord bareFixed ⟨"a", 3, ⟨2, 10, 2⟩, some ⟨4, 9, 2⟩⟩).isOk = false := by
    rw [readRecord_eq]
    decide +kernel
  rw [read'] at unread
  cases unread

end Stagecraft
