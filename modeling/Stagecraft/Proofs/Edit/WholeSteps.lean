import Stagecraft.Proofs.Edit.Apart
import Stagecraft.Proofs.Edit.Paragraphs
import Stagecraft.Proofs.Record.Survey

/-!
Pruning takes whole steps from a record that is laid out in paragraphs: the record is still read
afterwards, and the elements of its steps are some of those before, in the same order. The passes
pick lines by their brackets alone, so this fails where a directive goes on behind its first line.
-/

namespace Stagecraft

variable {reach : Int} {bench after : Bench} {report : PruneReport} {survey : Survey}
  {location : Location} {locations : List Location} {layout : Layout} {vignette : Vignette}
  {steps : Span}

/-- The record at a location is laid out in paragraphs, from the line behind the opening one of its
steps to the one before the closing one. -/
structure LaidOut (buffer : Buffer) (location : Location) (layout : Layout) : Prop where
  readable : layout.Readable
  opens : layout.head.getLast?.map (lineDelta .square) = some 1
  solid : ∀ paragraph ∈ layout.paragraphs, Solid paragraph
  lines : buffer.spanLines location.record = layout.lines
  steps : location.steps.map (fun steps => (steps.start + 1, steps.stop)) =
    some (location.record.start + layout.head.length,
      location.record.start + layout.head.length + layout.paragraphs.flatten.length + 1)

/-- The steps of the records above end above the record. -/
def StandsClear (survey : Survey) (location : Location) : Prop :=
  ∀ other ∈ survey.found, other.idLine < location.idLine → ∀ steps, other.steps = some steps →
    steps.stop ≤ location.record.start

theorem runPasses_trail {first : Buffer} (trail : Trail first bench.buffer)
    (ran : runPasses reach location Pass.all bench = .ok report after) :
    Trail first after.buffer := by
  obtain ⟨steps, stepped⟩ := runPasses_steps ran
  obtain ⟨_, _, _, trail'⟩ := runPasses_keeps (trail_upkeep first) (x := ()) stepped trail ran
  exact trail'

theorem pruneEach_trail (ran : pruneEach reach locations bench = .ok report after) :
    Trail bench.buffer after.buffer := by
  apply pruneEach_keeps (Trail bench.buffer) _ (Trail.refl bench.buffer) ran
  intro location _ middle last report trail _ passes
  exact runPasses_trail trail passes

/-- Work at records whose steps end above some lines stays above those. -/
theorem pruneEach_front {top back : List String}
    (current : ∀ location ∈ locations, location.record.revision = bench.buffer.revision)
    (short : ∀ location ∈ locations, ∀ steps, location.steps = some steps →
      steps.stop ≤ location.record.stop ∧ steps.stop ≤ top.length) {middle : Bench}
    (held : Front bench.buffer top back top middle.buffer)
    (ran : pruneEach reach locations middle = .ok report after) :
    ∃ front, Front bench.buffer top back front after.buffer := by
  refine pruneEach_keeps (fun buffer => ∃ front, Front bench.buffer top back front buffer)
    ?_ ⟨top, held⟩ ran
  rintro location member place last report ⟨front, held⟩ valid passes
  obtain ⟨steps, stepped⟩ := runPasses_steps passes
  obtain ⟨low, inside⟩ := short location member steps stepped
  have ends : steps.stop ≤ front.length := by
    apply held.holds steps.stop inside
    intro index edited
    rw [← current location member] at edited
    exact Nat.le_trans low (le_of_isValid valid index edited)
  obtain ⟨front', _, _, held', -⟩ :=
    runPasses_keeps (front_upkeep bench.buffer top back) stepped ⟨held, ends⟩ passes
  exact ⟨front', held'⟩

/-- The records of a survey above one of them. -/
theorem idLine_lt {above below : List Location} (surveyed : findAll bench.buffer = .ok survey)
    (split : survey.found = above ++ location :: below) {other : Location}
    (member : other ∈ above) : other.idLine < location.idLine := by
  obtain ⟨found, order⟩ := surveyFrom_found surveyed
  have here := found other (by simp [split, member])
  rw [split] at order
  have low := (List.pairwise_append.mp order).2.2 other member location (by simp)
  exact Nat.lt_of_lt_of_le here.1.2 low

/-- A span that is still good stands where it did. -/
theorem Trail.lines_around {first buffer : Buffer} {span : Span} (trail : Trail first buffer)
    (current : span.revision = first.revision) (order : span.start ≤ span.stop)
    (valid : buffer.isValid span = true) :
    buffer.lines =
        first.lines.take span.start ++ first.spanLines span ++ buffer.lines.drop span.stop ∧
      (buffer.lines.drop span.stop).Sublist (first.lines.drop span.stop) := by
  have behind := le_of_isValid valid
  rw [current] at behind
  obtain ⟨same, part⟩ := trail.kept span.stop behind
  refine ⟨?_, part⟩
  calc
    buffer.lines = first.lines.take span.stop ++ buffer.lines.drop span.stop := by
      rw [← same, List.take_append_drop]
    _ = (first.lines.take span.stop).take span.start ++ (first.lines.take span.stop).drop span.start
        ++ buffer.lines.drop span.stop := by
      rw [List.take_append_drop]
    _ = _ := by
      rw [List.take_take, Nat.min_eq_left order, Buffer.spanLines]

/-- The same where the paragraphs need not be members that can be read. -/
structure InParagraphs (buffer : Buffer) (location : Location) (layout : Layout) : Prop where
  opens : layout.head.getLast?.map (lineDelta .square) = some 1
  solid : ∀ paragraph ∈ layout.paragraphs, Solid paragraph
  lines : buffer.spanLines location.record = layout.lines
  steps : location.steps.map (fun steps => (steps.start + 1, steps.stop)) =
    some (location.record.start + layout.head.length,
      location.record.start + layout.head.length + layout.paragraphs.flatten.length + 1)

theorem LaidOut.inParagraphs {buffer : Buffer} (laid : LaidOut buffer location layout) :
    InParagraphs buffer location layout :=
  ⟨laid.opens, laid.solid, laid.lines, laid.steps⟩

theorem InParagraphs.standing {first buffer : Buffer} {above below : List String}
    (laid : InParagraphs first location layout) (start : above.length = location.record.start)
    (lines : buffer.lines = above ++ layout.lines ++ below)
    (stepped : location.steps = some steps) :
    Standing above below layout layout.paragraphs ⟨buffer, location.record, steps⟩ := by
  have ends := laid.steps
  rw [stepped, Option.map_some, Option.some.injEq, Prod.mk.injEq] at ends
  constructor
  · exact .refl _
  · rw [lines, Layout.lines]
    simp only [List.append_assoc]
  · rw [List.length_append, start]
    exact ends.1
  · rw [List.length_append, start]
    exact ends.2

/-- The passes at a record that is laid out in paragraphs take some of them. -/
theorem runPasses_paragraphs {first : Buffer} {above below : List String}
    (laid : LaidOut first location layout) (start : above.length = location.record.start)
    (lines : bench.buffer.lines = above ++ layout.lines ++ below)
    (ran : runPasses reach location Pass.all bench = .ok report after) :
    ∃ fewer, fewer.Sublist layout.paragraphs ∧
      after.buffer.lines = above ++ (layout.keeping fewer).lines ++ below := by
  obtain ⟨steps, stepped⟩ := runPasses_steps ran
  have standing := laid.inParagraphs.standing start lines stepped
  obtain ⟨fewer, _, _, standing'⟩ :=
    runPasses_keeps (standing_upkeep laid.opens laid.solid) stepped standing ran
  refine ⟨fewer, standing'.fewer, ?_⟩
  rw [standing'.lines, Layout.lines]
  simp only [Layout.keeping, List.append_assoc]

/-- Pruning takes whole paragraphs from a record that is laid out in them. -/
theorem prune_paragraphs (ran : prune reach bench = .ok report after)
    (surveyed : findAll bench.buffer = .ok survey) (listed : location ∈ survey.found)
    (clear : StandsClear survey location) (laid : LaidOut bench.buffer location layout) :
    ∃ above fewer below, after.buffer.lines =
        above ++ (layout.keeping fewer).lines ++ below ∧
      fewer.Sublist layout.paragraphs ∧
      above.Sublist (bench.buffer.lines.take location.record.start) ∧
      below.Sublist (bench.buffer.lines.drop location.record.stop) := by
  obtain ⟨upper, lower, split⟩ := List.append_of_mem listed
  obtain ⟨located, held⟩ := found_of_findAll surveyed listed
  obtain ⟨current, inside, -⟩ := locateAt_spans located
  have low := (locateAt_reaches located).1
  have order : location.record.start ≤ location.record.stop :=
    Nat.le_trans low (Nat.le_of_lt held)
  -- the records below come first, and leave this one where it is
  obtain ⟨others, ran', -⟩ := prune_ran ran surveyed
  rw [split, List.reverse_append, List.reverse_cons, List.append_assoc] at ran'
  obtain ⟨_, _, middle, below, ran'⟩ := pruneEach_append_ran ran'
  obtain ⟨valid, _, place, _, here, above, -⟩ := pruneEach_cons_ran.mp ran'
  have trail := pruneEach_trail below
  obtain ⟨around, part⟩ := trail.lines_around current order valid
  rw [laid.lines] at around
  have start : (bench.buffer.lines.take location.record.start).length = location.record.start :=
    List.length_take_of_le (Nat.le_trans order inside)
  obtain ⟨fewer, taken, lines⟩ := runPasses_paragraphs laid start around here
  -- those above come last, and work above its first line
  have first : Front bench.buffer (bench.buffer.lines.take location.record.start)
      ((layout.keeping fewer).lines ++
        middle.buffer.lines.drop location.record.stop)
      (bench.buffer.lines.take location.record.start) place.buffer := by
    constructor
    · rw [lines, List.append_assoc]
    · exact .refl _
    · exact (runPasses_trail trail here).later
    · intro _ inside _
      exact inside
  have listed' {other : Location} (member : other ∈ upper.reverse) : other ∈ survey.found := by
    rw [split]
    exact List.mem_append_left _ (List.mem_reverse.mp member)
  obtain ⟨front, held⟩ : ∃ front, Front bench.buffer _ _ front after.buffer := by
    apply pruneEach_front _ _ first above
    · intro other member
      exact (locateAt_spans (found_of_findAll surveyed (listed' member)).1).1
    · intro other member steps stepped
      rw [start]
      constructor
      · exact ((locateAt_spans (found_of_findAll surveyed (listed' member)).1).2.2 steps stepped).2
      · have up := idLine_lt surveyed split (List.mem_reverse.mp member)
        exact clear other (listed' member) up steps stepped
  refine ⟨front, fewer, middle.buffer.lines.drop location.record.stop, ?_, taken, held.fewer, part⟩
  rw [held.lines, List.append_assoc]

/-- What is left of the lines of a span, between what is left of those around it. -/
structure Remains (first : Buffer) (span : Span) (buffer : Buffer) (left : Span) : Prop where
  current : left.revision = buffer.revision
  ends : left.stop ≤ buffer.lines.length
  above : (buffer.lines.take left.start).Sublist (first.lines.take span.start)
  inside : (buffer.spanLines left).Sublist (first.spanLines span)
  below : (buffer.lines.drop left.stop).Sublist (first.lines.drop span.stop)

section Remains

variable {buffer : Buffer} {above inside below : List String}

/-- The span of the lines behind `above`. -/
def Buffer.spanBehind (buffer : Buffer) (above inside : List String) : Span :=
  buffer.span above.length (above ++ inside).length

theorem spanLines_spanBehind (lines : buffer.lines = above ++ inside ++ below) :
    buffer.spanLines (buffer.spanBehind above inside) = inside := by
  rw [Buffer.spanLines, lines]
  change ((above ++ inside ++ below).take (above ++ inside).length).drop above.length = inside
  rw [List.take_left, List.drop_left]

theorem remains_spanBehind {first : Buffer} {span : Span}
    (lines : buffer.lines = above ++ inside ++ below)
    (up : above.Sublist (first.lines.take span.start))
    (part : inside.Sublist (first.spanLines span))
    (down : below.Sublist (first.lines.drop span.stop)) :
    Remains first span buffer (buffer.spanBehind above inside) := by
  constructor
  · rfl
  · simp [Buffer.spanBehind, Buffer.span, lines]
  · change (buffer.lines.take above.length).Sublist _
    rwa [lines, List.append_assoc, List.take_left]
  · rwa [spanLines_spanBehind lines]
  · change (buffer.lines.drop (above ++ inside).length).Sublist _
    rwa [lines, List.drop_left]

end Remains

theorem Layout.lines_sublist {fewer : List (List String)}
    (taken : fewer.Sublist layout.paragraphs) :
    (layout.keeping fewer).lines.Sublist layout.lines := by
  apply List.Sublist.append_right
  apply List.Sublist.append_left
  exact taken.flatten

/-- Pruning takes whole steps from a record that is laid out in paragraphs: what is left of it is
read, and the elements of its steps are some of those before, in the same order. -/
theorem prune_readRecord (ran : prune reach bench = .ok report after)
    (surveyed : findAll bench.buffer = .ok survey) (listed : location ∈ survey.found)
    (clear : StandsClear survey location) (laid : LaidOut bench.buffer location layout)
    (read : readRecord bench.buffer location = .ok vignette) :
    ∃ left, Remains bench.buffer location.record after.buffer left ∧
      (∃ steps unresolved, readRecord after.buffer { location with record := left } =
          .ok { vignette with steps := steps, unresolved := unresolved } ∧
        steps.Sublist vignette.steps) ∧
      ∃ elements elements', stepElements bench.buffer location = .ok elements ∧
        stepElements after.buffer { location with record := left } = .ok elements' ∧
        elements'.Sublist elements := by
  obtain ⟨above, fewer, below, lines, taken, up, down⟩ :=
    prune_paragraphs ran surveyed listed clear laid
  obtain ⟨value, reads, made⟩ := readRecord_iff.mp read
  have text := reads.2
  rw [Buffer.spanText, laid.lines] at text
  obtain ⟨value', values, values', text', part, agree⟩ :=
    Layout.read_fewer laid.readable taken text
  obtain ⟨steps, unresolved, made', sub⟩ := ofFields_agree agree part made
  have inside := spanLines_spanBehind lines
  have remains : Remains bench.buffer location.record after.buffer
      (after.buffer.spanBehind above (layout.keeping fewer).lines) := by
    apply remains_spanBehind lines up _ down
    rw [laid.lines]
    exact Layout.lines_sublist taken
  have reads' : RecordReads after.buffer { location with
      record := after.buffer.spanBehind above (layout.keeping fewer).lines } value' := by
    constructor
    · exact Buffer.isValid_of_current rfl
    · rwa [Buffer.spanText, inside]
  refine ⟨_, remains, ⟨steps, unresolved, readRecord_iff.mpr ⟨value', reads', made'⟩, sub⟩, ?_⟩
  exact ⟨elementsOf (fieldsOf value), elementsOf (fieldsOf value'),
    stepElements_iff.mpr ⟨value, reads, rfl⟩, stepElements_iff.mpr ⟨value', reads', rfl⟩,
    agree.elements part⟩

theorem read_isOk {buffer : Buffer} (read : (readRecord buffer location).isOk = true) :
    ∃ vignette, readRecord buffer location = .ok vignette := by
  cases answer : readRecord buffer location with
  | ok vignette => exact ⟨vignette, rfl⟩
  | error fault =>
    rw [answer] at read
    cases read

def repeatScene : Buffer := ⟨["const A = \x7b", "id: 'a',", "steps: [", "...NARRATOR('a'),",
  "...NARRATOR('a'),", "\x7b", "parallel: [\x7b anim: 'Idle_A' \x7d],", "\x7d",
  "],", "\x7d;"], []⟩

def repeatLocation : Location := ⟨"a", 1, ⟨0, 10, 0⟩, some ⟨2, 9, 0⟩⟩

def repeatLayout : Layout where
  head := ["const A = \x7b", "id: 'a',", "steps: ["]
  paragraphs := [["...NARRATOR('a'),"], ["...NARRATOR('a'),"],
    ["\x7b", "parallel: [\x7b anim: 'Idle_A' \x7d],", "\x7d"]]
  tail := ["],", "\x7d;"]

theorem laidOut_repeatScene : LaidOut repeatScene repeatLocation repeatLayout where
  readable := ⟨by decide +kernel, by decide +kernel, by decide +kernel⟩
  opens := by decide +kernel
  solid := by decide +kernel
  lines := by decide +kernel
  steps := by decide +kernel

/-- The second of two equal lines goes, and so does a block without a comma. -/
theorem prune_readRecord_repeat : ∃ report after,
    prune defaultReach ⟨repeatScene, []⟩ = .ok report after ∧ after.buffer.lines.length = 6 ∧
      ∃ left vignette, Remains repeatScene repeatLocation.record after.buffer left ∧
        readRecord after.buffer { repeatLocation with record := left } = .ok vignette := by
  have pruned : prunedLines repeatScene = some ["const A = \x7b", "id: 'a',", "steps: [",
    "...NARRATOR('a'),", "],", "\x7d;"] := by decide +kernel
  have found : foundIn repeatScene = [repeatLocation] := by decide +kernel
  obtain ⟨report, after, ran, lines⟩ := prunedLines_eq_some pruned
  obtain ⟨survey, surveyed, listed⟩ := foundIn_eq found (by simp)
  obtain ⟨vignette, read⟩ := read_isOk (show
    (readRecord repeatScene repeatLocation).isOk = true by rw [readRecord_eq]; decide +kernel)
  have clear : StandsClear survey repeatLocation := by
    intro other member up
    rw [listed, List.mem_singleton] at member
    rw [member] at up
    exact absurd up (Nat.lt_irrefl _)
  have member : repeatLocation ∈ survey.found := by
    rw [listed]
    exact List.mem_singleton_self _
  obtain ⟨left, remains, ⟨steps, unresolved, read', -⟩, -⟩ :=
    prune_readRecord ran surveyed member clear laidOut_repeatScene read
  exact ⟨report, after, ran, by rw [lines]; rfl, left, _, remains, read'⟩

theorem Remains.spanLines_whole {first buffer : Buffer} {span left : Span}
    (remains : Remains first span buffer left) (start : span.start = 0)
    (stop : first.lines.length ≤ span.stop) : buffer.spanLines left = buffer.lines := by
  have above := remains.above
  have below := remains.below
  rw [start, List.take_zero, List.sublist_nil] at above
  rw [List.drop_eq_nil_of_le stop, List.sublist_nil, List.drop_eq_nil_iff] at below
  rw [Buffer.spanLines, List.take_of_length_le below]
  calc
    buffer.lines.drop left.start =
        buffer.lines.take left.start ++ buffer.lines.drop left.start := by
      rw [above, List.nil_append]
    _ = buffer.lines := List.take_append_drop _ _

theorem not_readRecord {buffer : Buffer} {left : Span} {lines : List String}
    (whole : buffer.spanLines left = lines)
    (unread : (readCharacters ((joined lines).dropWhile (· != '\x7b'))).isOk = false) :
    readRecord buffer { location with record := left } ≠ .ok vignette := by
  intro read
  obtain ⟨value, ⟨-, reads⟩, -⟩ := readRecord_iff.mp read
  rw [Buffer.spanText, whole, readLiteral_join] at reads
  rw [reads] at unread
  cases unread

def longCallScene : Buffer := ⟨["const A = \x7b", "id: 'a',", "steps: [", "...NARRATOR(",
  "'a'),", "...NARRATOR(", "'a'),", "],", "\x7d;"], []⟩

def longCallLocation : Location := ⟨"a", 1, ⟨0, 9, 0⟩, some ⟨2, 8, 0⟩⟩

/-- Where a call goes on behind its first line, only that line is taken. -/
theorem prune_unreadable_longCall : ∃ report after survey vignette,
    prune defaultReach ⟨longCallScene, []⟩ = .ok report after ∧
      findAll longCallScene = .ok survey ∧ longCallLocation ∈ survey.found ∧
      readRecord longCallScene longCallLocation = .ok vignette ∧
      ∀ left vignette', Remains longCallScene longCallLocation.record after.buffer left →
        readRecord after.buffer { longCallLocation with record := left } ≠ .ok vignette' := by
  have pruned : prunedLines longCallScene = some ["const A = \x7b", "id: 'a',", "steps: [",
    "...NARRATOR(", "'a'),", "'a'),", "],", "\x7d;"] := by decide +kernel
  have found : foundIn longCallScene = [longCallLocation] := by decide +kernel
  obtain ⟨report, after, ran, lines⟩ := prunedLines_eq_some pruned
  obtain ⟨survey, surveyed, listed⟩ := foundIn_eq found (by simp)
  obtain ⟨vignette, read⟩ := read_isOk (show
    (readRecord longCallScene longCallLocation).isOk = true by rw [readRecord_eq]; decide +kernel)
  refine ⟨report, after, survey, vignette, ran, surveyed, by rw [listed]; simp, read, ?_⟩
  intro left vignette' remains read'
  have whole := remains.spanLines_whole rfl (show longCallScene.lines.length ≤ 9 by decide)
  rw [lines] at whole
  exact not_readRecord whole (by decide +kernel) read'

def crossedScene : Buffer := ⟨["const A = \x7b", "id: 'a',", "steps: [", "pose = \x7b",
  "stance:", "\x7b parallel: [\x7b anim: 'Idle_A' \x7d] \x7d,", "// ]\x7d\x7d",
  "id: 'b',", "steps: [", "] \x7d // \x7b\x7b"], []⟩

def crossedLocation : Location := ⟨"b", 7, ⟨3, 10, 0⟩, some ⟨8, 10, 0⟩⟩

def crossedLayout : Layout where
  head := ["pose = \x7b", "stance:", "\x7b parallel: [\x7b anim: 'Idle_A' \x7d] \x7d,",
    "// ]\x7d\x7d", "id: 'b',", "steps: ["]
  paragraphs := []
  tail := ["] \x7d // \x7b\x7b"]

theorem laidOut_crossedScene : LaidOut crossedScene crossedLocation crossedLayout where
  readable := ⟨by decide +kernel, by decide +kernel, by decide +kernel⟩
  opens := by decide +kernel
  solid := by
    intro paragraph member
    cases member
  lines := by decide +kernel
  steps := by decide +kernel

/-- A record that starts among the steps of the one above loses what a pass takes from those. -/
theorem prune_unreadable_crossed : ∃ report after survey vignette,
    prune defaultReach ⟨crossedScene, []⟩ = .ok report after ∧
      findAll crossedScene = .ok survey ∧ crossedLocation ∈ survey.found ∧
      LaidOut crossedScene crossedLocation crossedLayout ∧
      readRecord crossedScene crossedLocation = .ok vignette ∧
      ∀ left vignette', Remains crossedScene crossedLocation.record after.buffer left →
        readRecord after.buffer { crossedLocation with record := left } ≠ .ok vignette' := by
  have pruned : prunedLines crossedScene = some (crossedScene.lines.eraseIdx 5) := by decide +kernel
  have found : foundIn crossedScene = [⟨"a", 1, ⟨0, 7, 0⟩, some ⟨2, 7, 0⟩⟩, crossedLocation] := by
    decide +kernel
  obtain ⟨report, after, ran, lines⟩ := prunedLines_eq_some pruned
  obtain ⟨survey, surveyed, listed⟩ := foundIn_eq found (by simp)
  obtain ⟨vignette, read⟩ := read_isOk (show
    (readRecord crossedScene crossedLocation).isOk = true by rw [readRecord_eq]; decide +kernel)
  refine ⟨report, after, survey, vignette, ran, surveyed, by rw [listed]; simp,
    laidOut_crossedScene, read, ?_⟩
  intro left vignette' remains read'
  have size : after.buffer.lines.length = 9 := by rw [lines]; rfl
  have below := remains.below
  rw [show crossedScene.lines.drop crossedLocation.record.stop = [] from rfl, List.sublist_nil,
    List.drop_eq_nil_iff] at below
  have whole : after.buffer.spanLines left = (crossedScene.lines.eraseIdx 5).drop left.start := by
    rw [Buffer.spanLines, List.take_of_length_le below, lines]
  have above : (after.buffer.lines.take left.start).length ≤ 3 := remains.above.length_le
  rw [List.length_take, size] at above
  have inside : (after.buffer.spanLines left).length ≤ 7 := remains.inside.length_le
  rw [whole, List.length_drop, ← lines, size] at inside
  -- the text is read from its first brace, so the line above makes no difference
  rcases (show left.start = 2 ∨ left.start = 3 by omega) with start | start
  · rw [start] at whole
    exact not_readRecord whole (by decide +kernel) read'
  · rw [start] at whole
    exact not_readRecord whole (by decide +kernel) read'

end Stagecraft
