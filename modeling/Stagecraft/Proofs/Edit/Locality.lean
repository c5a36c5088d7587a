import Stagecraft.Proofs.Edit.Embedding
import Stagecraft.Proofs.Edit.InsideSteps

/-!
Pruning works record by record. Where the records of a file are apart, each of them is left as the
passes leave it when it stands alone, and the lines around them stay. No record depends on another,
nor on which of them comes first.
-/

namespace Stagecraft

variable {reach : Int} {bench after : Bench} {report : PruneReport} {survey : Survey}
  {buffer first : Buffer} {location : Location} {locations found done : List Location}
  {steps : Span} {cuts : List Span}

/-- A span in the lines from `origin` on, in a buffer that was never edited. -/
def Span.rebased (origin : Nat) (span : Span) : Span :=
  ⟨span.start - origin, span.stop - origin, 0⟩

/-- A location in the lines of its record. -/
def Location.rebased (location : Location) : Location where
  id := location.id
  idLine := location.idLine - location.record.start
  record := location.record.rebased location.record.start
  steps := location.steps.map (·.rebased location.record.start)

/-- The passes at a record in a buffer that holds nothing else. -/
def pruneAlone (reach : Int) (buffer : Buffer) (location : Location) :
    EStateM.Result Fault Bench PruneReport :=
  runPasses reach location.rebased Pass.all ⟨⟨buffer.spanLines location.record, []⟩, []⟩

def aloneReport (reach : Int) (buffer : Buffer) (location : Location) : PruneReport :=
  match pruneAlone reach buffer location with
  | .ok report _ => report
  | .error _ _ => ⟨[], []⟩

/-- What the passes leave of the record. -/
def aloneLines (reach : Int) (buffer : Buffer) (location : Location) : List String :=
  match pruneAlone reach buffer location with
  | .ok _ last => last.buffer.lines
  | .error _ last => last.buffer.lines

/-- The passes get through at the record alone. -/
def PrunesAlone (reach : Int) (buffer : Buffer) (location : Location) : Prop :=
  ∃ last, pruneAlone reach buffer location = .ok (aloneReport reach buffer location) last ∧
    last.buffer.lines = aloneLines reach buffer location

/-- The lines from `start` up to `stop`, with other lines in the place of each span. -/
def replaceSpans (lines : List String) (start stop : Nat) :
    List (Span × List String) → List String
  | [] => (lines.take stop).drop start
  | (span, part) :: rest =>
    (lines.take span.start).drop start ++ part ++ replaceSpans lines span.stop stop rest

section Replace

variable {lines : List String} {start stop : Nat} {part : List String} {span : Span}

theorem replaceSpans_append (above below : List (Span × List String)) :
    replaceSpans lines start stop (above ++ (span, part) :: below) =
      replaceSpans lines start span.start above ++ part ++
        replaceSpans lines span.stop stop below := by
  induction above generalizing start with
  | nil => rfl
  | cons one above ih =>
    obtain ⟨other, own⟩ := one
    simp only [List.cons_append, replaceSpans, ih, List.append_assoc]

theorem drop_take_append {low middle high : Nat} (lower : low ≤ middle) (upper : middle ≤ high) :
    (lines.take middle).drop low ++ (lines.take high).drop middle = (lines.take high).drop low := by
  have whole := List.take_append_drop middle (lines.take high)
  rw [List.take_take, Nat.min_eq_left upper] at whole
  conv_rhs => rw [← whole]
  by_cases inside : low ≤ (lines.take middle).length
  · rw [List.drop_append_of_le_length inside]
  · have short : lines.length ≤ middle := by
      rw [List.length_take] at inside
      omega
    have none : (lines.take high).drop middle = [] :=
      List.drop_eq_nil_of_le (Nat.le_trans (by rw [List.length_take]; omega) short)
    rw [none, List.append_nil, List.append_nil]

/-- Spans that keep their own lines change nothing. -/
theorem replaceSpans_self (lines : List String) {spans : List Span} (order : start ≤ stop)
    (forward : ∀ span ∈ spans, start ≤ span.start ∧ span.start ≤ span.stop ∧ span.stop ≤ stop)
    (sorted : spans.Pairwise fun above below => above.stop ≤ below.start) :
    replaceSpans lines start stop
        (spans.map fun span => (span, (lines.take span.stop).drop span.start)) =
      (lines.take stop).drop start := by
  induction spans generalizing start with
  | nil => rfl
  | cons span spans ih =>
    obtain ⟨below, sorted⟩ := List.pairwise_cons.mp sorted
    obtain ⟨low, middle, high⟩ := forward span (by simp)
    have rest := ih high (fun other member =>
      ⟨below other member, (forward other (List.mem_cons_of_mem _ member)).2⟩) sorted
    rw [List.map_cons, replaceSpans, rest, drop_take_append low middle,
      drop_take_append (Nat.le_trans low middle) high]

end Replace

/-- The records with their lines by now: those that are done are left as they would be alone. -/
def pieces (reach : Int) (first : Buffer) (done locations : List Location) :
    List (Span × List String) :=
  locations.map fun location => (location.record,
    if location ∈ done then aloneLines reach first location else first.spanLines location.record)

/-- How far a run has come: the records that are done are as they would be alone, and in front of
the end of each of those that have changed there was a deletion. -/
structure Mosaic (reach : Int) (first : Buffer) (found done : List Location) (cuts : List Span)
    (buffer : Buffer) : Prop where
  made : buffer = first.deleteEach cuts
  lines : buffer.lines =
    replaceSpans first.lines 0 first.lines.length (pieces reach first done found)
  marked : ∀ location ∈ done, aloneLines reach first location = first.spanLines location.record ∨
    ∃ cut ∈ cuts, cut.start < location.record.stop

/-- The records were located in the buffer, one above the other. -/
structure Apart (first : Buffer) (found : List Location) : Prop where
  located : ∀ location ∈ found, locateAt first location.id location.idLine = .ok location
  sorted : found.Pairwise fun above below => above.record.stop ≤ below.record.start

theorem Apart.nodup (apart : Apart first found) : found.Nodup := by
  refine apart.sorted.imp_of_mem ?_
  intro above below member _ order same
  subst same
  have forward := (locateAt_order (apart.located above member)).1
  omega

theorem Apart.spans {stop : Nat} (apart : Apart first found)
    (within : ∀ location ∈ locations, location ∈ found ∧ location.record.stop ≤ stop) :
    ∀ span ∈ locations.map (·.record), 0 ≤ span.start ∧ span.start ≤ span.stop ∧
      span.stop ≤ stop := by
  intro span member
  obtain ⟨location, present, rfl⟩ := List.mem_map.mp member
  obtain ⟨listed, short⟩ := within location present
  have forward := (locateAt_order (apart.located location listed)).1
  exact ⟨Nat.zero_le _, Nat.le_of_lt forward, short⟩

/-- Pieces that are all as they were make up the lines as they were. -/
theorem replaceSpans_pieces {stop : Nat} (apart : Apart first found)
    (within : ∀ location ∈ locations, location ∈ found ∧ location.record.stop ≤ stop)
    (sorted : locations.Pairwise fun above below => above.record.stop ≤ below.record.start)
    (same : ∀ location ∈ locations, location ∈ done →
      aloneLines reach first location = first.spanLines location.record) :
    replaceSpans first.lines 0 stop (pieces reach first done locations) =
      first.lines.take stop := by
  have whole := replaceSpans_self first.lines (Nat.zero_le stop) (apart.spans within)
    (List.pairwise_map.mpr sorted)
  rw [List.map_map, List.drop_zero] at whole
  rw [← whole, pieces]
  congr 1
  apply List.map_congr_left
  intro location member
  have own : (if location ∈ done then aloneLines reach first location
      else first.spanLines location.record) = first.spanLines location.record := by
    split
    · next finished => exact same location member finished
    · rfl
  rw [own]
  rfl

theorem Mosaic.begin (apart : Apart first found) : Mosaic reach first found [] [] first where
  made := rfl
  lines := by
    have within : ∀ location ∈ found, location ∈ found ∧
        location.record.stop ≤ first.lines.length :=
      fun location member => ⟨member, (locateAt_spans (apart.located location member)).2.1⟩
    rw [replaceSpans_pieces apart within apart.sorted (by simp), List.take_length]
  marked := by simp

section Visit

variable {taken : List (Pass × List Span)} {site place : Site} {passes : List Pass}

/-- All that went started above a line, and the steps still end there or above. -/
def CutsAbove (bound : Nat) (cuts : List Span) (site : Site) : Prop :=
  (∀ cut ∈ cuts, cut.start < bound) ∧ site.steps.stop ≤ bound

theorem CutsAbove.cut {bound : Nat} {span : Span} (above : CutsAbove bound cuts site)
    (inner : site.Inner span) :
    CutsAbove bound (cuts ++ [span]) (site.cut span.start span.stop) := by
  obtain ⟨starts, ends⟩ := above
  obtain ⟨-, stop⟩ := inner.steps_cut
  obtain ⟨low, forward, high⟩ := inner
  constructor
  · intro cut member
    rcases List.mem_append.mp member with early | here
    · exact starts cut early
    · rw [List.mem_singleton.mp here]
      omega
  · omega

theorem Passes.cuts_above (ran : Passes reach passes site taken place) :
    ∀ cut ∈ cutsOf taken, cut.start < site.steps.stop := by
  have start : CutsAbove site.steps.stop [] site := ⟨by simp, Nat.le_refl _⟩
  have kept : CutsAbove site.steps.stop ([] ++ cutsOf taken) place :=
    ran.keeps (fun above inner => above.cut inner) start
  exact kept.1

/-- A record that is still good stands among the lines above it as they were and all that is left
below. -/
theorem Mosaic.around (mosaic : Mosaic reach first found done cuts buffer)
    (apart : Apart first found) {above below : List Location}
    (split : found = above ++ location :: below) (fresh : location ∉ done)
    (valid : buffer.isValid location.record = true) :
    replaceSpans first.lines 0 location.record.start (pieces reach first done above) =
        first.lines.take location.record.start ∧
      buffer.lines = first.lines.take location.record.start ++ first.spanLines location.record ++
        replaceSpans first.lines location.record.stop first.lines.length
          (pieces reach first done below) := by
  have member : location ∈ found := by
    rw [split]
    simp
  have sorted := apart.sorted
  rw [split, List.pairwise_append] at sorted
  obtain ⟨upper, -, between⟩ := sorted
  have current := (locateAt_spans (apart.located location member)).1
  have late : ∀ cut ∈ cuts, location.record.stop ≤ cut.start := by
    rw [mosaic.made, Buffer.isValid_deleteEach (Nat.le_of_eq current)] at valid
    exact valid.2
  have order := (locateAt_order (apart.located location member)).1
  -- a record above that had changed would have spoilt the span
  have same : ∀ other ∈ above, other ∈ done →
      aloneLines reach first other = first.spanLines other.record := by
    intro other present finished
    rcases mosaic.marked other finished with same | ⟨cut, made, low⟩
    · exact same
    · have high := late cut made
      have up := between other present location (by simp)
      omega
  have within : ∀ other ∈ above, other ∈ found ∧
      other.record.stop ≤ location.record.start := by
    intro other present
    refine ⟨?_, between other present location (by simp)⟩
    rw [split]
    exact List.mem_append_left _ present
  have top := replaceSpans_pieces apart within upper same
  refine ⟨top, ?_⟩
  have lines := mosaic.lines
  rw [split, pieces, List.map_append, List.map_cons, replaceSpans_append, if_neg fresh] at lines
  rw [lines]
  congr 2

/-- The passes at a record that stands as it did do what they do when it stands alone. -/
theorem Passes.prunesAlone {back : List String}
    (located : locateAt first location.id location.idLine = .ok location)
    (stepped : location.steps = some steps)
    (lines : buffer.lines =
      first.lines.take location.record.start ++ first.spanLines location.record ++ back)
    (ran : Passes reach Pass.all ⟨buffer, location.record, steps⟩ taken place) :
    PrunesAlone reach first location ∧
      (aloneReport reach first location).removed = countsOf taken ∧
      place.buffer.lines =
        first.lines.take location.record.start ++ aloneLines reach first location ++ back := by
  obtain ⟨-, ends, spans⟩ := locateAt_spans located
  obtain ⟨-, inside⟩ := spans steps stepped
  obtain ⟨order, opens⟩ := locateAt_order located
  obtain ⟨start, order'⟩ := opens steps stepped
  have front : (first.lines.take location.record.start).length = location.record.start :=
    List.length_take_of_le (by omega)
  have size := length_spanLines ends
  let alone : Site := ⟨⟨first.spanLines location.record, []⟩, location.rebased.record,
    steps.rebased location.record.start⟩
  have embedded : Embedded (first.lines.take location.record.start) back
      ⟨buffer, location.record, steps⟩ alone := by
    constructor
    · exact lines
    · simp only [alone, Span.rebased, front]
      omega
    · simp only [alone, Span.rebased, front]
      omega
    · simp only [alone, Span.rebased]
      omega
    · simp only [alone, Span.rebased, size]
      omega
  obtain ⟨own, last, ran', counts, embedded'⟩ := embedded.passes_alone ran
  have stepped' : location.rebased.steps = some alone.steps := by
    rw [Location.rebased, stepped, Option.map_some]
  have valid : alone.Valid := ⟨Buffer.isValid_of_current rfl, Buffer.isValid_of_current rfl⟩
  obtain ⟨report, bench, passed, same, removed⟩ :=
    @runPasses_of_passes reach last Pass.all location.rebased _ ⟨alone.buffer, []⟩ own stepped'
      valid ran'
  have known : pruneAlone reach first location = .ok report bench := passed
  have reported : aloneReport reach first location = report := by rw [aloneReport, known]
  have left : aloneLines reach first location = last.buffer.lines := by
    rw [aloneLines, known]
    simp only [same]
  refine ⟨⟨bench, by rw [reported, known], by rw [left, same]⟩, ?_, ?_⟩
  · rw [reported, removed, counts]
  · rw [left]
    exact embedded'.lines

theorem Mosaic.visit (mosaic : Mosaic reach first found done cuts buffer)
    (apart : Apart first found) (member : location ∈ found) (fresh : location ∉ done)
    (valid : buffer.isValid location.record = true) (stepped : location.steps = some steps)
    (ran : Passes reach Pass.all ⟨buffer, location.record, steps⟩ taken place) :
    PrunesAlone reach first location ∧
      (aloneReport reach first location).removed = countsOf taken ∧
      Mosaic reach first found (location :: done) (cuts ++ cutsOf taken) place.buffer := by
  obtain ⟨above, below, split⟩ := List.append_of_mem member
  obtain ⟨top, lines⟩ := mosaic.around apart split fresh valid
  have located := apart.located location member
  have inside := ((locateAt_spans located).2.2 steps stepped).2
  obtain ⟨prunes, counts, lines'⟩ := ran.prunesAlone located stepped lines
  refine ⟨prunes, counts, ?_, ?_, ?_⟩
  · rw [ran.after_eq, Site.buffer_cutEach, Buffer.deleteEach_append, ← mosaic.made]
  · have kept {others : List Location} (gone : location ∉ others) :
        pieces reach first (location :: done) others = pieces reach first done others := by
      apply List.map_congr_left
      intro other present
      have different : other ≠ location := fun same => gone (same ▸ present)
      simp only [List.mem_cons, different, false_or]
    have nodup := apart.nodup
    rw [split, List.nodup_append, List.nodup_cons] at nodup
    obtain ⟨-, ⟨gone, -⟩, distinct⟩ := nodup
    have gone' : location ∉ above := fun present => distinct location present location (by simp) rfl
    have whole : pieces reach first (location :: done) found =
        pieces reach first (location :: done) above ++
          (location.record, aloneLines reach first location) ::
            pieces reach first (location :: done) below := by
      rw [split, pieces, List.map_append, List.map_cons, if_pos List.mem_cons_self]
      rfl
    rw [whole, replaceSpans_append, kept gone', kept gone, top, lines']
  · intro other finished
    rcases List.mem_cons.mp finished with rfl | early
    · cases none : cutsOf taken with
      | nil =>
        left
        have still : place.buffer.lines = buffer.lines := by
          rw [ran.after_eq, none]
          rfl
        rw [lines', lines] at still
        exact List.append_cancel_left (List.append_cancel_right still)
      | cons cut others =>
        right
        have low := ran.cuts_above cut (by rw [none]; simp)
        exact ⟨cut, by simp, Nat.lt_of_lt_of_le low inside⟩
    · rcases mosaic.marked other early with same | ⟨cut, made, low⟩
      · exact .inl same
      · exact .inr ⟨cut, List.mem_append_left _ made, low⟩

/-- The records may come in any order, as long as their spans are still good by then. -/
theorem Rounds.mosaic {order : List Location} {rounds : Taken} {last : Buffer}
    (ran : Rounds reach order buffer rounds last) (apart : Apart first found)
    (listed : ∀ location ∈ order, location ∈ found) (nodup : order.Nodup)
    (fresh : ∀ location ∈ order, location ∉ done)
    (mosaic : Mosaic reach first found done cuts buffer) :
    (∀ location ∈ order, PrunesAlone reach first location) ∧
      rounds.counts = order.flatMap (fun location => (aloneReport reach first location).removed) ∧
      Mosaic reach first found (order.reverse ++ done) (cuts ++ rounds.cuts) last := by
  induction ran generalizing done cuts with
  | @done buffer =>
    refine ⟨by simp, rfl, ?_⟩
    rw [Taken.cuts, List.flatMap_nil, List.append_nil]
    exact mosaic
  | @next location order buffer last steps taken after rounds stepped valid passes _ ih =>
    obtain ⟨unlisted, nodup⟩ := List.nodup_cons.mp nodup
    obtain ⟨prunes, counts, next⟩ := mosaic.visit apart (listed location (by simp))
      (fresh location (by simp)) valid stepped passes
    have fresh' : ∀ other ∈ order, other ∉ location :: done := by
      intro other member present
      rcases List.mem_cons.mp present with rfl | early
      · exact unlisted member
      · exact fresh other (List.mem_cons_of_mem _ member) early
    obtain ⟨others, counts', rest⟩ := ih
      (fun other member => listed other (List.mem_cons_of_mem _ member)) nodup fresh' next
    refine ⟨?_, ?_, ?_⟩
    · intro other member
      rcases List.mem_cons.mp member with rfl | later
      · exact prunes
      · exact others other later
    · rw [List.flatMap_cons, ← counts', counts]
      rfl
    · rw [List.reverse_cons, List.append_assoc, List.singleton_append]
      rw [List.append_assoc] at rest
      exact rest

end Visit

section Sums

variable {α : Type} {count : α → Nat}

theorem sumOf_flatMap {β : Type} (f : β → List α) (list : List β) :
    sumOf count (list.flatMap f) = sumOf (fun x => sumOf count (f x)) list := by
  induction list with
  | nil => rfl
  | cons x rest ih => rw [List.flatMap_cons, sumOf_append, ih, sumOf]

/-- What goes at records is the sum of what goes at each of them. -/
theorem sums_of_removed {order : List Location} {own : Location → PruneReport}
    (removed : report.removed = order.flatMap fun location => (own location).removed)
    (same : order.Perm found) :
    (∀ pass, report.count pass = sumOf (fun location => (own location).count pass) found) ∧
      report.total = sumOf (fun location => (own location).total) found := by
  constructor
  · intro pass
    rw [PruneReport.count, removed, List.filter_flatMap, sumOf_flatMap, sumOf_perm same]
    rfl
  · rw [PruneReport.total, removed, sumOf_flatMap, sumOf_perm same]
    rfl

end Sums

/-- No two of the records have a line in common. -/
def Disjoint (found : List Location) : Prop :=
  found.Pairwise fun one other =>
    one.record.stop ≤ other.record.start ∨ other.record.stop ≤ one.record.start

theorem apart_of_findAll (surveyed : findAll buffer = .ok survey)
    (disjoint : Disjoint survey.found) : Apart buffer survey.found := by
  obtain ⟨found, order⟩ := surveyFrom_found surveyed
  refine ⟨fun location member => (found location member).1.1, ?_⟩
  refine (disjoint.and order).imp_of_mem ?_
  intro above below member member' ⟨free, down⟩
  rcases free with lower | upper
  · exact lower
  · have here := (found above member).1
    have there := (found below member').1
    have start := (locateAt_order here.1).1
    have inside := there.2
    omega

/-- The passes at all the records in some order. -/
theorem pruneEach_local {order : List Location} (surveyed : findAll bench.buffer = .ok survey)
    (disjoint : Disjoint survey.found) (same : order.Perm survey.found)
    (ran : pruneEach reach order bench = .ok report after) :
    (∀ location ∈ survey.found, PrunesAlone reach bench.buffer location) ∧
      after.buffer.lines = replaceSpans bench.buffer.lines 0 bench.buffer.lines.length
        (survey.found.map fun location =>
          (location.record, aloneLines reach bench.buffer location)) ∧
      (∀ pass, report.count pass =
        sumOf (fun location => (aloneReport reach bench.buffer location).count pass)
          survey.found) ∧
      report.total =
        sumOf (fun location => (aloneReport reach bench.buffer location).total) survey.found := by
  have apart := apart_of_findAll surveyed disjoint
  have nested := nested_of_findAll surveyed
  obtain ⟨rounds, rest, counts⟩ := rounds_of_pruneEach
    (fun location member => nested location (same.mem_iff.mp member)) ran
  obtain ⟨prunes, removed, mosaic⟩ := rest.mosaic apart (fun _ member => same.mem_iff.mp member)
    (same.nodup_iff.mpr apart.nodup) (fun _ _ => List.not_mem_nil) (Mosaic.begin apart)
  have finished : pieces reach bench.buffer (order.reverse ++ []) survey.found =
      survey.found.map fun location =>
        (location.record, aloneLines reach bench.buffer location) := by
    apply List.map_congr_left
    intro location member
    have present : location ∈ order.reverse ++ [] := by
      simpa using same.mem_iff.mpr member
    rw [if_pos present]
  have lines := mosaic.lines
  rw [finished] at lines
  exact ⟨fun location member => prunes location (same.mem_iff.mpr member), lines,
    sums_of_removed (counts.trans removed) same⟩

/-- Pruning is local to each record. Where the records are disjoint, each has its lines replaced by
what the passes leave of it alone, and what goes is the sum of what goes at each alone. Any other
order of the records that gets through comes to the same. -/
theorem prune_local (ran : prune reach bench = .ok report after)
    (surveyed : findAll bench.buffer = .ok survey) (disjoint : Disjoint survey.found) :
    (∀ location ∈ survey.found, PrunesAlone reach bench.buffer location) ∧
      after.buffer.lines = replaceSpans bench.buffer.lines 0 bench.buffer.lines.length
        (survey.found.map fun location =>
          (location.record, aloneLines reach bench.buffer location)) ∧
      (∀ pass, report.count pass =
        sumOf (fun location => (aloneReport reach bench.buffer location).count pass)
          survey.found) ∧
      report.total =
        sumOf (fun location => (aloneReport reach bench.buffer location).total) survey.found ∧
      ∀ order others last, order.Perm survey.found →
        pruneEach reach order bench = .ok others last →
          last.buffer.lines = after.buffer.lines ∧
            (∀ pass, others.count pass = report.count pass) ∧ others.total = report.total := by
  obtain ⟨each, ran', removed⟩ := prune_ran ran surveyed
  have bottomUp := pruneEach_local surveyed disjoint (List.reverse_perm _) ran'
  obtain ⟨prunes, lines, counts, total⟩ := bottomUp
  have counts' (pass : Pass) : report.count pass = each.count pass := by
    rw [PruneReport.count, PruneReport.count, removed]
  have total' : report.total = each.total := by
    rw [PruneReport.total, PruneReport.total, removed]
  refine ⟨prunes, lines, fun pass => (counts' pass).trans (counts pass), total'.trans total, ?_⟩
  intro order others last same ran''
  obtain ⟨-, lines'', counts'', total''⟩ := pruneEach_local surveyed disjoint same ran''
  refine ⟨lines''.trans lines.symm, ?_, ?_⟩
  · intro pass
    rw [counts'' pass, counts' pass, counts pass]
  · rw [total'', total', total]

/-- One record loses a block and a line, the other one a line. -/
theorem prune_local_shaken : ∃ report after survey,
    prune defaultReach ⟨shakenScene, []⟩ = .ok report after ∧
      findAll shakenScene = .ok survey ∧ Disjoint survey.found ∧ report.total = 3 ∧
      after.buffer.lines.length = 12 := by
  have pruned : prunedLines shakenScene = some ["const A = \x7b", "id: 'a',", "steps: [",
    "...CELEBRATION(['a']),", "],", "\x7d;", "const B = \x7b", "id: 'b',", "steps: [",
    "...NARRATOR('x'),", "],", "\x7d;"] := by decide +kernel
  have found : foundIn shakenScene = [⟨"a", 1, ⟨0, 10, 0⟩, some ⟨2, 9, 0⟩⟩,
    ⟨"b", 11, ⟨10, 17, 0⟩, some ⟨12, 16, 0⟩⟩] := by decide +kernel
  obtain ⟨report, after, ran, lines⟩ := prunedLines_eq_some pruned
  obtain ⟨survey, surveyed, listed⟩ := foundIn_eq found (by simp)
  have disjoint : Disjoint survey.found := by
    rw [listed, Disjoint]
    decide
  obtain ⟨-, -, -, total, -⟩ := prune_local ran surveyed disjoint
  refine ⟨report, after, survey, ran, surveyed, disjoint, ?_, by rw [lines]; rfl⟩
  rw [total, listed]
  decide +kernel

end Stagecraft
