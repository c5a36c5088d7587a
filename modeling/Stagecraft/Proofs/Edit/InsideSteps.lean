import Mathlib.Data.List.Pairwise
import Stagecraft.Proofs.Edit.Passes
import Stagecraft.Proofs.Record.Layout

/-!
Pruning only deletes, and only strictly inside steps. Every line has the number it had at first, so
what is left is known line by line. After each pass the spans of its record are good and start and
end on the lines they started and ended on at first, and the removals that are counted are the
deletions that were made.
-/

namespace Stagecraft

variable {reach : Int} {site : Site} {buffer first : Buffer} {old new span record steps : Span}
  {cuts : List Span} {location : Location} {locations : List Location} {number : Nat}
  {numbers : List Nat} {start stop index : Nat}

section Cut

variable {α : Type} {lines : List α} {line : α}

theorem getElem?_cutLines_above (inside : start ≤ lines.length) (above : index < start) :
    (cutLines start stop lines)[index]? = lines[index]? := by
  rw [cutLines, List.getElem?_append_left (by rw [List.length_take]; omega),
    List.getElem?_take_of_lt above]

theorem getElem?_cutLines_below (inside : start ≤ lines.length) (forward : start ≤ stop)
    (below : stop ≤ index) :
    (cutLines start stop lines)[index - (stop - start)]? = lines[index]? := by
  have front : (lines.take start).length = start := List.length_take_of_le inside
  rw [cutLines, List.getElem?_append_right (by omega), front, List.getElem?_drop]
  congr 1
  omega

/-- What a cut takes stood in its span. -/
theorem exists_of_not_mem_cutLines (present : line ∈ lines)
    (gone : line ∉ cutLines start stop lines) :
    ∃ place, start ≤ place ∧ place < stop ∧ lines[place]? = some line := by
  obtain ⟨place, inside, found⟩ := List.mem_iff_getElem.mp present
  have known : lines[place]? = some line := by rw [List.getElem?_eq_getElem inside, found]
  rw [cutLines, List.mem_append, not_or] at gone
  obtain ⟨above, below⟩ := gone
  refine ⟨place, ?_, ?_, known⟩
  · by_contra low
    apply above
    exact List.mem_iff_getElem?.mpr ⟨place, by rw [List.getElem?_take_of_lt (by omega), known]⟩
  · by_contra high
    apply below
    refine List.mem_iff_getElem?.mpr ⟨place - stop, ?_⟩
    rw [List.getElem?_drop, Nat.add_sub_cancel' (by omega), known]

/-- Cuts that all lie behind a place leave the lines above it. -/
theorem take_cutEach {place : Nat} (inside : place ≤ lines.length)
    (behind : ∀ cut ∈ cuts, place ≤ cut.start) :
    (cutEach cuts lines).take place = lines.take place := by
  induction cuts generalizing lines with
  | nil => rfl
  | cons cut cuts ih =>
    have low : place ≤ cut.start := behind cut (by simp)
    have size : place ≤ (lines.take cut.start).length := by
      rw [List.length_take]
      omega
    have same : (cutLines cut.start cut.stop lines).take place = lines.take place := by
      rw [cutLines, List.take_append_of_le_length size, List.take_take, Nat.min_eq_left low]
    have inside' : place ≤ (cutLines cut.start cut.stop lines).length := by
      rw [cutLines, List.length_append]
      omega
    calc
      (cutEach (cut :: cuts) lines).take place =
          (cutLines cut.start cut.stop lines).take place :=
        ih inside' fun other member => behind other (List.mem_cons_of_mem _ member)
      _ = lines.take place := same

end Cut

/-- The lines that are left, by the numbers they had at first. -/
def Buffer.numbersLeft (first : Buffer) (cuts : List Span) : List Nat :=
  cutEach cuts (List.range first.lines.length)

theorem Buffer.numbersLeft_append (first : Buffer) (cuts more : List Span) :
    first.numbersLeft (cuts ++ more) = cutEach more (first.numbersLeft cuts) :=
  cutEach_append cuts more _

theorem Buffer.map_lineAt_range (first : Buffer) :
    (List.range first.lines.length).map (lineAt first) = first.lines := by
  apply List.ext_getElem
  · simp
  · intro place _ inside
    simp [lineAt, Buffer.line?, List.getElem?_eq_getElem inside]

theorem Buffer.lines_eq_numbersLeft (first : Buffer) (cuts : List Span) :
    (first.deleteEach cuts).lines = (first.numbersLeft cuts).map (lineAt first) := by
  rw [Buffer.lines_deleteEach, numbersLeft, cutEach_map, map_lineAt_range]

/-- Where a span has come to, it starts and ends on the lines it started and ended on. -/
structure SameEnds (numbers : List Nat) (old new : Span) : Prop where
  order : new.start < new.stop
  start : numbers[new.start]? = some old.start
  stop : numbers[new.stop - 1]? = some (old.stop - 1)

theorem SameEnds.cut (ends : SameEnds numbers old new) (forward : span.start < span.stop)
    (low : new.start < span.start) (high : span.stop + 1 ≤ new.stop) (revision : Nat) :
    SameEnds (cutLines span.start span.stop numbers) old
      (new.afterDelete span.start span.stop revision) := by
  obtain ⟨order, start, stop⟩ := ends
  have size : new.stop - 1 < numbers.length := (List.getElem?_eq_some_iff.mp stop).1
  obtain ⟨above, below⟩ :=
    Span.afterDelete_inside (Nat.le_of_lt low) forward (Nat.le_of_succ_le high) revision
  constructor
  · rw [above, below]
    omega
  · rw [above, getElem?_cutLines_above (by omega) low, start]
  · have place : new.stop - (span.stop - span.start) - 1 =
        new.stop - 1 - (span.stop - span.start) := by omega
    rw [below, place, getElem?_cutLines_below (by omega) (by omega) (by omega), stop]

theorem lt_of_pairwise {low high first last : Nat} (sorted : numbers.Pairwise (· < ·))
    (one : numbers[low]? = some first) (other : numbers[high]? = some last) (order : low < high) :
    first < last := by
  obtain ⟨inside, rfl⟩ := List.getElem?_eq_some_iff.mp one
  obtain ⟨inside', rfl⟩ := List.getElem?_eq_some_iff.mp other
  exact List.pairwise_iff_getElem.mp sorted low high inside inside' order

/-- The line stands strictly between the opening and the closing line of the steps. -/
def Location.HasInside (location : Location) (number : Nat) : Prop :=
  ∃ steps, location.steps = some steps ∧ steps.start < number ∧ number + 1 < steps.stop

/-- How far a run has come: the lines are those that the deletions leave, and all that is missing
stood inside the steps of one of the records. -/
structure Course (first : Buffer) (locations : List Location) (cuts : List Span)
    (buffer : Buffer) : Prop where
  made : buffer = first.deleteEach cuts
  fewer : (first.numbersLeft cuts).length + cuts.length ≤ first.lines.length
  order : (first.numbersLeft cuts).Sublist (List.range first.lines.length)
  missing : ∀ number < first.lines.length, number ∉ first.numbersLeft cuts →
    ∃ location ∈ locations, location.HasInside number

theorem Course.begin (first : Buffer) (locations : List Location) :
    Course first locations [] first where
  made := rfl
  fewer := by simp [Buffer.numbersLeft, cutEach]
  order := .refl _
  missing := fun number low gone => absurd (List.mem_range.mpr low) gone

theorem Course.sorted (course : Course first locations cuts buffer) :
    (first.numbersLeft cuts).Pairwise (· < ·) :=
  List.pairwise_lt_range.sublist course.order

/-- The same while the passes are at one of the records, which stands where it did. -/
structure Visit (first : Buffer) (locations : List Location) (record steps : Span)
    (cuts : List Span) (site : Site) : Prop where
  course : Course first locations cuts site.buffer
  valid : site.Valid
  record : SameEnds (first.numbersLeft cuts) record site.record
  steps : SameEnds (first.numbersLeft cuts) steps site.steps
  inside : site.record.start ≤ site.steps.start ∧ site.steps.stop ≤ site.record.stop

theorem Visit.cut (visit : Visit first locations record steps cuts site)
    (listed : location ∈ locations) (stepped : location.steps = some steps)
    (inner : site.Inner span) :
    Visit first locations record steps (cuts ++ [span]) (site.cut span.start span.stop) := by
  obtain ⟨low, forward, high⟩ := inner
  obtain ⟨start, stop⟩ := visit.inside
  have left : first.numbersLeft (cuts ++ [span]) =
      cutLines span.start span.stop (first.numbersLeft cuts) := first.numbersLeft_append cuts [span]
  have size : site.steps.stop - 1 < (first.numbersLeft cuts).length :=
    (List.getElem?_eq_some_iff.mp visit.steps.stop).1
  have ends := visit.steps
  have part := cutLines_sublist (Nat.le_of_lt forward) (first.numbersLeft cuts)
  refine ⟨⟨?_, ?_, ?_, ?_⟩, Site.Valid.cut .., ?_, ?_, ?_, ?_⟩
  · rw [Buffer.deleteEach_append, ← visit.course.made]
    rfl
  · have count := visit.course.fewer
    rw [left, length_cutLines forward, Span.shiftBack, if_pos (by omega), List.length_append,
      List.length_singleton]
    omega
  · rw [left]
    exact part.trans visit.course.order
  · intro number below gone
    rw [left] at gone
    by_cases present : number ∈ first.numbersLeft cuts
    · obtain ⟨place, above, behind, found⟩ :=
        exists_of_not_mem_cutLines present gone
      have sorted := visit.course.sorted
      have after := lt_of_pairwise sorted ends.start found (by omega)
      have before := lt_of_pairwise sorted found ends.stop (by omega)
      exact ⟨location, listed, steps, stepped, after, by omega⟩
    · exact visit.course.missing number below present
  · rw [left]
    exact visit.record.cut forward (by omega) (by omega) _
  · rw [left]
    exact ends.cut forward low high _
  · exact Span.shiftBack_mono forward start
  · exact Span.shiftBack_mono forward stop

/-- A record that is still good stands where it did, so its steps do. -/
theorem Course.visit (course : Course first locations cuts buffer)
    (located : locateAt first location.id location.idLine = .ok location)
    (stepped : location.steps = some steps) (valid : buffer.isValid location.record = true) :
    Visit first locations location.record steps cuts ⟨buffer, location.record, steps⟩ := by
  obtain ⟨current, ends, spans⟩ := locateAt_spans located
  obtain ⟨-, inside⟩ := spans steps stepped
  obtain ⟨order, opens⟩ := locateAt_order located
  obtain ⟨start, order'⟩ := opens steps stepped
  have above : ∀ cut ∈ cuts, location.record.stop ≤ cut.start := by
    rw [course.made, Buffer.isValid_deleteEach (Nat.le_of_eq current)] at valid
    exact valid.2
  have still {place : Nat} (low : place < location.record.stop) :
      (first.numbersLeft cuts)[place]? = some place := by
    have size : location.record.stop ≤ (List.range first.lines.length).length := by
      rwa [List.length_range]
    have same := take_cutEach size above
    calc
      (first.numbersLeft cuts)[place]? =
          ((first.numbersLeft cuts).take location.record.stop)[place]? := by
        rw [List.getElem?_take_of_lt low]
      _ = ((List.range first.lines.length).take location.record.stop)[place]? := by
        rw [Buffer.numbersLeft, same]
      _ = some place := by
        rw [List.getElem?_take_of_lt low, List.getElem?_range (by omega)]
  have nested : location.Nested := nested_of_located located
  have whole {span : Span} (order : span.start < span.stop)
      (inside : span.stop ≤ location.record.stop) : SameEnds (first.numbersLeft cuts) span span :=
    ⟨order, still (by omega), still (by omega)⟩
  constructor
  · exact course
  · exact nested.valid stepped valid
  · exact whole order (Nat.le_refl _)
  · exact whole order' inside
  · exact ⟨start, inside⟩

section Run

variable {site after : Site} {passes : List Pass} {taken : List (Pass × List Span)}
  {rounds : Taken} {last : Buffer} {pass : Pass} {count : Nat} {counts : List Nat}

theorem Passes.visit (ran : Passes reach passes site taken after) (listed : location ∈ locations)
    (stepped : location.steps = some steps)
    (visit : Visit first locations record steps cuts site) :
    Visit first locations record steps (cuts ++ cutsOf taken) after :=
  ran.keeps (fun held inner => held.cut listed stepped inner) visit

/-- What holds all the way down a run over records. -/
theorem Rounds.course {all : List Location} (ran : Rounds reach locations buffer rounds last)
    (listed : ∀ location ∈ locations, location ∈ all ∧
      locateAt first location.id location.idLine = .ok location)
    (course : Course first all cuts buffer) : Course first all (cuts ++ rounds.cuts) last := by
  induction ran generalizing cuts with
  | done =>
    rw [Taken.cuts, List.flatMap_nil, List.append_nil]
    exact course
  | @next location locations buffer last steps taken after rounds stepped valid passes _ ih =>
    obtain ⟨member, located⟩ := listed location (by simp)
    have visit := passes.visit member stepped (course.visit located stepped valid)
    have rest := ih (fun other present => listed other (List.mem_cons_of_mem _ present)) visit.course
    rwa [List.append_assoc] at rest

/-- One pass on its own. -/
theorem Pass.run_visit (ran : pass.run reach site = .ok count after)
    (listed : location ∈ locations) (stepped : location.steps = some steps)
    (visit : Visit first locations record steps cuts site) :
    ∃ more, Visit first locations record steps (cuts ++ more) after := by
  obtain ⟨spans, picks, apart, -, rfl⟩ := (Pass.run_ran_iff visit.valid).mp ran
  have passes : Passes reach [pass] site [(pass, spans)] (site.cutEach spans.reverse) :=
    .takes picks apart .done
  exact ⟨_, passes.visit listed stepped visit⟩

/-- Any passes, one after the other. -/
theorem visit_of_mapM (ran : passes.mapM (Pass.run reach) site = .ok counts after)
    (listed : location ∈ locations) (stepped : location.steps = some steps)
    (visit : Visit first locations record steps cuts site) :
    ∃ more, Visit first locations record steps more after := by
  induction passes generalizing cuts site counts with
  | nil =>
    rw [List.mapM_nil] at ran
    obtain ⟨-, rfl⟩ := pure_ran.mp ran
    exact ⟨cuts, visit⟩
  | cons pass passes ih =>
    rw [List.mapM_cons] at ran
    obtain ⟨count, middle, here, ran'⟩ := bind_ran.mp ran
    obtain ⟨others, _, behind, ends⟩ := bind_ran.mp ran'
    obtain ⟨-, rfl⟩ := pure_ran.mp ends
    obtain ⟨more, next⟩ := Pass.run_visit here listed stepped visit
    exact ih behind next

end Run

section Text

variable {lines fewer : List String}

theorem length_fed (part : fewer.Sublist lines) :
    (fed fewer).length + lines.length ≤ (fed lines).length + fewer.length := by
  induction part with
  | slnil => simp
  | cons line _ ih =>
    simp only [fed, List.flatMap_cons, List.length_append, List.length_cons] at ih ⊢
    omega
  | cons_cons line _ ih =>
    simp only [fed, List.flatMap_cons, List.length_append, List.length_cons] at ih ⊢
    omega

theorem toList_join_feed (filled : lines ≠ []) :
    (join "\n" lines).toList ++ ['\n'] = fed lines := by
  obtain ⟨init, last, rfl⟩ := (List.eq_nil_or_concat lines).resolve_left filled
  rw [List.concat_eq_append, toList_join_append (by simp), fed_append]
  simp [join, fed]

/-- A text without some of its lines is another text, as long as a line is left. -/
theorem join_ne (part : fewer.Sublist lines) (filled : fewer ≠ [])
    (short : fewer.length < lines.length) : join "\n" fewer ≠ join "\n" lines := by
  intro same
  have filled' : lines ≠ [] := by
    intro none
    rw [none] at short
    exact absurd short (Nat.not_lt_zero _)
  have size := length_fed part
  rw [← toList_join_feed filled, ← toList_join_feed filled', same] at size
  omega

end Text

section Prune

variable {bench after : Bench} {report : PruneReport}

/-- A line that is missing stood inside steps, so it was not the first one. -/
theorem Course.zero_left (course : Course first locations cuts buffer)
    (filled : 0 < first.lines.length) : 0 ∈ first.numbersLeft cuts := by
  by_contra gone
  obtain ⟨location, -, steps, -, low, -⟩ := course.missing 0 filled gone
  exact absurd low (Nat.not_lt_zero _)

theorem Course.text_eq_iff (course : Course first locations cuts buffer) :
    cuts.length = 0 ↔ buffer.text = first.text := by
  constructor
  · intro none
    rw [course.made, List.length_eq_zero_iff.mp none]
    rfl
  · intro same
    by_contra some
    have size := course.fewer
    have lines : buffer.lines = (first.numbersLeft cuts).map (lineAt first) := by
      rw [course.made, Buffer.lines_eq_numbersLeft]
    have left := course.zero_left (by omega)
    have part : buffer.lines.Sublist first.lines := by
      rw [lines, ← Buffer.map_lineAt_range first]
      exact course.order.map _
    apply join_ne part _ _ same
    · intro none
      rw [lines, List.map_eq_nil_iff] at none
      rw [none] at left
      cases left
    · rw [lines, List.length_map]
      omega

/-- Pruning only deletes, and only strictly inside the steps of the records. -/
theorem prune_inside_steps (ran : prune reach bench = .ok report after) :
    ∃ survey cuts, findAll bench.buffer = .ok survey ∧
      after.buffer = bench.buffer.deleteEach cuts ∧ report.total = cuts.length ∧
      after.buffer.lines = (bench.buffer.numbersLeft cuts).map (lineAt bench.buffer) ∧
      (bench.buffer.numbersLeft cuts).Sublist (List.range bench.buffer.lines.length) ∧
      after.buffer.lines.Sublist bench.buffer.lines ∧
      (∀ number < bench.buffer.lines.length, number ∉ bench.buffer.numbersLeft cuts →
        ∃ location ∈ survey.found, location.HasInside number) ∧
      after.buffer.revision = bench.buffer.revision + report.total ∧
      (report.total = 0 ↔ after.buffer.text = bench.buffer.text) ∧
      -- every stage: the records below are done, and some passes ran at this one
      ∀ above location below, survey.found.reverse = above ++ location :: below →
        ∃ before middle steps here place, pruneEach reach above bench = .ok before middle ∧
          location.steps = some steps ∧
          runPasses reach location Pass.all middle = .ok here place ∧
          ∀ (early late : List Pass) (counts : List Nat) (site : Site), Pass.all = early ++ late →
            early.mapM (Pass.run reach) ⟨middle.buffer, location.record, steps⟩ =
              .ok counts site →
            site.Valid ∧
            (∃ log others, runPasses reach
              { location with record := site.record, steps := some site.steps } late
              ⟨site.buffer, log⟩ = .ok others place) ∧
            ∃ cuts, site.buffer = bench.buffer.deleteEach cuts ∧
              SameEnds (bench.buffer.numbersLeft cuts) location.record site.record ∧
              SameEnds (bench.buffer.numbersLeft cuts) steps site.steps := by
  obtain ⟨survey, rounds, surveyed, rest, counts⟩ := rounds_of_prune ran
  have listed := listed_of_findAll surveyed
  have start := Course.begin bench.buffer survey.found
  have course := rest.course listed start
  rw [List.nil_append] at course
  have total : report.total = rounds.cuts.length := by
    rw [PruneReport.total, counts, sumOf_counts]
  have part : after.buffer.lines.Sublist bench.buffer.lines := by
    rw [course.made, Buffer.lines_eq_numbersLeft, ← Buffer.map_lineAt_range bench.buffer]
    exact course.order.map _
  refine ⟨survey, rounds.cuts, surveyed, course.made, total, ?_, course.order, part,
    course.missing, ?_, ?_, ?_⟩
  · rw [course.made, Buffer.lines_eq_numbersLeft]
  · rw [course.made, total, Buffer.revision, Buffer.edits_deleteEach, List.length_append,
      List.length_map, Buffer.revision]
  · rw [total]
    exact course.text_eq_iff
  · intro above location below split
    obtain ⟨others, ran', -⟩ := prune_ran ran surveyed
    rw [split] at ran' rest listed
    obtain ⟨before, _, middle, first, second⟩ := pruneEach_append_ran ran'
    obtain ⟨valid, report', place, _, here, -, -⟩ := pruneEach_cons_ran.mp second
    obtain ⟨steps, stepped⟩ := runPasses_steps here
    obtain ⟨member, located⟩ := listed location (by simp)
    have listed' : ∀ other ∈ above, other ∈ survey.found ∧
        locateAt bench.buffer other.id other.idLine = .ok other :=
      fun other present => listed other (List.mem_append_left _ present)
    obtain ⟨rounds', ran'', -⟩ := rounds_of_pruneEach
      (fun other present => nested_of_findAll surveyed other (listed' other present).1) first
    have visit := (ran''.course listed' start).visit located stepped valid
    refine ⟨before, middle, steps, report', place, first, stepped, here, ?_⟩
    intro early late counts site whole passed
    obtain ⟨cuts, visit'⟩ := visit_of_mapM passed member stepped visit
    have onward : ∃ log others, runPasses reach
        { location with record := site.record, steps := some site.steps } late
        ⟨site.buffer, log⟩ = .ok others place := by
      rw [whole] at here
      exact runPasses_of_mapM stepped passed here
    exact ⟨visit'.valid, onward, cuts, visit'.course.made, visit'.record, visit'.steps⟩

def shakenScene : Buffer := ⟨["const A = \x7b", "id: 'a',", "steps: [", "...CELEBRATION(['a']),",
  "...CROWD_CHEER(),", "\x7b", "anim: 'Idle_A'", "\x7d,", "],", "\x7d;", "const B = \x7b",
  "id: 'b',", "steps: [", "...NARRATOR('x'),", "...NARRATOR('x'),", "],", "\x7d;"], []⟩

/-- Two records lose a block and a line, and a line. -/
theorem prune_inside_steps_shaken : ∃ report after,
    prune defaultReach ⟨shakenScene, []⟩ = .ok report after ∧ report.total ≠ 0 ∧
      after.buffer.lines.Sublist shakenScene.lines ∧ after.buffer.lines.length = 12 := by
  have pruned : prunedLines shakenScene = some ["const A = \x7b", "id: 'a',", "steps: [",
    "...CELEBRATION(['a']),", "],", "\x7d;", "const B = \x7b", "id: 'b',", "steps: [",
    "...NARRATOR('x'),", "],", "\x7d;"] := by decide +kernel
  obtain ⟨report, after, ran, lines⟩ := prunedLines_eq_some pruned
  obtain ⟨_, _, -, -, -, -, -, part, -, -, same, -⟩ := prune_inside_steps ran
  have shorter : after.buffer.text ≠ shakenScene.text := by
    rw [Buffer.text, lines]
    decide +kernel
  exact ⟨report, after, ran, fun none => shorter (same.mp none), part, by rw [lines]; rfl⟩

end Prune

end Stagecraft
