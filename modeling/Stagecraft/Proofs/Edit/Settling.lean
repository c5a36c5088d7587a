import Stagecraft.Proofs.Edit.Balance
import Stagecraft.Proofs.Edit.Chains
import Stagecraft.Proofs.Edit.Staging

/-!
A record with its runs merged is at rest. The comments of a run and the call of its group hold no
entrance, count as much as the run and end with a line that is no filler, so each merge leaves the
runs above it to be found and no others, and after all of them there is none. The lines are those of
the patch that puts its merged lines in the place of each run, and the record and its steps start
and end on the lines where they did.
-/

namespace Stagecraft

variable {lines old : List String} {run : List Entrance} {runs : List (List Entrance)}
  {side : Side} {indent : String} {site after : Site} {span : Span} {start stop count : Nat}

section Calls

theorem groupCall_starts (blank : IsIndent indent) :
    ∃ rest, skipBlanks (groupCall side run indent).toList = '.' :: '.' :: '.' :: 'G' :: rest := by
  rw [toList_groupCall, skipBlanks_append blank]
  cases side with
  | left => exact ⟨_, rfl⟩
  | right => exact ⟨_, rfl⟩

theorem readEntrance?_groupCall (blank : IsIndent indent) :
    readEntrance? (groupCall side run indent) = none := by
  obtain ⟨rest, starts⟩ := @groupCall_starts run side indent blank
  have other : afterWord? "...ENTER_FROM_" ('.' :: '.' :: '.' :: 'G' :: rest) = none := rfl
  rw [readEntrance?, starts, other]
  rfl

theorem isFiller_groupCall (blank : IsIndent indent) :
    isFiller (groupCall side run indent) = false := by
  obtain ⟨rest, starts⟩ := @groupCall_starts run side indent blank
  rw [isFiller, Bool.or_eq_false_iff]
  constructor
  · cases empty : isBlankText (groupCall side run indent) with
    | false => rfl
    | true =>
      have none := List.dropWhile_eq_nil_iff.mpr (List.all_eq_true.mp empty)
      rw [← skipBlanks, starts] at none
      cases none
  · cases comment : isComment (groupCall side run indent) with
    | false => rfl
    | true =>
      obtain ⟨other, slashes⟩ := isComment_starts comment
      rw [starts] at slashes
      cases slashes

/-- What takes the place of a run ends with a line that is no filler, and holds no entrance. -/
theorem IsRun.mergedLines_idle (isRun : IsRun lines run) :
    (mergedLines lines run).getLast? = some (callOf lines run) ∧
      isFiller (callOf lines run) = false ∧
      ∀ line ∈ mergedLines lines run, readEntrance? line = none := by
  obtain ⟨first, others, rfl⟩ := List.exists_cons_of_ne_nil isRun.filled
  refine ⟨List.getLast?_concat, isFiller_groupCall (isIndent_indentOf _), ?_⟩
  intro line member
  rcases List.mem_append.mp member with comment | call
  · exact readEntrance?_filler (by rw [isFiller, (List.mem_filter.mp comment).2, Bool.or_true])
  · rw [List.mem_singleton.mp call]
    exact readEntrance?_groupCall (isIndent_indentOf _)

end Calls

section Sites

/-- The steps stand in the record and the record in the buffer, and neither span is out of date. -/
structure Site.Framed (site : Site) : Prop where
  valid : site.Valid
  above : site.record.start ≤ site.steps.start
  order : site.steps.start < site.steps.stop
  below : site.steps.stop ≤ site.record.stop
  inside : site.record.stop ≤ site.buffer.lines.length

/-- Where a record is found, its steps stand in it. -/
theorem Site.framed_of_located {buffer : Buffer} {location : Location} {id : String}
    {number : Nat} {steps : Span} (located : locateAt buffer id number = .ok location)
    (stepped : location.steps = some steps) :
    Site.Framed ⟨buffer, location.record, steps⟩ := by
  obtain ⟨current, inside, spans⟩ := locateAt_spans located
  obtain ⟨current', below⟩ := spans steps stepped
  obtain ⟨above, order⟩ := (locateAt_order located).2 steps stepped
  exact ⟨⟨Buffer.isValid_of_current current, Buffer.isValid_of_current current'⟩, above, order,
    below, inside⟩

/-- As many lines stand above the span as before, and as many below. -/
def SameMargins (old new : List String) (before after : Span) : Prop :=
  after.start = before.start ∧ after.stop + old.length = before.stop + new.length

theorem Span.exchanged {revision revision' : Nat} (low : span.start < start) (order : start < stop)
    (high : stop < span.stop) :
    (span.afterDelete start stop revision).afterInsert start count revision' =
      ⟨span.start, span.stop - (stop - start) + count, revision'⟩ := by
  obtain ⟨top, bottom⟩ :=
    Span.afterDelete_inside (Nat.le_of_lt low) order (Nat.le_of_lt high) revision
  simp only [afterInsert, top, bottom]
  rw [if_neg (by omega), if_pos (by omega)]

theorem SameMargins.refl (lines : List String) (span : Span) : SameMargins lines lines span span :=
  ⟨rfl, rfl⟩

theorem SameMargins.trans {new : List String} {before between behind : Span}
    (first : SameMargins old lines before between) (second : SameMargins lines new between behind) :
    SameMargins old new before behind := by
  obtain ⟨start, stop⟩ := first
  obtain ⟨start', stop'⟩ := second
  exact ⟨start'.trans start, by omega⟩

theorem Site.lines_merged (isRun : IsRun site.buffer.lines run) :
    (site.merged run).buffer.lines = site.buffer.lines.take (startOf run) ++
      mergedLines site.buffer.lines run ++ site.buffer.lines.drop (stopOf run) := by
  have whole := (List.take_append_drop (stopOf run) site.buffer.lines).symm
  rw [List.append_assoc]
  exact Stagecraft.lines_merged whole isRun.start_lt_stop isRun.stop_le

theorem Site.length_merged (isRun : IsRun site.buffer.lines run) :
    (site.merged run).buffer.lines.length + (stopOf run - startOf run) =
      site.buffer.lines.length + (mergedLines site.buffer.lines run).length := by
  have order := isRun.start_lt_stop
  have inside := isRun.stop_le
  rw [Site.lines_merged isRun, List.length_append, List.length_append, List.length_take,
    List.length_drop]
  omega

theorem sameMargins_merged {revision revision' : Nat} (isRun : IsRun site.buffer.lines run)
    (low : span.start < startOf run) (high : stopOf run < span.stop) :
    SameMargins site.buffer.lines (site.merged run).buffer.lines span
      ((span.afterDelete (startOf run) (stopOf run) revision).afterInsert (startOf run)
        (mergedLines site.buffer.lines run).length revision') := by
  have size := Site.length_merged isRun
  have order := isRun.start_lt_stop
  rw [Span.exchanged low order high]
  refine ⟨rfl, ?_⟩
  show span.stop - (stopOf run - startOf run) + (mergedLines site.buffer.lines run).length + _ = _
  omega

/-- Merging a run inside the steps leaves what is around them. -/
theorem Site.Framed.merged (framed : site.Framed) (isRun : IsRun site.buffer.lines run)
    (low : site.steps.start < startOf run) (high : stopOf run < site.steps.stop) :
    (site.merged run).Framed ∧
      SameMargins site.buffer.lines (site.merged run).buffer.lines site.record
        (site.merged run).record ∧
      SameMargins site.buffer.lines (site.merged run).buffer.lines site.steps
        (site.merged run).steps := by
  obtain ⟨-, above, order, below, inside⟩ := framed
  have size := Site.length_merged isRun
  have forward := isRun.start_lt_stop
  have record : SameMargins site.buffer.lines (site.merged run).buffer.lines site.record
      (site.merged run).record :=
    sameMargins_merged isRun (Nat.lt_of_le_of_lt above low) (Nat.lt_of_lt_of_le high below)
  have steps : SameMargins site.buffer.lines (site.merged run).buffer.lines site.steps
      (site.merged run).steps := sameMargins_merged isRun low high
  obtain ⟨recordStart, recordStop⟩ := record
  obtain ⟨stepsStart, stepsStop⟩ := steps
  exact ⟨⟨Site.Valid.put .., by omega, by omega, by omega, by omega⟩, ⟨recordStart, recordStop⟩,
    stepsStart, stepsStop⟩

end Sites

section Merges

/-- A run cuts the lines in three. -/
theorem IsRun.lines_parts (isRun : IsRun lines run) :
    lines.take (startOf run) ++ runLines lines run ++ lines.drop (stopOf run) = lines ∧
      (lines.take (startOf run)).length = startOf run ∧
      (lines.take (startOf run) ++ runLines lines run).length = stopOf run := by
  have order := isRun.start_lt_stop
  have inside := isRun.stop_le
  have upper : lines.take (startOf run) ++ runLines lines run = lines.take (stopOf run) :=
    take_append_linesFrom (Nat.le_of_lt order)
  refine ⟨?_, List.length_take_of_le (by omega), ?_⟩
  · rw [upper, List.take_append_drop]
  · rw [upper, List.length_take_of_le inside]

/-- The closing line of the steps, with a run merged. -/
theorem Site.Framed.closing_merged (framed : site.Framed) (isRun : IsRun site.buffer.lines run)
    (low : site.steps.start < startOf run) (high : stopOf run < site.steps.stop) :
    (site.buffer.lines.take (startOf run) ++ mergedLines site.buffer.lines run).length +
        (site.steps.stop - 1 - stopOf run) = (site.merged run).steps.stop - 1 := by
  obtain ⟨-, top, -⟩ := isRun.lines_parts
  obtain ⟨-, -, start, stop⟩ := framed.merged isRun low high
  have size := Site.length_merged isRun
  have order := isRun.start_lt_stop
  have short := Nat.le_trans framed.below framed.inside
  rw [List.length_append, top]
  omega

/-- With the last run merged, those above it are found. -/
theorem entranceRuns_merged (framed : site.Framed)
    (found : entranceRuns site.buffer site.steps = .ok (runs ++ [run])) :
    IsRun site.buffer.lines run ∧ site.steps.start < startOf run ∧
      stopOf run < site.steps.stop ∧
      entranceRuns (site.merged run).buffer (site.merged run).steps = .ok runs := by
  obtain ⟨-, each, -⟩ := entranceRuns_ok found
  obtain ⟨-, isRun, low, high⟩ := each run (by simp)
  refine ⟨isRun, low, high, ?_⟩
  obtain ⟨_, -, found⟩ := Except.bind_ran.mp found
  obtain ⟨levels, leveled, made⟩ := Except.bind_ran.mp found
  obtain ⟨whole, top, middle⟩ := isRun.lines_parts
  obtain ⟨ends, ink, idle⟩ := isRun.mergedLines_idle
  obtain ⟨settled, -, start, stop⟩ := framed.merged isRun low high
  have size := Site.length_merged isRun
  have order := isRun.start_lt_stop
  have short := Nat.le_trans framed.below framed.inside
  have closing : stopOf run + (site.steps.stop - 1 - stopOf run) = site.steps.stop - 1 := by omega
  have closing' := framed.closing_merged isRun low high
  have here : stepLevelLines (site.buffer.lines.take (startOf run) ++
      runLines site.buffer.lines run ++ site.buffer.lines.drop (stopOf run)) site.steps.start
        ((site.buffer.lines.take (startOf run) ++ runLines site.buffer.lines run).length +
          (site.steps.stop - 1 - stopOf run)) = .ok levels := by
    rw [whole, middle, closing]
    exact leveled
  obtain ⟨levels', leveled', found'⟩ := runsAmong_exchanged (by omega)
    (by rw [List.length_drop]; omega) isRun.filled top.symm middle.symm
    isRun.totalDelta_mergedLines idle ends ink here (by rw [whole]; exact Except.ok.inj made)
  rw [closing', ← Site.lines_merged isRun, ← start] at leveled'
  rw [← Site.lines_merged isRun] at found'
  exact Except.bind_ran.mpr ⟨(), liftFault_require_ran.mpr settled.valid.2,
    Except.bind_ran.mpr ⟨levels', leveled', congrArg Except.ok found'⟩⟩

/-- All runs can be merged, from the last one to the first, and none is found any more. -/
theorem mergeEach_settles (framed : site.Framed)
    (found : entranceRuns site.buffer site.steps = .ok runs) :
    ∃ after, mergeEach runs.reverse site = .ok () after ∧ after.Framed ∧
      entranceRuns after.buffer after.steps = .ok [] ∧
      SameMargins site.buffer.lines after.buffer.lines site.record after.record ∧
      SameMargins site.buffer.lines after.buffer.lines site.steps after.steps := by
  -- The run merged first is the last of those found, so the others are found again at what is left.
  induction runs using List.reverseRecOn generalizing site with
  | nil => exact ⟨site, rfl, framed, found, .refl .., .refl ..⟩
  | append_singleton runs run ih =>
    obtain ⟨isRun, low, high, found'⟩ := entranceRuns_merged framed found
    obtain ⟨framed', record, steps⟩ := framed.merged isRun low high
    obtain ⟨after, ran, settled, none, record', steps'⟩ := ih framed' found'
    have ran' : mergeEach (run :: runs.reverse) site = .ok () after :=
      (mergeEach_cons_ran_iff isRun.start_lt_stop).mpr ⟨framed.valid, ran⟩
    rw [← List.singleton_append, ← List.reverse_singleton, ← List.reverse_append] at ran'
    exact ⟨after, ran', settled, none, record.trans record', steps.trans steps'⟩

end Merges

section Origins

/-- Puts the comments of each run and the call of its group in the place of its lines, and keeps all
others from a line on. -/
def mergePatch (old : List String) (start : Nat) : List (List Entrance) → Patch
  | [] => Patch.keeps start (old.length - start)
  | run :: runs =>
    Patch.keeps start (startOf run - start) ++
      (runPatch old run ++ mergePatch old (stopOf run) runs)

theorem after_mergePatch (old : List String) (start : Nat) (runs : List (List Entrance)) :
    Patch.after old (mergePatch old start runs) =
      (actsFrom old start runs).flatMap (Act.merged old) ++ old.drop (lineBehind start runs) := by
  induction runs generalizing start with
  | nil =>
    rw [mergePatch, Patch.after_keeps]
    exact List.take_of_length_le (by simp)
  | cons run runs ih =>
    rw [mergePatch, Patch.after_append, Patch.after_append, Patch.after_keeps, after_runPatch, ih,
      actsFrom, List.flatMap_cons, Act.merged, linesFrom, List.drop_take, lineBehind]
    simp only [List.append_assoc]

/-- Above the runs the lines keep their numbers. -/
theorem origins_mergePatch_above (high : ∀ run ∈ runs, stop < startOf run)
    (inside : ∀ run ∈ runs, startOf run ≤ old.length) (low : stop < old.length) :
    (Patch.origins old (mergePatch old 0 runs))[stop]? = some (some stop) := by
  cases runs with
  | nil =>
    rw [mergePatch, Patch.origins_keeps (by omega)]
    simp [low]
  | cons run runs =>
    have first := high run (by simp)
    have within := inside run (by simp)
    rw [mergePatch, Patch.origins_append, Patch.origins_keeps (by omega),
      List.getElem?_append_left (by simpa using first)]
    simp [first]

/-- Below the runs the lines keep their numbers too. -/
theorem origins_mergePatch_below (inside : lineBehind start runs ≤ old.length) :
    ∃ front, Patch.origins old (mergePatch old start runs) = front ++
      (List.range' (lineBehind start runs) (old.length - lineBehind start runs)).map some := by
  induction runs generalizing start with
  | nil =>
    refine ⟨[], ?_⟩
    rw [lineBehind] at inside
    rw [mergePatch, lineBehind, Patch.origins_keeps (by omega)]
    rfl
  | cons run runs ih =>
    obtain ⟨front, rest⟩ := ih inside
    refine ⟨Patch.origins old (Patch.keeps start (startOf run - start)) ++
      (Patch.origins old (runPatch old run) ++ front), ?_⟩
    rw [mergePatch, Patch.origins_append, Patch.origins_append, rest, lineBehind]
    simp only [List.append_assoc]

theorem before_mergePatch (descend : Descend start runs)
    (inside : lineBehind start runs ≤ old.length) :
    (mergePatch old start runs).before = List.range' start (old.length - start) := by
  induction runs generalizing start with
  | nil => exact Patch.before_keeps start _
  | cons run runs ih =>
    obtain ⟨low, order, descend'⟩ := descend
    have behind := descend'.start_le
    rw [lineBehind] at inside
    have upper := @List.range'_append_1 start (startOf run - start) (stopOf run - startOf run)
    have whole := @List.range'_append_1 start (stopOf run - start) (old.length - stopOf run)
    rw [show start + (startOf run - start) = startOf run by omega,
      show startOf run - start + (stopOf run - startOf run) = stopOf run - start by omega] at upper
    rw [show start + (stopOf run - start) = stopOf run by omega,
      show stopOf run - start + (old.length - stopOf run) = old.length - start by omega] at whole
    rw [mergePatch, Patch.before_append, Patch.before_append, Patch.before_keeps, before_runPatch,
      ih descend' inside, ← List.append_assoc, upper, whole]

/-- A span around all runs that has as many lines above and below it as before is carried along. -/
theorem carries_of_sameMargins {span' : Span} (isRun : ∀ run ∈ runs, IsRun old run)
    (around : ∀ run ∈ runs, span.start < startOf run ∧ stopOf run < span.stop)
    (inside : span.stop ≤ old.length) (order : span.start < span.stop)
    (order' : span'.start < span'.stop)
    (margins : SameMargins old (Patch.after old (mergePatch old 0 runs)) span span') :
    Patch.Carries old (mergePatch old 0 runs) span span' := by
  obtain ⟨start, stop⟩ := margins
  have behind : lineBehind 0 runs ≤ span.stop - 1 :=
    lineBehind_le (Nat.zero_le _) fun run member => Nat.le_sub_one_of_lt (around run member).2
  obtain ⟨front, whole⟩ := @origins_mergePatch_below old runs 0 (by omega)
  have size := Patch.length_origins old (mergePatch old 0 runs)
  rw [whole, List.length_append, List.length_map, List.length_range'] at size
  refine ⟨order', ?_, ?_⟩
  · rw [start]
    refine origins_mergePatch_above (fun run member => (around run member).1) ?_ (by omega)
    intro run member
    exact Nat.le_trans (Nat.le_of_lt (isRun run member).start_lt_stop) (isRun run member).stop_le
  · have place : span'.stop - 1 = front.length + (span.stop - 1 - lineBehind 0 runs) := by omega
    have number : lineBehind 0 runs + (span.stop - 1 - lineBehind 0 runs) = span.stop - 1 := by
      omega
    rw [whole, place, List.getElem?_append_right (Nat.le_add_right _ _), Nat.add_sub_cancel_left,
      List.getElem?_map, List.getElem?_range' (by omega), Nat.one_mul, number]
    rfl

/-- A record's runs are found and can be merged from the last to the first. After that it has none
left; the lines are those before, but that the comments of each run and the call of its group stand
in the place of the run, and the record and its steps start and end on the lines where they did. -/
theorem mergeEach_leaves_no_runs (framed : site.Framed) :
    ∃ (runs : List (List Entrance)) (after : Site),
      entranceRuns site.buffer site.steps = .ok runs ∧
      mergeEach runs.reverse site = .ok () after ∧ after.Framed ∧
      entranceRuns after.buffer after.steps = .ok [] ∧
      (mergePatch site.buffer.lines 0 runs).before = List.range site.buffer.lines.length ∧
      after.buffer.lines = Patch.after site.buffer.lines (mergePatch site.buffer.lines 0 runs) ∧
      Patch.Carries site.buffer.lines (mergePatch site.buffer.lines 0 runs) site.record
        after.record ∧
      Patch.Carries site.buffer.lines (mergePatch site.buffer.lines 0 runs) site.steps
        after.steps := by
  have ⟨valid, above, order, below, inside⟩ := framed
  obtain ⟨levels, leveled⟩ := @stepLevelLines_defined site.buffer.lines site.steps.start
    (site.steps.stop - 1) (by omega) (by omega)
  have found : entranceRuns site.buffer site.steps = .ok (runsAmong site.buffer.lines levels) :=
    Except.bind_ran.mpr ⟨(), liftFault_require_ran.mpr valid.2,
      Except.bind_ran.mpr ⟨levels, leveled, rfl⟩⟩
  obtain ⟨-, each, apart⟩ := entranceRuns_ok found
  have isRun (run : List Entrance) (member : run ∈ runsAmong site.buffer.lines levels) :=
    (each run member).2.1
  have descend : Descend 0 (runsAmong site.buffer.lines levels) :=
    descend_of_pairwise apart fun run member => ⟨Nat.zero_le _, (isRun run member).start_lt_stop⟩
  have behind : lineBehind 0 (runsAmong site.buffer.lines levels) ≤ site.buffer.lines.length :=
    lineBehind_le (Nat.zero_le _) fun run member => (isRun run member).stop_le
  obtain ⟨after, ran, settled, none, record, steps⟩ := mergeEach_settles framed found
  have lines := mergeEach_lines descend behind (List.take_append_drop _ _).symm ran
  rw [List.take_zero, List.nil_append, ← after_mergePatch] at lines
  have numbers := before_mergePatch descend behind
  rw [Nat.sub_zero, ← List.range_eq_range'] at numbers
  rw [lines] at record steps
  refine ⟨_, after, found, ran, settled, none, numbers, lines, ?_, ?_⟩
  · refine carries_of_sameMargins isRun ?_ inside (by omega) ?_ record
    · intro run member
      obtain ⟨-, -, low, high⟩ := each run member
      exact ⟨Nat.lt_of_le_of_lt above low, Nat.lt_of_lt_of_le high below⟩
    · exact Nat.lt_of_le_of_lt settled.above (Nat.lt_of_lt_of_le settled.order settled.below)
  · exact carries_of_sameMargins isRun (fun run member => (each run member).2.2)
      (Nat.le_trans below inside) order settled.order steps

/-- Two runs with single entrances around the first one; a bracket in its names is closed in its
comment. -/
def crowdSite : Site := ⟨⟨["const A = \x7b", "id: 'a',", "steps: [", "...ENTER_FROM_RIGHT('c'),",
  "...ENTER_FROM_LEFT('a['),", "  // ] two", "...ENTER_FROM_LEFT('b'),",
  "...ENTER_FROM_RIGHT('d'),", "...ENTER_FROM_LEFT('e', 'cs-x'),", "", "...ENTER_FROM_LEFT('f'),",
  "],", "\x7d;"], []⟩, ⟨0, 13, 0⟩, ⟨2, 12, 0⟩⟩

def crowdRuns : List (List Entrance) :=
  [[⟨4, .left, "a[", "cs-left"⟩, ⟨6, .left, "b", "cs-left"⟩],
    [⟨8, .left, "e", "cs-x"⟩, ⟨10, .left, "f", "cs-left"⟩]]

theorem mergeEach_leaves_no_runs_crowd :
    crowdSite.Framed ∧ ∃ after : Site,
      entranceRuns crowdSite.buffer crowdSite.steps = .ok crowdRuns ∧
      mergeEach crowdRuns.reverse crowdSite = .ok () after ∧
      entranceRuns after.buffer after.steps = .ok [] ∧
      Patch.Carries crowdSite.buffer.lines (mergePatch crowdSite.buffer.lines 0 crowdRuns)
        crowdSite.record after.record ∧
      Patch.Carries crowdSite.buffer.lines (mergePatch crowdSite.buffer.lines 0 crowdRuns)
        crowdSite.steps after.steps ∧
      after.buffer.lines = ["const A = \x7b", "id: 'a',", "steps: [", "...ENTER_FROM_RIGHT('c'),",
        "  // ] two", "...GROUP_ENTER_LEFT([['a['], ['b']]),", "...ENTER_FROM_RIGHT('d'),",
        "...GROUP_ENTER_LEFT([['e', 'cs-x'], ['f']]),", "],", "\x7d;"] := by
  have framed : crowdSite.Framed :=
    ⟨⟨Buffer.isValid_of_current rfl, Buffer.isValid_of_current rfl⟩, by decide, by decide,
      by decide, by decide⟩
  have known : entranceRuns crowdSite.buffer crowdSite.steps = .ok crowdRuns := by rfl
  obtain ⟨runs, after, found, ran, -, none, -, lines, record, steps⟩ :=
    mergeEach_leaves_no_runs framed
  obtain rfl : crowdRuns = runs := Except.ok.inj (known.symm.trans found)
  refine ⟨framed, after, known, ran, none, record, steps, ?_⟩
  rw [lines]
  decide +kernel

end Origins

end Stagecraft
