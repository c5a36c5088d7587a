import Stagecraft.Proofs.Edit.InsideSteps
import Stagecraft.Proofs.Edit.Patch
import Stagecraft.Proofs.Edit.Runs

/-!
Merging runs from the bottom up. The lines above a run that is still to come are those of the file
as it was, so the patch that leads to the file goes on: the comments of a run stay, its other lines
go, and the call of the group comes in their place.
-/

namespace Stagecraft

variable {lines old back : List String} {run : List Entrance} {runs : List (List Entrance)}
  {site after : Site} {first buffer : Buffer} {patch : Patch} {allowed : Change → Prop}
  {place : Nat} {u : Unit}

/-- The group call that takes the place of a run. -/
def callOf (lines : List String) : List Entrance → String
  | [] => ""
  | first :: rest =>
    groupCall first.side (first :: rest) (indentOf (lines[first.line]?.getD ""))

/-- What stands in the place of a run: its comments and the call of the group. -/
def mergedLines (lines : List String) (run : List Entrance) : List String :=
  (runLines lines run).filter isComment ++ [callOf lines run]

/-- The buffer with a run merged. -/
def Buffer.merged (buffer : Buffer) (run : List Entrance) : Buffer :=
  (buffer.deleteLines (startOf run) (stopOf run)).insertLines (startOf run)
    (mergedLines buffer.lines run)

/-- The site with a run merged. -/
def Site.merged (site : Site) (run : List Entrance) : Site :=
  (site.cut (startOf run) (stopOf run)).put (startOf run) (mergedLines site.buffer.lines run)

/-- The first of the runs is merged where its lines are, and the others at what that leaves. -/
theorem mergeEach_cons_ran_iff (order : startOf run < stopOf run) :
    mergeEach (run :: runs) site = .ok u after ↔
      site.Valid ∧ mergeEach runs (site.merged run) = .ok u after := by
  cases run with
  | nil => cases order
  | cons first rest =>
    have stop := stopOf_eq_getLast (List.cons_ne_nil first rest)
    rw [startOf_cons] at order
    have made (place : Site) :
        Work.insert first.line (mergedLines site.buffer.lines (first :: rest))
          (site.cut first.line (stopOf (first :: rest))) = .ok () place ↔
            place = site.merged (first :: rest) := by
      rw [Work.insert_ran, if_neg (by simp [mergedLines])]
      exact and_iff_right (Site.Valid.cut ..)
    have cut (place : Site) : Work.delete first.line (stopOf (first :: rest)) site = .ok () place ↔
        site.Valid ∧ place = site.cut first.line (stopOf (first :: rest)) := by
      rw [Work.delete_ran, if_pos order]
    rw [mergedLines, runLines] at made
    rw [stop] at made cut
    constructor
    · intro ran
      obtain ⟨_, place, here, others⟩ := bind_ran.mp ran
      obtain ⟨_, middle, gone, put⟩ := bind_ran.mp (get_bind_ran.mp here)
      obtain ⟨valid, rfl⟩ := (cut middle).mp gone
      obtain rfl := (made place).mp put
      exact ⟨valid, others⟩
    · rintro ⟨valid, ran⟩
      exact bind_ran.mpr ⟨(), _, get_bind_ran.mpr (bind_ran.mpr ⟨(), _,
        (cut _).mpr ⟨valid, rfl⟩, (made _).mpr rfl⟩), ran⟩

theorem mergeEach_cons_ran (order : startOf run < stopOf run)
    (ran : mergeEach (run :: runs) site = .ok u after) :
    ∃ place, place.buffer = site.buffer.merged run ∧ mergeEach runs place = .ok u after :=
  ⟨site.merged run, rfl, ((mergeEach_cons_ran_iff order).mp ran).2⟩

theorem mergedLines_take (order : startOf run < stopOf run) (within : stopOf run ≤ place) :
    mergedLines (lines.take place) run = mergedLines lines run := by
  have same : runLines (lines.take place) run = runLines lines run := by
    rw [runLines, runLines, List.take_take, Nat.min_eq_left within]
  have call : callOf (lines.take place) run = callOf lines run := by
    cases run with
    | nil => rfl
    | cons first rest =>
      rw [startOf_cons] at order
      rw [callOf, callOf, List.getElem?_take_of_lt (by omega)]
  rw [mergedLines, mergedLines, same, call]

theorem mergeEach_concat_ran (order : startOf run < stopOf run)
    (ran : mergeEach (runs ++ [run]) site = .ok u after) :
    ∃ middle, mergeEach runs site = .ok () middle ∧
      after.buffer = middle.buffer.merged run := by
  induction runs generalizing site with
  | nil =>
    obtain ⟨last, same, ends⟩ := mergeEach_cons_ran order ran
    obtain ⟨-, rfl⟩ := pure_ran.mp ends
    exact ⟨site, rfl, same⟩
  | cons above runs ih =>
    cases above with
    | nil => exact ih ran
    | cons first rest =>
      obtain ⟨_, place, here, others⟩ := bind_ran.mp ran
      obtain ⟨middle, ran', same⟩ := ih others
      exact ⟨middle, bind_ran.mpr ⟨_, place, here, ran'⟩, same⟩

/-- Merging a run of lines that stand as in the file puts its merged lines in their place. -/
theorem lines_merged (lines : buffer.lines = old.take (stopOf run) ++ back)
    (order : startOf run < stopOf run) (inside : stopOf run ≤ old.length) :
    (buffer.merged run).lines = old.take (startOf run) ++ (mergedLines old run ++ back) := by
  have length : (old.take (stopOf run)).length = stopOf run := List.length_take_of_le inside
  have top : buffer.lines.take (stopOf run) = old.take (stopOf run) := by
    rw [lines, List.take_left' length]
  have new : mergedLines buffer.lines run = mergedLines old run := by
    rw [← mergedLines_take order (Nat.le_refl _), top, mergedLines_take order (Nat.le_refl _)]
  have cut : (buffer.merged run).lines = putLines (startOf run) (mergedLines old run)
      (cutLines (startOf run) (stopOf run) buffer.lines) := by
    rw [← new]
    rfl
  have left : cutLines (startOf run) (stopOf run) buffer.lines =
      old.take (startOf run) ++ back := by
    rw [cutLines, lines, List.drop_left' length, List.take_append_of_le_length (by omega),
      List.take_take, Nat.min_eq_left (Nat.le_of_lt order)]
  have front : (old.take (startOf run)).length = startOf run := List.length_take_of_le (by omega)
  rw [cut, left, putLines_append_right (Nat.le_of_eq front), front, Nat.sub_self]
  simp [putLines]

/-- All edits since then took place at or below a line. -/
def Untouched (first buffer : Buffer) (place : Nat) : Prop :=
  ∀ index ∈ buffer.edits.drop first.revision, place ≤ index

theorem Untouched.mono {high : Nat} (free : Untouched first buffer high) (low : place ≤ high) :
    Untouched first buffer place := fun index member => Nat.le_trans low (free index member)

theorem untouched_of_isValid {span : Span} (current : span.revision = first.revision)
    (valid : buffer.isValid span = true) : Untouched first buffer span.stop := by
  intro index member
  rw [← current] at member
  exact le_of_isValid valid index member

theorem edits_merged (buffer : Buffer) (run : List Entrance) :
    (buffer.merged run).edits = buffer.edits ++ [startOf run, startOf run] := by
  simp [Buffer.merged, Buffer.insertLines, Buffer.deleteLines]

theorem untouched_merged (later : first.revision ≤ buffer.revision) :
    Untouched first (buffer.merged run) place ↔
      Untouched first buffer place ∧ place ≤ startOf run := by
  rw [Untouched, edits_merged, List.drop_append_of_le_length later]
  constructor
  · intro free
    refine ⟨fun index member => free index (List.mem_append_left _ member), free _ (by simp)⟩
  · intro both index member
    rcases List.mem_append.mp member with old | new
    · exact both.1 index old
    · obtain rfl : index = startOf run := by simpa using new
      exact both.2

section Patches

/-- The patch of a run. -/
def runPatch (old : List String) (run : List Entrance) : Patch :=
  Patch.sieve (fun number => (old[number]?).any isComment) (startOf run)
    (stopOf run - startOf run) ++ [.add (callOf old run)]

theorem before_runPatch (old : List String) (run : List Entrance) :
    (runPatch old run).before =
      List.range' (startOf run) (stopOf run - startOf run) := by
  rw [runPatch, Patch.before_append, Patch.before_sieve]
  exact List.append_nil _

theorem redos_runPatch (old : List String) (run : List Entrance) :
    (runPatch old run).redos = 0 := by
  rw [runPatch, Patch.redos_append, Patch.redos_sieve]
  rfl

/-- The lines of a window that pass a test. -/
theorem filterMap_range'_filter (test : String → Bool) (old : List String) (start count : Nat) :
    ((List.range' start count).filter fun number => (old[number]?).any test).filterMap (old[·]?) =
      ((old.drop start).take count).filter test := by
  induction count generalizing start with
  | zero => simp
  | succ count ih =>
    have rest := ih (start + 1)
    rw [List.range'_succ, List.filter_cons]
    cases present : old[start]? with
    | none =>
      have short := List.getElem?_eq_none_iff.mp present
      rw [Option.any_none, if_neg Bool.false_ne_true, rest, List.drop_eq_nil_of_le short,
        List.drop_eq_nil_of_le (by omega)]
      simp
    | some line =>
      obtain ⟨low, rfl⟩ := List.getElem?_eq_some_iff.mp present
      rw [Option.any_some, List.drop_eq_getElem_cons low, List.take_succ_cons, List.filter_cons]
      by_cases passes : test old[start] = true
      · rw [if_pos passes, if_pos passes, List.filterMap_cons_some present, rest]
      · rw [if_neg passes, if_neg passes, rest]

theorem after_runPatch (old : List String) (run : List Entrance) :
    Patch.after old (runPatch old run) = mergedLines old run := by
  have part : (old.drop (startOf run)).take (stopOf run - startOf run) = runLines old run := by
    rw [runLines, List.drop_take]
  rw [runPatch, Patch.after_append, Patch.after_sieve, filterMap_range'_filter, part, mergedLines]
  rfl

end Patches

/-- How far the runs are merged: a patch leads from the first `top` lines to those of the buffer
above `back`, and where no edit took place it keeps what was there. -/
structure Merging (allowed : Change → Prop) (first : Buffer) (top : Nat) (back : List String)
    (patch : Patch) (buffer : Buffer) : Prop where
  inside : top ≤ first.lines.length
  before : patch.before = List.range top
  lines : buffer.lines = patch.after first.lines ++ back
  calm : patch.redos = 0
  later : first.revision ≤ buffer.revision
  held : ∀ place ≤ top, Untouched first buffer place →
    ∃ rest, patch = Patch.keeps 0 place ++ rest
  sound : ∀ change ∈ patch, allowed change

namespace Merging

variable {top : Nat}

theorem begin (keep : ∀ number, allowed (.keep number))
    (inside : top ≤ first.lines.length) (lines : buffer.lines = first.lines.take top ++ back)
    (later : first.revision ≤ buffer.revision) :
    Merging allowed first top back (Patch.keeps 0 top) buffer where
  inside := inside
  before := by rw [Patch.before_keeps, List.range_eq_range']
  lines := by rw [lines, Patch.after_keeps, List.drop_zero]
  calm := Patch.redos_keeps 0 top
  later := later
  held := by
    intro place low _
    exact ⟨_, Patch.keeps_split low⟩
  sound := by
    intro change member
    obtain ⟨number, -, rfl⟩ := List.mem_map.mp member
    exact keep number

/-- Above a place that was left alone, the lines are the old ones. -/
theorem take_eq (merging : Merging allowed first top back patch buffer) (low : place ≤ top)
    (free : Untouched first buffer place) :
    buffer.lines.take place = first.lines.take place := by
  obtain ⟨rest, rfl⟩ := merging.held place low free
  rw [merging.lines, Patch.after_append, Patch.after_keeps, List.drop_zero, List.append_assoc]
  exact List.take_left' (List.length_take_of_le (Nat.le_trans low merging.inside))

/-- One run is merged, and what is above it stays. -/
theorem merged (merging : Merging allowed first top back patch buffer)
    (order : startOf run < stopOf run) (low : stopOf run ≤ top)
    (free : Untouched first buffer (stopOf run)) (sound : ∀ change ∈ runPatch first.lines run,
      allowed change) :
    ∃ later, Merging allowed first top back later (buffer.merged run) := by
  obtain ⟨rest, rfl⟩ := merging.held _ low free
  have inside := merging.inside
  have known := merging.before
  have made := merging.lines
  rw [Patch.before_append, Patch.before_keeps] at known
  rw [Patch.after_append, Patch.after_keeps, List.drop_zero, List.append_assoc] at made
  refine ⟨Patch.keeps 0 (startOf run) ++ (runPatch first.lines run ++ rest), inside, ?_, ?_, ?_, ?_,
    ?_, ?_⟩
  · rw [Patch.before_append, Patch.before_append, Patch.before_keeps, before_runPatch, ← known,
      ← List.append_assoc]
    congr 1
    have joined := List.range'_append_1 (s := 0) (m := startOf run) (n := stopOf run - startOf run)
    rwa [Nat.zero_add, Nat.add_sub_cancel' (Nat.le_of_lt order)] at joined
  · rw [lines_merged made order (Nat.le_trans low inside), Patch.after_append, Patch.after_append,
      Patch.after_keeps, List.drop_zero, after_runPatch]
    simp only [List.append_assoc]
  · have calm := merging.calm
    rw [Patch.redos_append, Patch.redos_keeps] at calm
    rw [Patch.redos_append, Patch.redos_append, Patch.redos_keeps, redos_runPatch, calm]
  · have later := merging.later
    rw [Buffer.merged, Buffer.revision_insertLines, Buffer.revision_deleteLines]
    omega
  · intro place _ free'
    obtain ⟨-, above⟩ := (untouched_merged merging.later).mp free'
    refine ⟨Patch.keeps place (startOf run - place) ++ (runPatch first.lines run ++ rest), ?_⟩
    rw [Patch.keeps_split above, List.append_assoc]
  · intro change member
    rcases List.mem_append.mp member with above | member
    · obtain ⟨number, low', rfl⟩ := List.mem_map.mp above
      apply merging.sound
      apply List.mem_append_left
      refine List.mem_map.mpr ⟨number, ?_, rfl⟩
      rw [List.mem_range'_1] at low' ⊢
      omega
    · rcases List.mem_append.mp member with here | below
      · exact sound change here
      · exact merging.sound change (List.mem_append_right _ below)

/-- Runs are merged from the last to the first. -/
theorem mergeEach (merging : Merging allowed first top back patch site.buffer)
    (apart : runs.Pairwise fun below above => stopOf above ≤ startOf below)
    (each : ∀ run ∈ runs, startOf run < stopOf run ∧ stopOf run ≤ place ∧
      ∀ change ∈ runPatch first.lines run, allowed change)
    (low : place ≤ top) (free : Untouched first site.buffer place)
    (ran : mergeEach runs site = .ok u after) :
    ∃ later, Merging allowed first top back later after.buffer := by
  induction runs generalizing patch site place with
  | nil =>
    obtain ⟨-, rfl⟩ := pure_ran.mp ran
    exact ⟨patch, merging⟩
  | cons run runs ih =>
    obtain ⟨order, short, sound⟩ := each run (by simp)
    obtain ⟨next, same, ran'⟩ := mergeEach_cons_ran order ran
    obtain ⟨below, apart'⟩ := List.pairwise_cons.mp apart
    obtain ⟨later, merging'⟩ :=
      merging.merged order (Nat.le_trans short low) (free.mono short) sound
    rw [← same] at merging'
    have free' : Untouched first next.buffer (startOf run) := by
      rw [same]
      exact (untouched_merged merging.later).mpr ⟨free.mono (by omega), Nat.le_refl _⟩
    refine ih merging' apart' ?_ (by omega) free' ran'
    intro other member
    obtain ⟨order', -, sound'⟩ := each other (List.mem_cons_of_mem _ member)
    exact ⟨order', below other member, sound'⟩

end Merging

section Records

variable {module id : String} {location : Location} {locations : List Location} {steps : Span}
  {bench last : Bench} {groups : List MergedGroup} {report : MergeReport} {top : Nat}

theorem mergeRecord_ran (ran : mergeRecord id site = .ok groups after) :
    ∃ runs, entranceRuns site.buffer site.steps = .ok runs ∧ groups = groupsOf id runs ∧
      mergeEach runs.reverse site = .ok () after := by
  obtain ⟨runs, found, ran'⟩ := Work.ofExcept_bind_ran.mp (get_bind_ran.mp ran)
  obtain ⟨_, place, merged, ends⟩ := bind_ran.mp ran'
  obtain ⟨rfl, rfl⟩ := pure_ran.mp ends
  exact ⟨runs, found, rfl, merged⟩

theorem mergeRecords_cons_ran (ran : mergeRecords (location :: locations) bench =
    .ok groups last) :
    ∃ steps site here middle above, location.steps = some steps ∧
      mergeRecord location.id ⟨bench.buffer, location.record, steps⟩ = .ok here site ∧
      middle.buffer = site.buffer ∧ mergeRecords locations middle = .ok above last ∧
      groups = above ++ here := by
  obtain ⟨⟨_, here⟩, _, worked, ran'⟩ := bind_ran.mp ran
  obtain ⟨steps, site, stepped, merged, -, rfl⟩ := Job.site_ran.mp worked
  obtain ⟨_, middle, noted, others⟩ := bind_ran.mp ran'
  obtain ⟨above, next, rest, ends⟩ := bind_ran.mp others
  obtain ⟨rfl, rfl⟩ := pure_ran.mp ends
  obtain rfl := modify_ran.mp noted
  exact ⟨steps, site, here, _, above, stepped, merged, rfl, rest, rfl⟩

theorem mergeRecords_append_ran {lower upper : List Location}
    (ran : mergeRecords (lower ++ upper) bench = .ok groups last) :
    ∃ middle here above, mergeRecords lower bench = .ok here middle ∧
      mergeRecords upper middle = .ok above last ∧ groups = above ++ here := by
  induction lower generalizing bench groups with
  | nil => exact ⟨bench, [], groups, rfl, ran, (List.append_nil _).symm⟩
  | cons location lower ih =>
    obtain ⟨⟨moved, here⟩, next, worked, ran'⟩ := bind_ran.mp ran
    obtain ⟨_, noted, logged, others⟩ := bind_ran.mp ran'
    obtain ⟨all, _, rest, ends⟩ := bind_ran.mp others
    obtain ⟨rfl, rfl⟩ := pure_ran.mp ends
    obtain ⟨middle, below, above, first, second, rfl⟩ := ih rest
    refine ⟨middle, below ++ here, above, ?_, second, by rw [List.append_assoc]⟩
    exact bind_ran.mpr ⟨_, next, worked, bind_ran.mpr ⟨_, noted, logged,
      bind_ran.mpr ⟨below, middle, first, rfl⟩⟩⟩

theorem mergeEach_edits (each : ∀ run ∈ runs, startOf run < stopOf run)
    (ran : mergeEach runs site = .ok u after) :
    after.buffer.edits =
      site.buffer.edits ++ runs.flatMap fun run => [startOf run, startOf run] := by
  induction runs generalizing site with
  | nil =>
    obtain ⟨-, rfl⟩ := pure_ran.mp ran
    exact (List.append_nil _).symm
  | cons run runs ih =>
    obtain ⟨next, same, ran'⟩ := mergeEach_cons_ran (each run (List.mem_cons_self ..)) ran
    rw [ih (fun other member => each other (List.mem_cons_of_mem _ member)) ran', same,
      edits_merged, List.flatMap_cons, List.append_assoc]

/-- All edits of merging take place inside the steps of the records. -/
theorem mergeRecords_edits (ran : mergeRecords locations bench = .ok groups last) :
    ∃ made, last.buffer.edits = bench.buffer.edits ++ made ∧
      ∀ index ∈ made, ∃ location ∈ locations, location.HasInside index := by
  induction locations generalizing bench groups with
  | nil =>
    obtain ⟨-, rfl⟩ := pure_ran.mp ran
    exact ⟨[], (List.append_nil _).symm, fun index absent => absurd absent List.not_mem_nil⟩
  | cons location locations ih =>
    obtain ⟨steps, site, here, middle, above, stepped, worked, same, ran', -⟩ :=
      mergeRecords_cons_ran ran
    obtain ⟨runs, found, -, merged⟩ := mergeRecord_ran worked
    obtain ⟨-, each, -⟩ := entranceRuns_ok found
    have edits := mergeEach_edits (fun run member =>
      (each run (List.mem_reverse.mp member)).2.1.start_lt_stop) merged
    obtain ⟨made, whole, inside⟩ := ih ran'
    rw [same, edits, List.append_assoc] at whole
    refine ⟨_, whole, ?_⟩
    intro index member
    rcases List.mem_append.mp member with first | later
    · obtain ⟨run, present, place⟩ := List.mem_flatMap.mp first
      obtain ⟨-, isRun, low, high⟩ := each run (List.mem_reverse.mp present)
      obtain rfl : index = startOf run := by simpa using place
      have order := isRun.start_lt_stop
      exact ⟨location, List.mem_cons_self .., steps, stepped, low, Nat.lt_of_le_of_lt order high⟩
    · obtain ⟨other, listed, within⟩ := inside index later
      exact ⟨other, List.mem_cons_of_mem _ listed, within⟩

/-- What merging may do to a file: a line of a run goes, and the call of a run comes. -/
inductive MergeChange (first : Buffer) (locations : List Location) : Change → Prop where
  | keep (number : Nat) : MergeChange first locations (.keep number)
  | drop {location : Location} {number : Nat} {line : String} (listed : location ∈ locations)
      (inside : location.HasInside number) (stands : first.lines[number]? = some line)
      (idle : (readEntrance? line).isSome ∨ isBlankText line = true) :
      MergeChange first locations (.drop number)
  | call {location : Location} {steps : Span} {runs : List (List Entrance)} {run : List Entrance}
      (listed : location ∈ locations) (stepped : location.steps = some steps)
      (found : entranceRuns first steps = .ok runs) (member : run ∈ runs) :
      MergeChange first locations (.add (callOf first.lines run))

theorem mergeChange_runPatch (listed : location ∈ locations)
    (stepped : location.steps = some steps) (found : entranceRuns first steps = .ok runs)
    (member : run ∈ runs) :
    ∀ change ∈ runPatch first.lines run, MergeChange first locations change := by
  obtain ⟨-, each, -⟩ := entranceRuns_ok found
  obtain ⟨-, isRun, low, high⟩ := each run member
  intro change present
  rcases List.mem_append.mp present with stood | call
  · obtain ⟨number, above, below, ⟨-, rfl⟩ | ⟨plain, rfl⟩⟩ := Patch.of_mem_sieve stood
    · exact .keep number
    · have within : number < first.lines.length := by
        have short := isRun.stop_le
        omega
      rw [List.getElem?_eq_getElem within, Option.any_some] at plain
      have inside : location.HasInside number := ⟨steps, stepped, by omega, by omega⟩
      refine .drop listed inside (List.getElem?_eq_getElem within) ?_
      have here := mem_runLines above (by omega) within
      rcases isRun.content.2 _ here with entrance | filler
      · exact .inl entrance
      · rw [isFiller, plain, Bool.or_false] at filler
        exact .inr filler
  · rw [List.mem_singleton.mp call]
    exact .call listed stepped found member

/-- Records are merged one after the other, from the bottom up. -/
theorem Merging.mergeRecords {all : List Location}
    (merging : Merging (MergeChange first all) first top back patch bench.buffer)
    (listed : ∀ location ∈ locations, location ∈ all)
    (spans : ∀ location ∈ locations, ∀ steps, location.steps = some steps →
      steps.revision = first.revision ∧ steps.start < steps.stop ∧ steps.stop ≤ top)
    (ran : mergeRecords locations bench = .ok groups last) :
    ∃ later, Merging (MergeChange first all) first top back later last.buffer := by
  induction locations generalizing patch bench groups with
  | nil =>
    obtain ⟨-, rfl⟩ := pure_ran.mp ran
    exact ⟨patch, merging⟩
  | cons location locations ih =>
    obtain ⟨steps, site, here, middle, above, stepped, worked, same, ran', -⟩ :=
      mergeRecords_cons_ran ran
    obtain ⟨runs, found, -, merged⟩ := mergeRecord_ran worked
    obtain ⟨current, order, within⟩ := spans location (by simp) steps stepped
    obtain ⟨valid, -, apart⟩ := entranceRuns_ok found
    have free := untouched_of_isValid current valid
    have found' : entranceRuns first steps = .ok runs := by
      have top := merging.take_eq within free
      exact entranceRuns_congr order (Buffer.isValid_of_current current) top.symm found
    obtain ⟨-, each, -⟩ := entranceRuns_ok found'
    obtain ⟨later, merging'⟩ := merging.mergeEach (List.pairwise_reverse.mpr apart) (by
      intro run member
      have present := List.mem_reverse.mp member
      obtain ⟨-, isRun, -, high⟩ := each run present
      exact ⟨isRun.start_lt_stop, Nat.le_of_lt high,
        mergeChange_runPatch (listed location (by simp)) stepped found' present⟩) within free merged
    rw [← same] at merging'
    exact ih merging' (fun other member => listed other (List.mem_cons_of_mem _ member))
      (fun other member => spans other (List.mem_cons_of_mem _ member)) ran'

theorem importGroups_cons_ran {side : Side} {sides : List Side}
    {answer : List String × List Issue}
    (ran : importGroups module (side :: sides) bench = .ok answer last) :
    ∃ others, importGroups module sides
      { bench with buffer := (ensureImport bench.buffer side.groupDirective module).1 } =
        .ok others last := by
  obtain ⟨_, _, stored, ran'⟩ := bind_ran.mp (get_bind_ran.mp ran)
  cases stored
  obtain ⟨others, _, rest, ends⟩ := bind_ran.mp ran'
  obtain ⟨-, rfl⟩ := pure_ran.mp ends
  exact ⟨others, rest⟩

/-- The sides of groups, each with a directive to import. -/
def sidesOf (groups : List MergedGroup) : List Side :=
  [Side.left, Side.right].filter fun side => groups.any (·.side == side)

theorem mergeEntrances_ran (ran : mergeEntrances module bench = .ok report last) :
    ∃ survey middle answer, findAll bench.buffer = .ok survey ∧
      mergeRecords survey.found.reverse bench = .ok report.groups middle ∧
      importGroups module (sidesOf report.groups) middle = .ok answer last := by
  obtain ⟨survey, surveyed, ran'⟩ := Job.ofExcept_bind_ran.mp (get_bind_ran.mp ran)
  obtain ⟨groups, middle, merged, ran''⟩ := bind_ran.mp ran'
  obtain ⟨answer, _, imported, ends⟩ := bind_ran.mp ran''
  obtain ⟨rfl, rfl⟩ := pure_ran.mp ends
  exact ⟨survey, middle, answer, surveyed, merged, imported⟩

theorem spans_of_findAll {survey : Survey} (surveyed : findAll first = .ok survey) :
    ∀ location ∈ survey.found, ∀ steps, location.steps = some steps →
      steps.revision = first.revision ∧ steps.start < steps.stop ∧
        steps.stop ≤ location.record.stop ∧ location.record.stop ≤ first.lines.length := by
  intro location member steps stepped
  have located := (found_of_findAll surveyed member).1
  obtain ⟨-, inside, ends⟩ := locateAt_spans located
  obtain ⟨current, within⟩ := ends steps stepped
  exact ⟨current, ((locateAt_order located).2 steps stepped).2, within, inside⟩

def groupSymbols : List String := [Side.left.groupDirective, Side.right.groupDirective]

theorem groupDirective_mem (side : Side) : side.groupDirective ∈ groupSymbols := by
  cases side <;> simp [groupSymbols]

theorem plainSymbol_groupDirective (side : Side) : PlainSymbol side.groupDirective := by
  cases side with
  | left => exact ⟨'G', "ROUP_ENTER_LEFT".toList, by decide, by decide, by decide⟩
  | right => exact ⟨'G', "ROUP_ENTER_RIGHT".toList, by decide, by decide, by decide⟩

/-- What merging does to the lines of a file may go on while a group is imported. -/
theorem importStable_group (side : Side) (plain : Change → Prop) :
    ImportStable side.groupDirective module old (WithImports groupSymbols module old plain) :=
  importStable (groupDirective_mem side) plain (plainSymbol_groupDirective side)

theorem importGroups_patched {sides : List Side} {count : Nat} {plain : Change → Prop}
    {answer : List String × List Issue}
    (patched : Patched (WithImports groupSymbols module old plain) old top count
      bench.buffer.lines)
    (ran : importGroups module sides bench = .ok answer last) :
    Patched (WithImports groupSymbols module old plain) old top (count + sides.length)
      last.buffer.lines := by
  induction sides generalizing bench count answer with
  | nil =>
    obtain ⟨-, rfl⟩ := pure_ran.mp ran
    exact patched
  | cons side sides ih =>
    obtain ⟨others, rest⟩ := importGroups_cons_ran ran
    have whole := ih (patched.ensureImport (importStable_group side plain)) rest
    rwa [List.length_cons, Nat.add_comm sides.length, ← Nat.add_assoc]

/-- Merging drops lines of runs and brings in their calls, and alters two lines at most. -/
theorem mergeEntrances_patched (ran : mergeEntrances module bench = .ok report last) :
    Patched (WithImports groupSymbols module bench.buffer.lines
        (MergeChange bench.buffer (foundIn bench.buffer))) bench.buffer.lines
      bench.buffer.lines.length 2 last.buffer.lines := by
  obtain ⟨survey, middle, answer, surveyed, merged, imported⟩ := mergeEntrances_ran ran
  have listed : foundIn bench.buffer = survey.found := by rw [foundIn, surveyed]
  have begin : Merging (MergeChange bench.buffer survey.found) bench.buffer
      bench.buffer.lines.length [] (Patch.keeps 0 bench.buffer.lines.length) bench.buffer :=
    .begin .keep (Nat.le_refl _) (by rw [List.take_length, List.append_nil]) (Nat.le_refl _)
  obtain ⟨patch, merging⟩ := begin.mergeRecords
    (fun location member => List.mem_reverse.mp member) (by
      intro location member steps stepped
      obtain ⟨current, order, inner, inside⟩ :=
        spans_of_findAll surveyed location (List.mem_reverse.mp member) steps stepped
      exact ⟨current, order, Nat.le_trans inner inside⟩) merged
  have plain : Patched (WithImports groupSymbols module bench.buffer.lines
      (MergeChange bench.buffer survey.found)) bench.buffer.lines bench.buffer.lines.length 0
        middle.buffer.lines := by
    refine ⟨patch, merging.before, ?_, Nat.le_of_eq merging.calm, ?_⟩
    · rw [merging.lines, List.append_nil]
    · exact fun change member => .plain (merging.sound change member)
  have few : (sidesOf report.groups).length ≤ 2 := List.length_filter_le _ _
  rw [listed]
  exact (importGroups_patched plain imported).mono (by omega)

end Records

end Stagecraft
