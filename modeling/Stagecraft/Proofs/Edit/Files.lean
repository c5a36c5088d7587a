import Mathlib.Data.List.Sort
import Stagecraft.Edit.Source
import Stagecraft.Proofs.Disk
import Stagecraft.Proofs.Edit.Additions
import Stagecraft.Proofs.Edit.Merging
import Stagecraft.Proofs.Text.Ruling

/-!
Commands on whole files. What a command writes is a patch of the lines of the file: a line that is
kept has the characters it had and ends with a line feed, whatever it ended with. So a file with
line feeds only keeps such lines as they are, and another one does not.
-/

namespace Stagecraft

/-- The line with a line feed at its end. -/
def RuledLine.fed (line : RuledLine) : RuledLine := { line with ending := .feed }

/-- The line of a number, if it has an end of its own. -/
def endedLine? (lines : List RuledLine) (number : Nat) : Option RuledLine :=
  (lines[number]?).filter (·.ending ≠ .text)

/-- The lines that are kept, as far as they have an end of their own. -/
def Patch.kept (lines : List RuledLine) (patch : Patch) : List RuledLine :=
  patch.filterMap fun
    | .keep number => endedLine? lines number
    | _ => none

section Kept

variable {text : String} {lines : List String} {patch : Patch} {first count : Nat}

theorem endedLine?_eq_some {number : Nat} {line : RuledLine}
    (ended : endedLine? (ruled text) number = some line) :
    (ruled text)[number]? = some line ∧ number + 1 < (ruled text).length := by
  obtain ⟨present, other⟩ := Option.filter_eq_some_iff.mp ended
  have notText : line.ending ≠ .text := of_decide_eq_true other
  refine ⟨present, ?_⟩
  obtain ⟨inside, rfl⟩ := List.getElem?_eq_some_iff.mp present
  obtain ⟨above, last, split, ends, -⟩ := ruledFrom_ends text.toList
  by_contra final
  have size : (ruled text).length = above.length + 1 := by
    rw [ruled, split, List.length_append, List.length_singleton]
  obtain rfl : number = above.length := by omega
  apply notText
  simp only [ruled, split, List.getElem_concat_length, ends]

theorem join_toList_cons (line : String) (filled : lines ≠ []) :
    (join "\n" (line :: lines)).toList = line.toList ++ '\n' :: (join "\n" lines).toList := by
  rw [← List.singleton_append, toList_join_append filled]
  simp [fed]

/-- Where the last line is not dropped, some line stands below every other one. -/
theorem after_ne_nil (old : List String) (before : patch.before = List.range' first count)
    (whole : first + count = old.length) (filled : 0 < count)
    (low : ∀ number, .drop number ∈ patch → number + 1 < old.length) :
    Patch.after old patch ≠ [] := by
  have last : first + count - 1 ∈ patch.before := by
    rw [before, List.mem_range'_1]
    omega
  obtain ⟨change, member, known⟩ := List.mem_filterMap.mp last
  have inside : first + count - 1 < old.length := by omega
  have stands : ∃ line, change.line? old = some line := by
    cases change with
    | keep number =>
      cases known
      exact ⟨_, List.getElem?_eq_getElem inside⟩
    | drop number =>
      cases known
      have short := low _ member
      omega
    | redo number other => exact ⟨other, rfl⟩
    | add other => exact ⟨other, rfl⟩
  obtain ⟨line, stands⟩ := stands
  exact List.ne_nil_of_mem (List.mem_filterMap.mpr ⟨change, member, stands⟩)

theorem kept_eq_nil (none : Patch.after ((ruled text).map RuledLine.text) patch = []) :
    patch.kept (ruled text) = [] := by
  rw [Patch.kept, List.filterMap_eq_nil_iff]
  intro change member
  have gone := List.filterMap_eq_nil_iff.mp none change member
  cases change with
  | keep number =>
    rw [Change.line?, List.getElem?_map, Option.map_eq_none_iff] at gone
    simp only [endedLine?, gone, Option.filter_none]
  | drop number => rfl
  | redo number other => rfl
  | add other => rfl

/-- A further line on top leaves the lines below. -/
theorem sublist_ruled_cons {kept : List RuledLine} (line : String)
    (rest : kept.Sublist (ruled (join "\n" lines))) (none : lines = [] → kept = []) :
    kept.Sublist (ruled (join "\n" (line :: lines))) := by
  by_cases filled : lines = []
  · rw [none filled]
    exact List.nil_sublist _
  · obtain ⟨top, above, read⟩ :=
      ruledFrom_behind line.toList (join "\n" lines).toList
    rw [ruled, join_toList_cons line filled, read]
    exact (rest.trans (List.sublist_append_right above _)).trans (List.sublist_cons_self top _)

/-- A line on top of others ends with a line feed. -/
theorem ruled_join_fed {line : RuledLine} (member : line ∈ ruled text) (filled : lines ≠ []) :
    ruled (join "\n" (line.text :: lines)) = line.fed :: ruled (join "\n" lines) := by
  have plain := plain_of_mem_ruledFrom text.toList line member
  rw [ruled, join_toList_cons _ filled, RuledLine.text, String.toList_ofList, ruledFrom_fed plain]
  rfl

/-- The numbers below the first change of a patch. -/
theorem before_tail {change : Change} (before : Patch.before (change :: patch) =
    List.range' first count) :
    (change.number? = none ∧ patch.before = List.range' first count) ∨
      (change.number? = some first ∧ ∃ less, count = less + 1 ∧
        patch.before = List.range' (first + 1) less) := by
  rw [Patch.before, List.filterMap_cons] at before
  cases known : change.number? with
  | none =>
    rw [known] at before
    exact .inl ⟨rfl, before⟩
  | some number =>
    rw [known] at before
    cases count with
    | zero => cases before
    | succ less =>
      rw [List.range'_succ, List.cons.injEq] at before
      exact .inr ⟨by rw [before.1], less, rfl, before.2⟩

/-- Lines that are kept stand in the text with line feeds at their ends. By induction on the patch,
which leads from the lines of a number on. -/
theorem kept_sublist (text : String) (before : patch.before = List.range' first count)
    (whole : first + count = (ruled text).length)
    (low : ∀ number, .drop number ∈ patch → number + 1 < (ruled text).length) :
    ((patch.kept (ruled text)).map RuledLine.fed).Sublist
      (ruled (join "\n" (patch.after ((ruled text).map RuledLine.text)))) := by
  induction patch generalizing first count with
  | nil => exact List.nil_sublist _
  | cons change patch ih =>
    have low' : ∀ number, .drop number ∈ patch → number + 1 < (ruled text).length :=
      fun number member => low number (List.mem_cons_of_mem _ member)
    have none : Patch.after ((ruled text).map RuledLine.text) patch = [] →
        (Patch.kept (ruled text) patch).map RuledLine.fed = [] := by
      intro none
      rw [kept_eq_nil none, List.map_nil]
    rcases before_tail before with ⟨new, before'⟩ | ⟨known, less, rfl, before'⟩
    · have rest := ih before' whole low'
      cases change with
      | add line => exact sublist_ruled_cons line rest none
      | keep number => cases new
      | drop number => cases new
      | redo number line => cases new
    · have rest := ih before' (by omega) low'
      cases change with
      | add line => cases known
      | drop number => exact rest
      | redo number line => exact sublist_ruled_cons line rest none
      | keep number =>
        obtain rfl := Option.some.inj known
        have inside : number < (ruled text).length := by omega
        have stands : ((ruled text).map RuledLine.text)[number]? =
            some ((ruled text)[number].text) := by
          rw [List.getElem?_map, List.getElem?_eq_getElem inside, Option.map_some]
        have lines : Patch.after ((ruled text).map RuledLine.text) (.keep number :: patch) =
            (ruled text)[number].text ::
              Patch.after ((ruled text).map RuledLine.text) patch :=
          List.filterMap_cons_some stands
        rw [lines]
        cases ended : endedLine? (ruled text) number with
        | none =>
          have same : Patch.kept (ruled text) (.keep number :: patch) =
              Patch.kept (ruled text) patch := List.filterMap_cons_none ended
          rw [same]
          exact sublist_ruled_cons _ rest none
        | some line =>
          obtain ⟨present, above⟩ := endedLine?_eq_some ended
          have same : Patch.kept (ruled text) (.keep number :: patch) =
              line :: Patch.kept (ruled text) patch := List.filterMap_cons_some ended
          have filled := after_ne_nil ((ruled text).map RuledLine.text) before'
            (by rw [List.length_map]; omega) (by omega)
            (fun number member => by rw [List.length_map]; exact low' number member)
          rw [List.getElem?_eq_getElem inside, Option.some.injEq] at present
          have member : line ∈ ruled text := by
            rw [← present]
            exact List.getElem_mem inside
          rw [same, present, List.map_cons, ruled_join_fed member filled]
          exact rest.cons_cons _

end Kept

section Patches

variable {module : String} {rows : List FixRow} {bench last : Bench} {old lines : List String}
  {added : List Addition}

/-- What pruning may do to a file: lines inside steps go. -/
inductive PruneChange (locations : List Location) : Change → Prop where
  | keep (number : Nat) : PruneChange locations (.keep number)
  | drop {location : Location} {number : Nat} (listed : location ∈ locations)
      (inside : location.HasInside number) : PruneChange locations (.drop number)

/-- What rows do to a file, the import apart: lines for them come in. -/
inductive SpeechChange (rows : List FixRow) : Change → Prop where
  | keep (number : Nat) : SpeechChange rows (.keep number)
  | add {addition : Addition} (asked : addition.Asked rows) :
      SpeechChange rows (.add addition.line)

/-- Pruning drops lines inside steps and does nothing else. -/
theorem prune_patched {reach : Int} {report : PruneReport}
    (ran : prune reach bench = .ok report last) :
    Patched (PruneChange (foundIn bench.buffer)) bench.buffer.lines bench.buffer.lines.length 0
      last.buffer.lines := by
  obtain ⟨survey, cuts, surveyed, -, -, made, order, -, missing, -⟩ := prune_inside_steps ran
  have listed : foundIn bench.buffer = survey.found := by rw [foundIn, surveyed]
  have left : (List.range bench.buffer.lines.length).filter
      (· ∈ bench.buffer.numbersLeft cuts) = bench.buffer.numbersLeft cuts := by
    apply (List.pairwise_lt_range.sublist List.filter_sublist).eq_of_mem_iff
      (List.pairwise_lt_range.sublist order)
    intro number
    rw [List.mem_filter, decide_eq_true_iff]
    exact ⟨And.right, fun member => ⟨order.subset member, member⟩⟩
  refine ⟨Patch.sieve (· ∈ bench.buffer.numbersLeft cuts) 0 bench.buffer.lines.length, ?_, ?_,
    Nat.le_of_eq (Patch.redos_sieve _ _ _), ?_⟩
  · rw [Patch.before_sieve, List.range_eq_range']
  · rw [Patch.after_sieve, ← List.range_eq_range', left, made, ← List.filterMap_eq_map]
    apply List.filterMap_congr
    intro number member
    have inside := List.mem_range.mp (order.subset member)
    simp [lineAt, Buffer.line?, List.getElem?_eq_getElem inside]
  · intro change member
    obtain ⟨number, -, inside, ⟨-, rfl⟩ | ⟨gone, rfl⟩⟩ := Patch.of_mem_sieve member
    · exact .keep number
    · rw [Nat.zero_add] at inside
      obtain ⟨location, found, within⟩ := missing number inside (of_decide_eq_false gone)
      exact .drop (by rwa [listed]) within

/-- Where lines come in among others, a patch keeps those. -/
theorem patch_of_woven {first : Nat} {more : List String}
    (woven : Woven more (added.map Addition.line) lines) (rest : old.drop first = more)
    (asked : ∀ addition ∈ added, addition.Asked rows) :
    ∃ patch : Patch, patch.before = List.range' first more.length ∧ patch.after old = lines ∧
      patch.redos = 0 ∧ ∀ change ∈ patch, SpeechChange rows change := by
  generalize same : added.map Addition.line = texts at woven
  induction woven generalizing first added with
  | done => exact ⟨[], rfl, rfl, rfl, fun change absent => absurd absent List.not_mem_nil⟩
  | @keep more _ _ line _ ih =>
    have inside : first < old.length := by
      by_contra high
      rw [List.drop_eq_nil_of_le (by omega)] at rest
      cases rest
    rw [List.drop_eq_getElem_cons inside, List.cons.injEq] at rest
    obtain ⟨patch, before, made, calm, sound⟩ := ih rest.2 asked same
    refine ⟨.keep first :: patch, ?_, ?_, ?_, ?_⟩
    · rw [List.length_cons, List.range'_succ, ← before]
      rfl
    · have stands : (Change.keep first).line? old = some line := by
        rw [← rest.1]
        exact List.getElem?_eq_getElem inside
      rw [Patch.after, List.filterMap_cons_some stands, ← made]
      rfl
    · rw [← calm]
      rfl
    · intro change member
      rcases List.mem_cons.mp member with rfl | later
      · exact .keep first
      · exact sound change later
  | add line _ ih =>
    obtain ⟨addition, added, rfl, rfl, others⟩ := List.map_eq_cons_iff.mp same
    obtain ⟨patch, before, made, calm, sound⟩ :=
      ih rest (fun other member => asked other (List.mem_cons_of_mem _ member)) others
    refine ⟨.add addition.line :: patch, before, ?_, ?_, ?_⟩
    · rw [← made]
      rfl
    · rw [← calm]
      rfl
    · intro change member
      rcases List.mem_cons.mp member with rfl | later
      · exact .add (asked addition (List.mem_cons_self ..))
      · exact sound change later

theorem applyFixes_patched {report : SpeechReport}
    (ran : applyFixes module rows bench = .ok report last) :
    Patched (WithImports [speakDirective] module bench.buffer.lines (SpeechChange rows))
      bench.buffer.lines bench.buffer.lines.length 1 last.buffer.lines := by
  obtain ⟨counts, middle, worked, -, -, same⟩ := applyFixes_ran ran
  have members : ∀ pair ∈ bottomUp (locateRows bench.buffer rows).1, pair.2 ∈ rows :=
    fun pair member => (mem_locateRows.mp (mem_bottomUp.mp member)).1
  obtain ⟨added, ⟨woven, asked⟩, -⟩ := applyRows_grows members worked (.refl rows _)
  obtain ⟨patch, before, made, calm, sound⟩ := patch_of_woven woven List.drop_zero asked
  have plain : Patched (WithImports [speakDirective] module bench.buffer.lines
      (SpeechChange rows)) bench.buffer.lines bench.buffer.lines.length 0 middle.buffer.lines := by
    refine ⟨patch, ?_, made, Nat.le_of_eq calm, fun change member => .plain (sound change member)⟩
    rw [before, List.range_eq_range']
  rw [same]
  split
  · exact plain.mono (Nat.zero_le 1)
  · have named : PlainSymbol speakDirective :=
      ⟨'C', "HARACTER_SPEAK".toList, by decide, by decide, by decide⟩
    exact plain.ensureImport (importStable (List.mem_singleton_self speakDirective) _ named)

end Patches

section Source

variable {α : Type} {note : Note} {path text : String} {trial : Bool} {job : Job α}
  {changes : α → Bool} {world after : World} {edited : Edited α}

/-- Notes leave a file alone. -/
def Spares (note : Note) (path : String) : Prop :=
  ∀ message world, ((note message).on world).2.disk.read path = world.disk.read path

theorem noteAll_spares {messages : List String} {u : Unit} (spares : Spares note path)
    (ran : (noteAll note messages).on world = (.ok u, after)) :
    after.disk.read path = world.disk.read path := by
  induction messages generalizing world with
  | nil => rw [(Shell.pure_on.mp ran).2]
  | cons message rest ih =>
    obtain ⟨_, middle, noted, others⟩ := Shell.bind_on.mp ran
    have same := spares message world
    rw [noted] at same
    rw [ih others, same]

/-- A file holds the text of the buffer if it was written, and else what it held. -/
theorem editSource_on (spares : Spares note path) (stands : world.disk.read path = .ok text)
    (ran : (editSource note path trial job changes).on world = (.ok edited, after)) :
    ∃ bench, job.onText text = .ok edited.report bench ∧
      edited.written = (changes edited.report && !trial) ∧
      after.disk.read path = .ok (if edited.written then bench.buffer.text else text) := by
  obtain ⟨⟨report, buffer⟩, middle, sourced, ran'⟩ := Shell.bind_on.mp ran
  obtain ⟨found, here, read, worked⟩ := Shell.bind_on.mp sourced
  obtain ⟨read, rfl⟩ := Shell.read_on.mp read
  obtain rfl : text = found := by
    rw [stands] at read
    exact Except.ok.inj read
  cases done : job.onText text with
  | error fault bench =>
    rw [done] at worked
    obtain ⟨_, _, -, thrown⟩ := Shell.bind_on.mp worked
    cases thrown
  | ok value bench =>
    rw [done] at worked
    obtain ⟨_, noted, logged, ends⟩ := Shell.bind_on.mp worked
    obtain ⟨same, rfl⟩ := Shell.pure_on.mp ends
    obtain ⟨rfl, rfl⟩ := Prod.mk.inj same
    have held := noteAll_spares spares logged
    rw [stands] at held
    dsimp only at ran'
    by_cases written : (changes value && !trial) = true
    · rw [if_pos written] at ran'
      obtain ⟨_, _, wrote, ends⟩ := Shell.bind_on.mp ran'
      obtain ⟨rfl, rfl⟩ := Shell.pure_on.mp ends
      refine ⟨bench, rfl, rfl, ?_⟩
      rw [if_pos written]
      exact Shell.read_of_write_on wrote
    · rw [if_neg written] at ran'
      obtain ⟨rfl, rfl⟩ := Shell.pure_on.mp ran'
      refine ⟨bench, rfl, rfl, ?_⟩
      rw [if_neg written]
      exact held

/-- What a command leaves of a file: the text as it was, or what a patch makes of its lines. Lines
that are kept and have an end stand there in their order, with line feeds at their ends; if the
text has no other ends, they are just the lines they were. -/
structure Leaves (allowed : Change → Prop) (count : Nat) (text : String) (written : Bool)
    (file : Except PathFault String) : Prop where
  idle : written = false → file = .ok text
  patched : written = true → ∃ (patch : Patch) (new : String), file = .ok new ∧
    patch.before = List.range (ruled text).length ∧
    new = join "\n" (patch.after ((ruled text).map RuledLine.text)) ∧
    patch.redos ≤ count ∧ (∀ change ∈ patch, allowed change) ∧
    ((patch.kept (ruled text)).map RuledLine.fed).Sublist (ruled new) ∧
    ('\r' ∉ text.toList → (patch.kept (ruled text)).Sublist (ruled new))

theorem kept_fed {patch : Patch} (none : '\r' ∉ text.toList) :
    (patch.kept (ruled text)).map RuledLine.fed = patch.kept (ruled text) := by
  have feeds := (ends_feed_iff text).mpr none
  rw [List.map_congr_left (g := id), List.map_id]
  intro line member
  obtain ⟨change, -, kept⟩ := List.mem_filterMap.mp member
  cases change with
  | keep number =>
    obtain ⟨present, above⟩ := endedLine?_eq_some kept
    have ended : line.ending = .feed := by
      apply feeds
      rw [List.dropLast_eq_take, List.mem_take_iff_getElem]
      obtain ⟨inside, rfl⟩ := List.getElem?_eq_some_iff.mp present
      exact ⟨number, by omega, rfl⟩
    rw [RuledLine.fed, ← ended]
    rfl
  | drop number => cases kept
  | redo number other => cases kept
  | add other => cases kept

/-- The outcome of a job that patches the lines. -/
theorem leaves_of_patched {allowed : Change → Prop} {count : Nat} {written : Bool}
    {lines : List String} {file : Except PathFault String}
    (patched : Patched allowed (Buffer.ofText (unifiedNewlines text)).lines
      (Buffer.ofText (unifiedNewlines text)).lines.length count lines)
    (low : ∀ number, allowed (.drop number) →
      number + 1 < (Buffer.ofText (unifiedNewlines text)).lines.length)
    (answer : file = .ok (if written then join "\n" lines else text)) :
    Leaves allowed count text written file := by
  have old : (Buffer.ofText (unifiedNewlines text)).lines = (ruled text).map RuledLine.text :=
    linesOf_unified text
  have size : (Buffer.ofText (unifiedNewlines text)).lines.length = (ruled text).length := by
    rw [old, List.length_map]
  rw [size] at low
  constructor
  · intro idle
    rw [answer, idle, if_neg Bool.false_ne_true]
  · intro written
    obtain ⟨patch, before, made, few, sound⟩ := patched
    rw [size] at before
    rw [old] at made
    have kept := kept_sublist text (by rw [before, List.range_eq_range'])
      (Nat.zero_add _) fun number member => low number (sound _ member)
    refine ⟨patch, join "\n" lines, ?_, before, by rw [made], few, sound, ?_, ?_⟩
    · rw [answer, if_pos written]
    · rwa [made] at kept
    · intro none
      rwa [made, kept_fed none] at kept

theorem inside_lt {buffer : Buffer} {location : Location} {number : Nat}
    (listed : location ∈ foundIn buffer) (inside : location.HasInside number) :
    number + 1 < buffer.lines.length := by
  obtain ⟨survey, surveyed, found⟩ := foundIn_eq rfl (List.ne_nil_of_mem listed)
  rw [← found] at listed
  obtain ⟨steps, stepped, -, low⟩ := inside
  obtain ⟨-, -, inner, outer⟩ := spans_of_findAll surveyed location listed steps stepped
  omega

theorem plain_drop {symbols : List String} {module : String} {old : List String}
    {plain : Change → Prop} {number : Nat}
    (dropped : WithImports symbols module old plain (.drop number)) : plain (.drop number) := by
  generalize same : Change.drop number = change at dropped
  cases dropped with
  | plain allowed => exact allowed
  | line member imports => cases same
  | @redone change symbol line text earlier member stands takes =>
    cases change with
    | drop number => cases stands
    | keep number => cases same
    | redo number other => cases same
    | add other => cases same

end Source

section Commands

variable {note : Note} {path text : String} {world : World}

theorem onText_issues {α : Type} (job : Job α) (messages : α → List Issue) (label : String)
    {value : α} {bench : Bench}
    (ran : Job.onText (do
      let report ← job
      Job.noteIssues label path (messages report)
      return report) text = .ok value bench) :
    ∃ middle, job ⟨Buffer.ofText (unifiedNewlines text), []⟩ = .ok value middle ∧
      bench.buffer = middle.buffer := by
  obtain ⟨report, middle, worked, ran'⟩ := bind_ran.mp ran
  obtain ⟨_, noted, logged, ends⟩ := bind_ran.mp ran'
  obtain ⟨rfl, rfl⟩ := pure_ran.mp ends
  obtain rfl := modify_ran.mp logged
  exact ⟨middle, worked, rfl⟩

/-- The commands write a file only when they changed something and it is no trial, and else leave
it. What they write is a patch of the lines: pruning drops lines inside steps, merging drops lines
of runs for their calls and alters two lines at most, and rows bring in lines and alter one at most.
Every line that is kept ends with a line feed then, so only texts without carriage returns keep
their lines as they are. -/
theorem commands_keep_lines (spares : Spares note path)
    (stands : world.disk.read path = .ok text) :
    (∀ settings trial edited after,
      (pruneSource note settings trial path).on world = (.ok edited, after) →
      edited.written = (edited.report.total != 0 && !trial) ∧
      Leaves (PruneChange (foundIn (Buffer.ofText (unifiedNewlines text)))) 0 text edited.written
        (after.disk.read path)) ∧
    (∀ settings trial edited after,
      (mergeSource note settings trial path).on world = (.ok edited, after) →
      edited.written = (!edited.report.groups.isEmpty && !trial) ∧
      Leaves (WithImports groupSymbols settings.templateModule ((ruled text).map RuledLine.text)
          (MergeChange (Buffer.ofText (unifiedNewlines text))
            (foundIn (Buffer.ofText (unifiedNewlines text))))) 2 text edited.written
        (after.disk.read path)) ∧
    (∀ module rows trial edited after,
      (editSource note path trial (applyFixes module rows) (·.inserted != 0)).on world =
        (.ok edited, after) →
      edited.written = (edited.report.inserted != 0 && !trial) ∧
      Leaves (WithImports [speakDirective] module ((ruled text).map RuledLine.text)
        (SpeechChange rows)) 1 text edited.written (after.disk.read path)) := by
  have old : (Buffer.ofText (unifiedNewlines text)).lines = (ruled text).map RuledLine.text :=
    linesOf_unified text
  rw [← old]
  refine ⟨?_, ?_, ?_⟩
  · intro settings trial edited after ran
    obtain ⟨bench, worked, written, file⟩ := editSource_on spares stands ran
    obtain ⟨middle, pruned, same⟩ :=
      onText_issues (prune settings.shakeClusterLines) (·.issues) "structural" worked
    rw [Buffer.text, same] at file
    have patched := prune_patched pruned
    refine ⟨written, leaves_of_patched patched ?_ file⟩
    intro number dropped
    cases dropped with
    | drop listed inside => exact inside_lt listed inside
  · intro settings trial edited after ran
    obtain ⟨bench, worked, written, file⟩ := editSource_on spares stands ran
    obtain ⟨middle, merged, same⟩ :=
      onText_issues (mergeEntrances settings.templateModule) (·.issues) "parallelize" worked
    rw [Buffer.text, same] at file
    have patched := mergeEntrances_patched merged
    refine ⟨written, leaves_of_patched patched ?_ file⟩
    intro number dropped
    cases plain_drop dropped with
    | drop listed inside => exact inside_lt listed inside
  · intro module rows trial edited after ran
    obtain ⟨bench, worked, written, file⟩ := editSource_on spares stands ran
    have patched := applyFixes_patched worked
    refine ⟨written, leaves_of_patched patched ?_ file⟩
    intro number dropped
    cases plain_drop dropped

/-- A text with a repeated line, all of whose lines end in one way. -/
def repeatedText (ending : String) : String :=
  "const A = \x7b" ++ ending ++ "id: 'a'," ++ ending ++ "steps: [" ++ ending ++
    "...NARRATOR('x')," ++ ending ++ "...NARRATOR('x')," ++ ending ++ "]," ++ ending ++
    "\x7d;" ++ ending

/-- A world with one file. -/
def worldWith (text : String) : World := ⟨⟨[(["a.ts"], .file text)]⟩, [], ⟨0⟩⟩

/-- What pruning reports and leaves of the file. -/
def prunedFile? (text : String) : Option (Nat × String) :=
  match (pruneSource Shell.print (Settings.ofEnvironment []) false "a.ts").on (worldWith text) with
  | (.ok edited, after) =>
    ((after.disk.read "a.ts").toOption).map fun new => (edited.report.total, new)
  | _ => none

theorem prunedFile?_eq_some {total : Nat} {new : String}
    (pruned : prunedFile? text = some (total, new)) :
    ∃ edited after, (pruneSource Shell.print (Settings.ofEnvironment []) false "a.ts").on
        (worldWith text) = (.ok edited, after) ∧ edited.report.total = total ∧
      after.disk.read "a.ts" = .ok new := by
  rw [prunedFile?] at pruned
  split at pruned
  · next edited after ran =>
    refine ⟨edited, after, ran, ?_⟩
    cases file : after.disk.read "a.ts" with
    | error fault =>
      rw [file] at pruned
      cases pruned
    | ok found =>
      rw [file] at pruned
      cases pruned
      exact ⟨rfl, rfl⟩
  · cases pruned

theorem commands_keep_lines_repeated : ∃ edited after,
    (pruneSource Shell.print (Settings.ofEnvironment []) false "a.ts").on
        (worldWith (repeatedText "\n")) = (.ok edited, after) ∧ edited.written = true ∧
      Leaves (PruneChange (foundIn (Buffer.ofText (unifiedNewlines (repeatedText "\n"))))) 0
        (repeatedText "\n") true (after.disk.read "a.ts") := by
  have pruned : (prunedFile? (repeatedText "\n")).map (·.1) = some 1 := by decide +kernel
  obtain ⟨⟨total, new⟩, pruned, rfl⟩ := Option.map_eq_some_iff.mp pruned
  obtain ⟨edited, after, ran, counted, -⟩ := prunedFile?_eq_some pruned
  have spares : Spares Shell.print "a.ts" := fun message world => rfl
  have stands : (worldWith (repeatedText "\n")).disk.read "a.ts" =
      .ok (repeatedText "\n") := by decide +kernel
  obtain ⟨written, leaves⟩ := (commands_keep_lines spares stands).1 _ _ edited after ran
  have wrote : edited.written = true := by
    rw [written, counted]
    rfl
  rw [wrote] at leaves
  exact ⟨edited, after, ran, wrote, leaves⟩

/-- One line goes, and none of the others keeps its end. -/
theorem pruneSource_unrules : ∃ edited after new,
    (pruneSource Shell.print (Settings.ofEnvironment []) false "a.ts").on
        (worldWith (repeatedText "\r\n")) = (.ok edited, after) ∧ edited.report.total = 1 ∧
      after.disk.read "a.ts" = .ok new ∧ (ruled (repeatedText "\r\n")).length = 8 ∧
      ∀ line ∈ (ruled (repeatedText "\r\n")).dropLast, line.ending = .both ∧ line ∉ ruled new := by
  have pruned : prunedFile? (repeatedText "\r\n") = some (1, "const A = \x7b\nid: 'a',\n" ++
      "steps: [\n...NARRATOR('x'),\n],\n\x7d;\n") := by decide +kernel
  obtain ⟨edited, after, ran, counted, file⟩ := prunedFile?_eq_some pruned
  exact ⟨edited, after, _, ran, counted, file, by decide +kernel, by decide +kernel⟩

end Commands

end Stagecraft
