import Mathlib.Data.List.SplitBy
import Stagecraft.Edit.Prune
import Stagecraft.Proofs.Edit.Steps
import Stagecraft.Proofs.Record.Level

/-!
What the passes remove. Whatever a pass picks is a step-level block up to its closing line, or one
step-level line that spreads a directive; it lies between the ends of the steps. A property of a
site that such removals keep is kept by the passes at one record.
-/

namespace Stagecraft

variable {buffer : Buffer} {steps span : Span} {reach : Int} {line : Nat} {spans : List Span}
  {blocks : List Block} {lines : List Nat}

/-- A pass may take these lines from the steps. -/
inductive Removable (buffer : Buffer) (steps : Span) : Span → Prop where
  | block {line close : Nat} (level : LevelAt buffer.lines steps.start (steps.stop - 1) line)
      (starts : startsBlock (lineAt buffer line) = true)
      (closes : matchingClose .curly buffer.lines line (steps.stop - 1) = some close) :
      Removable buffer steps (buffer.span line (close + 1))
  | directive {line : Nat} (level : LevelAt buffer.lines steps.start (steps.stop - 1) line)
      (spreads : (spreadDirective? (lineAt buffer line)).isSome = true) :
      Removable buffer steps (buffer.span line (line + 1))

theorem Removable.current (removable : Removable buffer steps span) :
    span.revision = buffer.revision := by
  cases removable <;> rfl

theorem Removable.bounds (removable : Removable buffer steps span) :
    steps.start < span.start ∧ span.start < span.stop ∧ span.stop + 1 ≤ steps.stop := by
  cases removable with
  | block level _ closes =>
    have bounds := matchingClose_bounds closes
    obtain ⟨low, high, -⟩ := level
    simp only [Buffer.span]
    omega
  | directive level _ =>
    obtain ⟨low, high, -⟩ := level
    simp only [Buffer.span]
    omega

section Doomed

theorem mem_levelsOf (found : levelsOf buffer steps = .ok lines) (member : line ∈ lines) :
    LevelAt buffer.lines steps.start (steps.stop - 1) line :=
  ((stepLevelLines_ok found).2 line).mp member

theorem removable_of_stepBlocks (found : stepBlocks buffer steps = .ok blocks) {block : Block}
    (member : block ∈ blocks) : Removable buffer steps block.span := by
  obtain ⟨levels, leveled, mapped⟩ := Except.bind_ran.mp found
  obtain ⟨line, present, made⟩ := Except.mem_mapM mapped member
  obtain ⟨level, starts⟩ := List.mem_filter.mp present
  obtain ⟨close, closed, made⟩ := Except.bind_ran.mp made
  cases made
  have closes : matchingClose .curly buffer.lines line (steps.stop - 1) = some close := by
    cases asked : requireClose .curly buffer.lines line (steps.stop - 1) with
    | error fault =>
      rw [asked] at closed
      cases closed
    | ok found =>
      rw [asked] at closed
      cases closed
      rw [requireClose] at asked
      split at asked
      · next same =>
        cases asked
        exact same
      · cases asked
  exact .block (mem_levelsOf leveled level) starts closes

theorem removable_of_directiveLines {directives : List (Nat × String)} {name : String}
    (found : directiveLines buffer steps = .ok directives) (member : (line, name) ∈ directives) :
    Removable buffer steps (buffer.span line (line + 1)) := by
  obtain ⟨levels, leveled, made⟩ := Except.bind_ran.mp found
  cases made
  obtain ⟨level, present, named⟩ := List.mem_filterMap.mp member
  obtain ⟨other, spread, same⟩ := Option.map_eq_some_iff.mp named
  cases same
  exact .directive (mem_levelsOf leveled present) (by rw [spread]; rfl)

theorem mem_linesNamed {directives : List (Nat × String)} {name : String}
    (member : line ∈ linesNamed name directives) : ∃ name, (line, name) ∈ directives := by
  obtain ⟨⟨other, found⟩, present, rfl⟩ := List.mem_map.mp member
  exact ⟨found, (List.mem_filter.mp present).1⟩

theorem mem_weakerShakes {cluster : List Block} (member : span ∈ weakerShakes cluster) :
    ∃ block ∈ cluster, span = block.span := by
  rw [weakerShakes] at member
  split at member
  · cases member
  · obtain ⟨block, present, rfl⟩ := List.mem_map.mp member
    exact ⟨block, List.mem_of_mem_eraseIdx present, rfl⟩

theorem mem_shakeClusters {cluster : List Block} {block : Block}
    (member : cluster ∈ shakeClusters reach blocks) (inside : block ∈ cluster) :
    block ∈ blocks := by
  have whole := List.mem_flatten.mpr ⟨cluster, member, inside⟩
  rw [shakeClusters, List.flatten_splitBy] at whole
  exact (List.mem_filter.mp whole).1

theorem mem_repeatsAfter {before : Option String}
    (member : line ∈ repeatsAfter buffer before lines) : line ∈ lines := by
  induction lines generalizing before with
  | nil => cases member
  | cons first rest ih =>
    simp only [repeatsAfter] at member
    split at member
    · rcases List.mem_cons.mp member with rfl | later
      · simp
      · exact List.mem_cons_of_mem _ (ih later)
    · exact List.mem_cons_of_mem _ (ih member)

/-- Each pass picks what may be removed. -/
theorem removable_of_doomed {pass : Pass} (picked : pass.doomed reach buffer steps = .ok spans)
    (member : span ∈ spans) : Removable buffer steps span := by
  cases pass with
  | cameraShake =>
    obtain ⟨blocks, found, made⟩ := Except.bind_ran.mp picked
    cases made
    obtain ⟨cluster, present, weaker⟩ := List.mem_flatMap.mp member
    obtain ⟨block, inside, rfl⟩ := mem_weakerShakes weaker
    exact removable_of_stepBlocks found (mem_shakeClusters present inside)
  | duplicates =>
    obtain ⟨directives, found, made⟩ := Except.bind_ran.mp picked
    cases made
    obtain ⟨line, repeated, rfl⟩ := List.mem_map.mp member
    obtain ⟨⟨other, name⟩, present, rfl⟩ := List.mem_map.mp (mem_repeatsAfter repeated)
    exact removable_of_directiveLines found present
  | idleBlocks =>
    obtain ⟨blocks, found, made⟩ := Except.bind_ran.mp picked
    cases made
    obtain ⟨block, present, rfl⟩ := List.mem_map.mp member
    exact removable_of_stepBlocks found (List.mem_filter.mp present).1
  | cheerBlocks =>
    obtain ⟨directives, -, chosen⟩ := Except.bind_ran.mp picked
    split at chosen
    · cases chosen
      cases member
    · obtain ⟨blocks, found, made⟩ := Except.bind_ran.mp chosen
      cases made
      obtain ⟨block, present, rfl⟩ := List.mem_map.mp member
      exact removable_of_stepBlocks found
        (List.takeWhile_subset _ (List.mem_filter.mp present).1)
  | crowdCheer =>
    obtain ⟨levels, -, chosen⟩ := Except.bind_ran.mp picked
    obtain ⟨directives, found, made⟩ := Except.bind_ran.mp chosen
    cases made
    obtain ⟨line, present, rfl⟩ := List.mem_map.mp member
    obtain ⟨name, spread⟩ := mem_linesNamed (List.mem_filter.mp present).1
    exact removable_of_directiveLines found spread

end Doomed

/-- A property of sites that removals keep. It depends on `x`, which may change with a removal, and
only spans that fit in are removed; those further up go on fitting in. -/
structure Upkeep {σ : Type} (holds : σ → Site → Prop) (fits : σ → Span → Prop) : Prop where
  fits_of_removable : ∀ {x : σ} {site : Site} {span : Span}, holds x site →
    Removable site.buffer site.steps span → fits x span
  cut : ∀ {x : σ} {site : Site} {span : Span}, holds x site → fits x span →
    span.start < span.stop → ∃ y, holds y (site.cut span.start span.stop) ∧
      ∀ other : Span, other.stop ≤ span.start → fits x other → fits y other

theorem Work.requireSpan_ran {site after : Site} {u : Unit} :
    requireSpan span site = .ok u after ↔ site.buffer.isValid span = true ∧ after = site := by
  rw [requireSpan, Buffer.require]
  by_cases valid : site.buffer.isValid span
  · simp [valid, eq_comm]
  · simp [valid]

theorem le_of_isValid (valid : buffer.isValid span = true) :
    ∀ index ∈ buffer.edits.drop span.revision, span.stop ≤ index := by
  rw [Buffer.isValid, List.all_eq_true] at valid
  intro index member
  exact of_decide_eq_true (valid index member)

/-- After a deletion a span is good if it was good and lies above. -/
theorem isValid_deleteLines {start stop : Nat} (old : span.revision ≤ buffer.revision) :
    (buffer.deleteLines start stop).isValid span = true ↔
      buffer.isValid span = true ∧ span.stop ≤ start := by
  rw [Buffer.isValid, Buffer.isValid, Buffer.deleteLines, List.drop_append_of_le_length old]
  simp

section Run

variable {σ : Type} {holds : σ → Site → Prop} {fits : σ → Span → Prop} {x : σ}
  {site after : Site} {pass : Pass} {count : Nat} {u : Unit}

theorem removeEach_keeps (cuts : ∀ {x : σ} {site : Site} {span : Span}, holds x site → fits x span →
      span.start < span.stop → ∃ y, holds y (site.cut span.start span.stop) ∧
        ∀ other : Span, other.stop ≤ span.start → fits x other → fits y other)
    (held : holds x site)
    (old : ∀ span ∈ spans, span.revision ≤ site.buffer.revision)
    (fit : ∀ span ∈ spans, site.buffer.isValid span = true → fits x span)
    (ran : removeEach spans site = .ok u after) : ∃ y, holds y after := by
  induction spans generalizing x site with
  | nil =>
    obtain ⟨-, rfl⟩ := pure_ran.mp ran
    exact ⟨x, held⟩
  | cons span spans ih =>
    obtain ⟨_, place, required, deletes⟩ := bind_ran.mp ran
    obtain ⟨valid, rfl⟩ := Work.requireSpan_ran.mp required
    obtain ⟨_, next, deleted, removes⟩ := bind_ran.mp deletes
    obtain ⟨-, rfl⟩ := Work.delete_ran.mp deleted
    have fit' := fit span (by simp) valid
    by_cases order : span.start < span.stop
    · rw [if_pos order] at removes
      obtain ⟨y, held', kept⟩ := cuts held fit' order
      refine ih held' ?_ ?_ removes
      · intro other member
        have early := old other (List.mem_cons_of_mem _ member)
        rw [Site.cut, Buffer.revision_deleteLines]
        omega
      · intro other member valid'
        have early := old other (List.mem_cons_of_mem _ member)
        obtain ⟨before, above⟩ := (isValid_deleteLines early).mp valid'
        exact kept other above (fit other (List.mem_cons_of_mem _ member) before)
    · rw [if_neg order] at removes
      exact ih held (fun other member => old other (List.mem_cons_of_mem _ member))
        (fun other member => fit other (List.mem_cons_of_mem _ member)) removes

theorem Pass.run_keeps (upkeep : Upkeep holds fits) (held : holds x site)
    (ran : pass.run reach site = .ok count after) : ∃ y, holds y after := by
  obtain ⟨spans, picked, removes⟩ := Work.ofExcept_bind_ran.mp (get_bind_ran.mp ran)
  obtain ⟨_, place, removed, ends⟩ := bind_ran.mp removes
  obtain ⟨-, rfl⟩ := pure_ran.mp ends
  have removable {span : Span} (member : span ∈ spans.reverse) :
      Removable site.buffer site.steps span :=
    removable_of_doomed picked (List.mem_reverse.mp member)
  refine removeEach_keeps upkeep.cut held ?_ ?_ removed
  · intro span member
    exact Nat.le_of_eq (removable member).current
  · intro span member _
    exact upkeep.fits_of_removable held (removable member)

theorem bind_failed {ε τ α β : Type} {y : EStateM ε τ α} {f : α → EStateM ε τ β} {s t : τ} {e : ε} :
    (y >>= f) s = .error e t ↔
      y s = .error e t ∨ ∃ a v, y s = .ok a v ∧ f a v = .error e t := by
  change EStateM.bind y f s = .error e t ↔ _
  rw [EStateM.bind]
  cases y s with
  | ok a v => simp
  | error e v => simp

theorem delete_stale {start stop : Nat} {fault : Fault}
    (failed : Work.delete start stop site = .error fault after) :
    ∃ stale, fault = .stale stale := by
  rcases bind_failed.mp failed with required | ⟨_, _, -, modified⟩
  · rw [Work.requireSite] at required
    split at required
    · cases required
    · next stale _ =>
      cases required
      exact ⟨stale, rfl⟩
  · split at modified
    · cases modified
    · cases modified

theorem removeEach_stale {fault : Fault} (failed : removeEach spans site = .error fault after) :
    ∃ stale, fault = .stale stale := by
  induction spans generalizing site with
  | nil => cases failed
  | cons span spans ih =>
    rcases bind_failed.mp failed with required | ⟨_, place, -, failed⟩
    · rw [Work.requireSpan] at required
      split at required
      · cases required
      · next stale _ =>
        cases required
        exact ⟨stale, rfl⟩
    · rcases bind_failed.mp failed with deleted | ⟨_, next, -, failed⟩
      · exact delete_stale deleted
      · exact ih failed

theorem Pass.run_eq : pass.run reach site =
    (Work.ofExcept (pass.doomed reach site.buffer site.steps) >>= fun spans => do
      removeEach spans.reverse
      return spans.length) site := rfl

/-- A pass fails to pick, before anything is removed, or else by a stale span. -/
theorem Pass.run_failed {fault : Fault} (failed : pass.run reach site = .error fault after) :
    (pass.doomed reach site.buffer site.steps = .error fault ∧ after = site) ∨
      ∃ stale, fault = .stale stale := by
  rw [Pass.run_eq] at failed
  rcases bind_failed.mp failed with asked | ⟨spans, place, -, failed⟩
  · left
    cases picked : pass.doomed reach site.buffer site.steps with
    | ok spans =>
      rw [picked] at asked
      cases asked
    | error fault =>
      rw [picked] at asked
      cases asked
      exact ⟨rfl, rfl⟩
  · right
    rcases bind_failed.mp failed with removed | ⟨_, _, -, ends⟩
    · exact removeEach_stale removed
    · cases ends

/-- A block without an end is met before anything is removed. -/
theorem Pass.run_nesting {fault : Nesting}
    (failed : pass.run reach site = .error (.nesting fault) after) : after = site := by
  rcases Pass.run_failed failed with ⟨-, same⟩ | ⟨stale, same⟩
  · exact same
  · cases same

end Run

section Passes

variable {location : Location} {bench after : Bench} {passes : List Pass} {report : PruneReport}
  {σ : Type} {holds : σ → Site → Prop} {fits : σ → Span → Prop} {x : σ}

theorem catchNesting_ran {α : Type} {job : Job α} {result : Except Nesting α} :
    Job.catchNesting job bench = .ok result after ↔
      (∃ value, job bench = .ok value after ∧ result = .ok value) ∨
        ∃ fault, job bench = .error (.nesting fault) after ∧ result = .error fault := by
  rw [Job.catchNesting]
  split
  · next ran => simp [ran, and_comm, eq_comm]
  · next ran => simp [ran, and_comm, eq_comm]
  · next other ran =>
    simp only [ran, reduceCtorEq, false_iff, not_or, not_exists, not_and]
    refine ⟨fun _ none => by simp at none, ?_⟩
    intro fault same
    cases same
    exact (other fault rfl).elim

/-- The passes at a record keep what each removal keeps, also where a block has no end. -/
theorem runPasses_keeps (upkeep : Upkeep holds fits) {steps : Span}
    (stepped : location.steps = some steps)
    (held : holds x ⟨bench.buffer, location.record, steps⟩)
    (ran : runPasses reach location passes bench = .ok report after) :
    ∃ y record steps, holds y ⟨after.buffer, record, steps⟩ := by
  induction passes generalizing x bench location steps report with
  | nil =>
    obtain ⟨-, rfl⟩ := pure_ran.mp ran
    exact ⟨x, location.record, steps, held⟩
  | cons pass passes ih =>
    obtain ⟨result, middle, caught, goes⟩ := bind_ran.mp ran
    rcases catchNesting_ran.mp caught with ⟨⟨moved, removed⟩, worked, rfl⟩ | ⟨fault, failed, rfl⟩
    · obtain ⟨_, place, same, passed, rfl, rfl⟩ := Job.site_ran.mp worked
      obtain rfl := Option.some.inj (stepped.symm.trans same)
      obtain ⟨y, held'⟩ := Pass.run_keeps upkeep held passed
      have others {next : Bench} {report : PruneReport} (kept : next.buffer = place.buffer)
          (ran : (do
            let others ← runPasses reach
              { location with record := place.record, steps := some place.steps } passes
            return ⟨(pass, removed) :: others.removed, others.issues⟩ : Job PruneReport) next =
              .ok report after) : ∃ y record steps, holds y ⟨after.buffer, record, steps⟩ := by
        obtain ⟨others, last, ran', ends⟩ := bind_ran.mp ran
        obtain ⟨-, rfl⟩ := pure_ran.mp ends
        have moved : holds y ⟨next.buffer, place.record, place.steps⟩ := by
          rw [kept]
          exact held'
        exact ih rfl moved ran'
      simp only at goes
      split at goes
      · exact others rfl (Job.note_bind_ran.mp goes)
      · exact others rfl goes
    · obtain ⟨_, next, noted, ends⟩ := bind_ran.mp goes
      obtain ⟨-, rfl⟩ := pure_ran.mp ends
      cases noted
      rw [Job.site, stepped] at failed
      simp only at failed
      split at failed
      · cases failed
      · next fault' place failed' =>
        cases failed
        rw [Pass.run_nesting failed']
        exact ⟨x, location.record, steps, held⟩

theorem runPasses_steps (ran : runPasses reach location Pass.all bench = .ok report after) :
    ∃ steps, location.steps = some steps := by
  obtain ⟨result, middle, caught, -⟩ := bind_ran.mp ran
  cases stepped : location.steps with
  | some steps => exact ⟨steps, rfl⟩
  | none =>
    rw [Job.catchNesting, Job.site, stepped] at caught
    cases caught

theorem pruneEach_cons_ran {locations : List Location} :
    pruneEach reach (location :: locations) bench = .ok report after ↔
      bench.buffer.isValid location.record = true ∧ ∃ first middle others,
        runPasses reach location Pass.all bench = .ok first middle ∧
          pruneEach reach locations middle = .ok others after ∧
          report = first.followedBy others := by
  constructor
  · intro ran
    obtain ⟨_, required, passes⟩ := Job.ofExcept_bind_ran.mp (get_bind_ran.mp ran)
    obtain ⟨first, middle, here, rest⟩ := bind_ran.mp passes
    obtain ⟨others, last, behind, ends⟩ := bind_ran.mp rest
    obtain ⟨same, rfl⟩ := pure_ran.mp ends
    exact ⟨liftFault_require_ran.mp required, first, middle, others, here, behind, same⟩
  · rintro ⟨valid, first, middle, others, here, behind, rfl⟩
    refine Job.ofExcept_bind_ran.mpr ⟨(), liftFault_require_ran.mpr valid, bind_ran.mpr ?_⟩
    exact ⟨first, middle, here, bind_ran.mpr ⟨others, after, behind, pure_ran.mpr ⟨rfl, rfl⟩⟩⟩

theorem pruneEach_append_ran {first second : List Location}
    (ran : pruneEach reach (first ++ second) bench = .ok report after) :
    ∃ above below middle, pruneEach reach first bench = .ok above middle ∧
      pruneEach reach second middle = .ok below after := by
  induction first generalizing bench report with
  | nil => exact ⟨⟨[], []⟩, report, bench, rfl, ran⟩
  | cons location first ih =>
    obtain ⟨valid, one, middle, others, here, behind, -⟩ := pruneEach_cons_ran.mp ran
    obtain ⟨above, below, place, ran', ran''⟩ := ih behind
    exact ⟨one.followedBy above, below, place,
      pruneEach_cons_ran.mpr ⟨valid, one, middle, above, here, ran', rfl⟩, ran''⟩

/-- What the work at each record keeps, the work at all of them keeps. -/
theorem pruneEach_keeps (held : Buffer → Prop) {locations : List Location}
    (each : ∀ location ∈ locations, ∀ {bench after : Bench} {report : PruneReport},
      held bench.buffer → bench.buffer.isValid location.record = true →
        runPasses reach location Pass.all bench = .ok report after → held after.buffer)
    (first : held bench.buffer) (ran : pruneEach reach locations bench = .ok report after) :
    held after.buffer := by
  induction locations generalizing bench report with
  | nil =>
    obtain ⟨-, rfl⟩ := pure_ran.mp ran
    exact first
  | cons location locations ih =>
    obtain ⟨valid, _, middle, _, here, behind, -⟩ := pruneEach_cons_ran.mp ran
    have next := each location (by simp) first valid here
    exact ih (fun other member => each other (List.mem_cons_of_mem _ member)) next behind

theorem prune_ran {survey : Survey} (ran : prune reach bench = .ok report after)
    (surveyed : findAll bench.buffer = .ok survey) :
    ∃ others, pruneEach reach survey.found.reverse bench = .ok others after ∧
      report.removed = others.removed := by
  obtain ⟨survey', surveyed', ran'⟩ := Job.ofExcept_bind_ran.mp (get_bind_ran.mp ran)
  rw [surveyed, Except.ok.injEq] at surveyed'
  subst surveyed'
  obtain ⟨others, last, each, ends⟩ := bind_ran.mp ran'
  obtain ⟨rfl, rfl⟩ := pure_ran.mp ends
  exact ⟨others, each, rfl⟩

/-- The lines once all passes ran over all records. -/
def prunedLines (buffer : Buffer) : Option (List String) :=
  match prune defaultReach ⟨buffer, []⟩ with
  | .ok _ after => some after.buffer.lines
  | .error _ _ => none

theorem prunedLines_eq_some {buffer : Buffer} {lines : List String}
    (pruned : prunedLines buffer = some lines) :
    ∃ report after, prune defaultReach ⟨buffer, []⟩ = .ok report after ∧
      after.buffer.lines = lines := by
  rw [prunedLines] at pruned
  split at pruned
  · next report after ran => exact ⟨report, after, ran, Option.some.inj pruned⟩
  · cases pruned

end Passes

end Stagecraft
