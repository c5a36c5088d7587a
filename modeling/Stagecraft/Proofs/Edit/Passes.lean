import Stagecraft.Proofs.Edit.Apart
import Stagecraft.Proofs.Record.Survey

/-!
What the passes take, pass by pass. A pass that gets through takes the spans it picks from the
bottom up, and they lie apart; a block without an end stops the passes at its record. The relations
below name everything that goes, and hold just of what the runs do.
-/

namespace Stagecraft

variable {reach : Int} {site after : Site} {buffer : Buffer} {span : Span} {spans : List Span}
  {pass : Pass} {passes : List Pass} {location : Location} {locations : List Location}
  {steps : Span} {bench last : Bench} {report : PruneReport}

section Each

variable {α β : Type}

/-- The lines without those of each span, where a span counts what is left by then. -/
def cutEach (spans : List Span) (lines : List α) : List α :=
  spans.foldl (fun left span => cutLines span.start span.stop left) lines

def Buffer.deleteEach (buffer : Buffer) (spans : List Span) : Buffer :=
  spans.foldl (fun left span => left.deleteLines span.start span.stop) buffer

def Site.cutEach (site : Site) (spans : List Span) : Site :=
  spans.foldl (fun left span => left.cut span.start span.stop) site

theorem cutEach_append (first second : List Span) (lines : List α) :
    cutEach (first ++ second) lines = cutEach second (cutEach first lines) :=
  List.foldl_append ..

theorem cutEach_map (f : α → β) (spans : List Span) (lines : List α) :
    (cutEach spans lines).map f = cutEach spans (lines.map f) := by
  induction spans generalizing lines with
  | nil => rfl
  | cons span spans ih =>
    calc
      (cutEach (span :: spans) lines).map f =
          cutEach spans ((cutLines span.start span.stop lines).map f) := ih _
      _ = cutEach spans (cutLines span.start span.stop (lines.map f)) := by rw [cutLines_map]

theorem Buffer.lines_deleteEach (buffer : Buffer) (spans : List Span) :
    (buffer.deleteEach spans).lines = Stagecraft.cutEach spans buffer.lines := by
  induction spans generalizing buffer with
  | nil => rfl
  | cons span spans ih => exact ih _

theorem Buffer.edits_deleteEach (buffer : Buffer) (spans : List Span) :
    (buffer.deleteEach spans).edits = buffer.edits ++ spans.map (·.start) := by
  induction spans generalizing buffer with
  | nil => simp [deleteEach]
  | cons span spans ih =>
    have rest := ih (buffer.deleteLines span.start span.stop)
    simp only [deleteLines, List.append_assoc, List.singleton_append] at rest
    exact rest

theorem Buffer.deleteEach_append (buffer : Buffer) (first second : List Span) :
    buffer.deleteEach (first ++ second) = (buffer.deleteEach first).deleteEach second :=
  List.foldl_append ..

theorem Site.buffer_cutEach (site : Site) (spans : List Span) :
    (site.cutEach spans).buffer = site.buffer.deleteEach spans := by
  induction spans generalizing site with
  | nil => rfl
  | cons span spans ih => exact ih _

theorem Buffer.isValid_deleteEach (old : span.revision ≤ buffer.revision) :
    (buffer.deleteEach spans).isValid span = true ↔
      buffer.isValid span = true ∧ ∀ cut ∈ spans, span.stop ≤ cut.start := by
  rw [isValid, edits_deleteEach, List.drop_append_of_le_length old, List.all_append, isValid]
  simp

theorem Site.Valid.cutEach {site : Site} (valid : site.Valid) (spans : List Span) :
    (site.cutEach spans).Valid := by
  induction spans generalizing site with
  | nil => exact valid
  | cons span spans ih => exact ih (Site.Valid.cut site span.start span.stop)

end Each

/-- From the bottom up, each span that goes has to end above those that went before. -/
theorem removeEach_ran_iff {u : Unit} (valid : site.Valid)
    (forward : ∀ span ∈ spans, span.start < span.stop)
    (old : ∀ span ∈ spans, span.revision ≤ site.buffer.revision) :
    removeEach spans site = .ok u after ↔
      (∀ span ∈ spans, site.buffer.isValid span = true) ∧
        spans.Pairwise (fun lower upper => upper.stop ≤ lower.start) ∧
        after = site.cutEach spans := by
  induction spans generalizing site with
  | nil => simp [removeEach, pure_ran, Site.cutEach]
  | cons span spans ih =>
    have order := forward span (by simp)
    have known : ∀ other ∈ spans, other.revision ≤ site.buffer.revision :=
      fun other member => old other (List.mem_cons_of_mem _ member)
    have next := @ih (site.cut span.start span.stop) (Site.Valid.cut ..)
      (fun other member => forward other (List.mem_cons_of_mem _ member))
      (by
        intro other member
        have early := known other member
        rw [Site.cut, Buffer.revision_deleteLines]
        omega)
    have still : (∀ other ∈ spans,
        (site.cut span.start span.stop).buffer.isValid other = true) ↔
          (∀ other ∈ spans, site.buffer.isValid other = true) ∧
            ∀ other ∈ spans, other.stop ≤ span.start := by
      rw [← forall₂_and]
      exact forall₂_congr fun other member => isValid_deleteLines (known other member)
    have split : removeEach (span :: spans) site = .ok u after ↔
        site.buffer.isValid span = true ∧
          removeEach spans (site.cut span.start span.stop) = .ok u after := by
      constructor
      · intro ran
        obtain ⟨_, _, required, deletes⟩ := bind_ran.mp ran
        obtain ⟨here, rfl⟩ := Work.requireSpan_ran.mp required
        obtain ⟨_, _, deleted, removes⟩ := bind_ran.mp deletes
        obtain ⟨-, rfl⟩ := Work.delete_ran.mp deleted
        rw [if_pos order] at removes
        exact ⟨here, removes⟩
      · intro both
        obtain ⟨here, removes⟩ := both
        apply bind_ran.mpr
        refine ⟨(), site, Work.requireSpan_ran.mpr ⟨here, rfl⟩, bind_ran.mpr ?_⟩
        exact ⟨(), _, Work.delete_ran.mpr ⟨valid, by rw [if_pos order]⟩, removes⟩
    rw [split, next, still, List.forall_mem_cons, List.pairwise_cons]
    change _ ↔ _ ∧ _ ∧ after = (site.cut span.start span.stop).cutEach spans
    tauto

theorem Pass.run_ran_iff {count : Nat} (valid : site.Valid) :
    pass.run reach site = .ok count after ↔
      ∃ spans, pass.doomed reach site.buffer site.steps = .ok spans ∧
        spans.Pairwise (fun upper lower => upper.stop ≤ lower.start) ∧
        count = spans.length ∧ after = site.cutEach spans.reverse := by
  have removes {spans : List Span} {u : Unit} {place : Site}
      (picked : pass.doomed reach site.buffer site.steps = .ok spans) :
      removeEach spans.reverse site = .ok u place ↔
        spans.Pairwise (fun upper lower => upper.stop ≤ lower.start) ∧
          place = site.cutEach spans.reverse := by
    have removable {span : Span} (member : span ∈ spans.reverse) :
        Removable site.buffer site.steps span :=
      removable_of_doomed picked (List.mem_reverse.mp member)
    rw [removeEach_ran_iff valid (fun span member => (removable member).bounds.2.1)
      (fun span member => Nat.le_of_eq (removable member).current), List.pairwise_reverse]
    exact and_iff_right fun span member => Buffer.isValid_of_current (removable member).current
  rw [run, get_bind_ran, Work.ofExcept_bind_ran]
  constructor
  · intro ⟨spans, picked, ran⟩
    obtain ⟨_, place, removed, ends⟩ := bind_ran.mp ran
    obtain ⟨rfl, rfl⟩ := pure_ran.mp ends
    obtain ⟨apart, same⟩ := (removes picked).mp removed
    exact ⟨spans, picked, apart, rfl, same⟩
  · intro ⟨spans, picked, apart, same, place⟩
    refine ⟨spans, picked, bind_ran.mpr ⟨(), after, (removes picked).mpr ⟨apart, place⟩, ?_⟩⟩
    exact pure_ran.mpr ⟨same, rfl⟩

/-- A pass fails by a block without an end before it takes anything. -/
theorem Pass.run_nesting_iff {fault : Nesting} :
    pass.run reach site = .error (.nesting fault) after ↔
      pass.doomed reach site.buffer site.steps = .error (.nesting fault) ∧ after = site := by
  constructor
  · intro failed
    rcases Pass.run_failed failed with fails | ⟨stale, same⟩
    · exact fails
    · cases same
  · intro ⟨picked, same⟩
    rw [Pass.run_eq, picked, same]
    rfl

/-- The passes at a site, with the spans that each of them takes. -/
inductive Passes (reach : Int) :
    List Pass → Site → List (Pass × List Span) → Site → Prop where
  | done {site : Site} : Passes reach [] site [] site
  | stops {pass : Pass} {passes : List Pass} {site : Site} {fault : Nesting}
      (fails : pass.doomed reach site.buffer site.steps = .error (.nesting fault)) :
      Passes reach (pass :: passes) site [] site
  | takes {pass : Pass} {passes : List Pass} {site after : Site} {spans : List Span}
      {taken : List (Pass × List Span)}
      (picks : pass.doomed reach site.buffer site.steps = .ok spans)
      (apart : spans.Pairwise fun upper lower => upper.stop ≤ lower.start)
      (others : Passes reach passes (site.cutEach spans.reverse) taken after) :
      Passes reach (pass :: passes) site ((pass, spans) :: taken) after

/-- The deletions of the passes, in the order in which they were made. -/
def cutsOf (taken : List (Pass × List Span)) : List Span := taken.flatMap (·.2.reverse)

theorem cutsOf_cons (pass : Pass) (spans : List Span) (taken : List (Pass × List Span)) :
    cutsOf ((pass, spans) :: taken) = spans.reverse ++ cutsOf taken :=
  List.flatMap_cons

def countsOf (taken : List (Pass × List Span)) : List (Pass × Nat) :=
  taken.map fun (pass, spans) => (pass, spans.length)

theorem sumOf_countsOf (taken : List (Pass × List Span)) :
    sumOf (·.2) (countsOf taken) = (cutsOf taken).length := by
  induction taken with
  | nil => rfl
  | cons first taken ih =>
    have rest : sumOf (·.2) (countsOf (first :: taken)) =
        first.2.length + sumOf (·.2) (countsOf taken) := rfl
    rw [rest, ih, cutsOf_cons, List.length_append, List.length_reverse]

variable {taken : List (Pass × List Span)}

theorem Passes.after_eq (ran : Passes reach passes site taken after) :
    after = site.cutEach (cutsOf taken) := by
  induction ran with
  | done => rfl
  | stops => rfl
  | @takes pass passes site after spans taken _ _ _ ih =>
    have split : site.cutEach (cutsOf ((pass, spans) :: taken)) =
        (site.cutEach spans.reverse).cutEach (cutsOf taken) := by
      rw [cutsOf_cons]
      exact List.foldl_append ..
    rw [split, ← ih]

/-- The lines of a span lie strictly between the opening and the closing line of the steps. -/
def Site.Inner (site : Site) (span : Span) : Prop :=
  site.steps.start < span.start ∧ span.start < span.stop ∧ span.stop + 1 ≤ site.steps.stop

theorem Site.Inner.steps_cut (inner : site.Inner span) :
    (site.cut span.start span.stop).steps.start = site.steps.start ∧
      (site.cut span.start span.stop).steps.stop =
        site.steps.stop - (span.stop - span.start) :=
  Span.afterDelete_inside (Nat.le_of_lt inner.1) inner.2.1 (Nat.le_of_succ_le inner.2.2) _

/-- A span further up is still inside when one below it is gone. -/
theorem Site.Inner.above {upper : Span} (here : site.Inner span) (there : site.Inner upper)
    (order : upper.stop ≤ span.start) : (site.cut span.start span.stop).Inner upper := by
  obtain ⟨start, stop⟩ := here.steps_cut
  obtain ⟨-, forward, high⟩ := here
  refine ⟨by rw [start]; exact there.1, there.2.1, ?_⟩
  rw [stop]
  omega

section Keeps

variable {kept : List Span → Site → Prop} {cuts : List Span}
  (step : ∀ {cuts : List Span} {site : Site} {span : Span}, kept cuts site → site.Inner span →
    kept (cuts ++ [span]) (site.cut span.start span.stop))

include step

theorem kept_cutEach (held : kept cuts site) (inner : ∀ span ∈ spans, site.Inner span)
    (apart : spans.Pairwise fun lower upper => upper.stop ≤ lower.start) :
    kept (cuts ++ spans) (site.cutEach spans) := by
  induction spans generalizing cuts site with
  | nil => simpa [Site.cutEach] using held
  | cons span spans ih =>
    obtain ⟨above, apart⟩ := List.pairwise_cons.mp apart
    have here := inner span (by simp)
    have next : kept (cuts ++ [span]) (site.cut span.start span.stop) := step held here
    have inner' : ∀ other ∈ spans, (site.cut span.start span.stop).Inner other := by
      intro other member
      exact here.above (inner other (List.mem_cons_of_mem _ member)) (above other member)
    have rest := ih next inner' apart
    rwa [List.append_assoc, List.singleton_append] at rest

/-- What each deletion inside the steps keeps, the passes keep. -/
theorem Passes.keeps (ran : Passes reach passes site taken after) (held : kept cuts site) :
    kept (cuts ++ cutsOf taken) after := by
  induction ran generalizing cuts with
  | done => simpa [cutsOf] using held
  | stops => simpa [cutsOf] using held
  | @takes pass passes site after spans taken picks apart _ ih =>
    have inner : ∀ span ∈ spans.reverse, site.Inner span := by
      intro span member
      exact (removable_of_doomed picks (List.mem_reverse.mp member)).bounds
    have next := kept_cutEach step held inner (List.pairwise_reverse.mpr apart)
    have rest := ih next
    rwa [List.append_assoc] at rest

end Keeps

section Runs

variable {count : Nat} {fault : Nesting}

theorem bind_ran_of_ok {ε σ α β : Type} {x : EStateM ε σ α} {f : α → EStateM ε σ β} {s t u : σ}
    {a : α} {b : β} (known : x s = .ok a u) : (x >>= f) s = .ok b t ↔ f a u = .ok b t := by
  rw [bind_ran]
  constructor
  · intro ⟨_, _, same, ran⟩
    rw [known] at same
    cases same
    exact ran
  · intro ran
    exact ⟨a, u, known, ran⟩

theorem bind_pure_ran {ε σ α β : Type} {x : EStateM ε σ α} {g : α → β} {s t : σ} {b : β} :
    (x >>= fun a => pure (g a)) s = .ok b t ↔ ∃ a, x s = .ok a t ∧ b = g a := by
  rw [bind_ran]
  constructor
  · intro ⟨a, u, ran, ends⟩
    obtain ⟨same, rfl⟩ := pure_ran.mp ends
    exact ⟨a, ran, same⟩
  · intro ⟨a, ran, same⟩
    exact ⟨a, t, ran, pure_ran.mpr ⟨same, rfl⟩⟩

/-- The messages once a pass is through; one that takes nothing is not worth a note. -/
def notedLog (location : Location) (pass : Pass) (count : Nat) (log : List String) :
    List String :=
  if count ≠ 0 then log ++ [s!"structural: {location.id} {pass.name} -{count}"] else log

theorem catchNesting_of_ok (stepped : location.steps = some steps)
    (ran : pass.run reach ⟨bench.buffer, location.record, steps⟩ = .ok count after) :
    Job.catchNesting (Job.site location (pass.run reach)) bench = .ok (.ok
      ({ location with record := after.record, steps := some after.steps }, count))
        { bench with buffer := after.buffer } := by
  apply catchNesting_ran.mpr
  exact .inl ⟨_, Job.site_ran.mpr ⟨steps, after, stepped, ran, rfl, rfl⟩, rfl⟩

theorem runPasses_ran_of_ok (stepped : location.steps = some steps)
    (ran : pass.run reach ⟨bench.buffer, location.record, steps⟩ = .ok count after) :
    runPasses reach location (pass :: passes) bench = .ok report last ↔
      ∃ others, runPasses reach
          { location with record := after.record, steps := some after.steps } passes
          ⟨after.buffer, notedLog location pass count bench.log⟩ = .ok others last ∧
        report = ⟨(pass, count) :: others.removed, others.issues⟩ := by
  rw [runPasses, bind_ran_of_ok (catchNesting_of_ok stepped ran), notedLog]
  by_cases none : count = 0
  · subst none
    exact bind_pure_ran
  · simp only [ne_eq, none, not_false_eq_true, if_true, Job.note_bind_ran]
    exact bind_pure_ran

theorem runPasses_ran_of_nesting (stepped : location.steps = some steps)
    (failed : pass.run reach ⟨bench.buffer, location.record, steps⟩ =
      .error (.nesting fault) ⟨bench.buffer, location.record, steps⟩) :
    runPasses reach location (pass :: passes) bench = .ok report last ↔
      report = ⟨[], [.malformed location.id fault]⟩ ∧ last = { bench with log := bench.log ++
        [s!"structural: skipped {location.id} during {pass.name}: {fault.message}"] } := by
  have caught : Job.catchNesting (Job.site location (pass.run reach)) bench =
      .ok (.error fault) bench := by
    apply catchNesting_ran.mpr
    refine .inr ⟨fault, ?_, rfl⟩
    rw [Job.site, stepped]
    simp only [failed]
  rw [runPasses, bind_ran_of_ok caught]
  simp only [Job.note_bind_ran, pure_ran]

/-- Once the first passes are through, the run goes on with the others from where they end. -/
theorem runPasses_of_mapM {early late : List Pass} {counts : List Nat}
    (stepped : location.steps = some steps)
    (passed : early.mapM (Pass.run reach) ⟨bench.buffer, location.record, steps⟩ =
      .ok counts after)
    (ran : runPasses reach location (early ++ late) bench = .ok report last) :
    ∃ log others, runPasses reach
      { location with record := after.record, steps := some after.steps } late
      ⟨after.buffer, log⟩ = .ok others last := by
  induction early generalizing bench location steps report counts with
  | nil =>
    rw [List.mapM_nil] at passed
    obtain ⟨-, rfl⟩ := pure_ran.mp passed
    have same : { location with record := location.record, steps := some steps } = location := by
      rw [← stepped]
    refine ⟨bench.log, report, ?_⟩
    rw [same]
    exact ran
  | cons pass early ih =>
    rw [List.mapM_cons] at passed
    obtain ⟨count, place, here, passed⟩ := bind_ran.mp passed
    obtain ⟨_, _, behind, ends⟩ := bind_ran.mp passed
    obtain ⟨-, rfl⟩ := pure_ran.mp ends
    obtain ⟨others, rest, -⟩ := (runPasses_ran_of_ok stepped here).mp ran
    have moved : (Location.mk location.id location.idLine place.record (some place.steps)).steps =
      some place.steps := rfl
    have onward := ih moved behind rest
    exact onward

theorem passes_of_runPasses (stepped : location.steps = some steps)
    (valid : Site.Valid ⟨bench.buffer, location.record, steps⟩)
    (ran : runPasses reach location passes bench = .ok report last) :
    ∃ taken after, Passes reach passes ⟨bench.buffer, location.record, steps⟩ taken after ∧
      last.buffer = after.buffer ∧ report.removed = countsOf taken := by
  induction passes generalizing bench location steps report with
  | nil =>
    obtain ⟨rfl, rfl⟩ := pure_ran.mp ran
    exact ⟨[], _, .done, rfl, rfl⟩
  | cons pass passes ih =>
    obtain ⟨result, middle, caught, -⟩ := bind_ran.mp ran
    rcases catchNesting_ran.mp caught with ⟨⟨moved, removed⟩, worked, -⟩ | ⟨fault, failed, -⟩
    · obtain ⟨_, place, same, passed, -, -⟩ := Job.site_ran.mp worked
      obtain rfl := Option.some.inj (stepped.symm.trans same)
      obtain ⟨others, rest, rfl⟩ := (runPasses_ran_of_ok stepped passed).mp ran
      obtain ⟨spans, picks, apart, rfl, rfl⟩ := (Pass.run_ran_iff valid).mp passed
      obtain ⟨taken, after, ran', same, counts⟩ := ih rfl (valid.cutEach spans.reverse) rest
      refine ⟨(pass, spans) :: taken, after, .takes picks apart ran', same, ?_⟩
      simp only [counts, countsOf, List.map_cons]
    · rw [Job.site, stepped] at failed
      simp only at failed
      split at failed
      · cases failed
      · next place failed' =>
        cases failed
        obtain ⟨fails, rfl⟩ := Pass.run_nesting_iff.mp failed'
        obtain ⟨rfl, rfl⟩ := (runPasses_ran_of_nesting stepped failed').mp ran
        exact ⟨[], _, .stops fails, rfl, rfl⟩

theorem runPasses_of_passes (stepped : location.steps = some steps)
    (valid : Site.Valid ⟨bench.buffer, location.record, steps⟩)
    (ran : Passes reach passes ⟨bench.buffer, location.record, steps⟩ taken after) :
    ∃ report last, runPasses reach location passes bench = .ok report last ∧
      last.buffer = after.buffer ∧ report.removed = countsOf taken := by
  generalize here : (⟨bench.buffer, location.record, steps⟩ : Site) = site at ran valid
  induction ran generalizing bench location steps with
  | done =>
    subst here
    exact ⟨_, _, rfl, rfl, rfl⟩
  | stops fails =>
    subst here
    have failed := Pass.run_nesting_iff.mpr ⟨fails, rfl⟩
    exact ⟨_, _, (runPasses_ran_of_nesting stepped failed).mpr ⟨rfl, rfl⟩, rfl, rfl⟩
  | @takes pass passes site after spans taken picks apart _ ih =>
    subst here
    have passed := (Pass.run_ran_iff valid).mpr ⟨spans, picks, apart, rfl, rfl⟩
    let place := Site.cutEach ⟨bench.buffer, location.record, steps⟩ spans.reverse
    obtain ⟨others, last, ran, same, counts⟩ := @ih
      { location with record := place.record, steps := some place.steps } place.steps
      ⟨place.buffer, notedLog location pass spans.length bench.log⟩ rfl rfl
      (valid.cutEach spans.reverse)
    refine ⟨_, last, (runPasses_ran_of_ok stepped passed).mpr ⟨others, ran, rfl⟩, same, ?_⟩
    simp only [counts, countsOf, List.map_cons]

end Runs

/-- The steps of the location were found together with its record, and lie in it. -/
def Location.Nested (location : Location) : Prop :=
  ∀ steps, location.steps = some steps →
    steps.revision = location.record.revision ∧ steps.stop ≤ location.record.stop

theorem Location.Nested.valid (nested : location.Nested) (stepped : location.steps = some steps)
    (valid : buffer.isValid location.record = true) :
    Site.Valid ⟨buffer, location.record, steps⟩ := by
  obtain ⟨same, inside⟩ := nested steps stepped
  refine ⟨valid, ?_⟩
  rw [Buffer.isValid, List.all_eq_true] at valid ⊢
  rw [same]
  intro index edited
  have behind := of_decide_eq_true (valid index edited)
  exact decide_eq_true (Nat.le_trans inside behind)

/-- What was taken at each record, one record after the other. -/
abbrev Taken := List (Location × List (Pass × List Span))

def Taken.cuts (rounds : Taken) : List Span := rounds.flatMap fun round => cutsOf round.2

def Taken.counts (rounds : Taken) : List (Pass × Nat) := rounds.flatMap fun round => countsOf round.2

/-- The passes at records, one after the other, with all that they take. -/
inductive Rounds (reach : Int) : List Location → Buffer → Taken → Buffer → Prop where
  | done {buffer : Buffer} : Rounds reach [] buffer [] buffer
  | next {location : Location} {locations : List Location} {buffer last : Buffer} {steps : Span}
      {taken : List (Pass × List Span)} {after : Site} {rounds : Taken}
      (stepped : location.steps = some steps) (valid : buffer.isValid location.record = true)
      (passes : Passes reach Pass.all ⟨buffer, location.record, steps⟩ taken after)
      (others : Rounds reach locations after.buffer rounds last) :
      Rounds reach (location :: locations) buffer ((location, taken) :: rounds) last

section Rounds

variable {rounds : Taken} {final : Buffer}

theorem sumOf_counts (rounds : Taken) : sumOf (·.2) rounds.counts = rounds.cuts.length := by
  induction rounds with
  | nil => rfl
  | cons round rounds ih =>
    have counts : Taken.counts (round :: rounds) = countsOf round.2 ++ Taken.counts rounds := rfl
    have cuts : Taken.cuts (round :: rounds) = cutsOf round.2 ++ Taken.cuts rounds := rfl
    rw [counts, cuts, sumOf_append, sumOf_countsOf, ih, List.length_append]

theorem Rounds.final_eq (ran : Rounds reach locations buffer rounds final) :
    final = buffer.deleteEach rounds.cuts := by
  induction ran with
  | done => rfl
  | @next location locations buffer last steps taken after rounds _ _ passes _ ih =>
    have cuts : Taken.cuts ((location, taken) :: rounds) = cutsOf taken ++ rounds.cuts := rfl
    rw [cuts, Buffer.deleteEach_append, ih, passes.after_eq, Site.buffer_cutEach]

theorem rounds_of_pruneEach (nested : ∀ location ∈ locations, location.Nested)
    (ran : pruneEach reach locations bench = .ok report last) :
    ∃ rounds, Rounds reach locations bench.buffer rounds last.buffer ∧
      report.removed = rounds.counts := by
  induction locations generalizing bench report with
  | nil =>
    obtain ⟨rfl, rfl⟩ := pure_ran.mp ran
    exact ⟨[], .done, rfl⟩
  | cons location locations ih =>
    obtain ⟨valid, first, middle, others, here, behind, rfl⟩ := pruneEach_cons_ran.mp ran
    obtain ⟨steps, stepped⟩ := runPasses_steps here
    have both := (nested location (by simp)).valid stepped valid
    obtain ⟨taken, after, passes, same, counts⟩ := passes_of_runPasses stepped both here
    obtain ⟨rounds, rest, counts'⟩ :=
      ih (fun other member => nested other (List.mem_cons_of_mem _ member)) behind
    rw [same] at rest
    refine ⟨(location, taken) :: rounds, .next stepped valid passes rest, ?_⟩
    rw [PruneReport.followedBy, counts, counts']
    rfl

theorem pruneEach_of_rounds (nested : ∀ location ∈ locations, location.Nested)
    (ran : Rounds reach locations bench.buffer rounds final) :
    ∃ report last, pruneEach reach locations bench = .ok report last ∧ last.buffer = final ∧
      report.removed = rounds.counts := by
  generalize here : bench.buffer = buffer at ran
  induction ran generalizing bench with
  | done =>
    subst here
    exact ⟨⟨[], []⟩, bench, rfl, rfl, rfl⟩
  | @next location locations buffer last steps taken after rounds stepped valid passes _ ih =>
    subst here
    have both := (nested location (by simp)).valid stepped valid
    obtain ⟨first, middle, here, same, counts⟩ := runPasses_of_passes stepped both passes
    obtain ⟨others, last, behind, ends, counts'⟩ :=
      ih (fun other member => nested other (List.mem_cons_of_mem _ member)) same
    refine ⟨first.followedBy others, last,
      pruneEach_cons_ran.mpr ⟨valid, first, middle, others, here, behind, rfl⟩, ends, ?_⟩
    rw [PruneReport.followedBy, counts, counts']
    rfl

end Rounds

section Whole

variable {survey : Survey}

theorem nested_of_located (located : locateAt buffer location.id location.idLine = .ok location) :
    location.Nested := by
  intro steps stepped
  obtain ⟨current, -, spans⟩ := locateAt_spans located
  obtain ⟨current', inside⟩ := spans steps stepped
  exact ⟨by rw [current, current'], inside⟩

theorem nested_of_findAll (surveyed : findAll buffer = .ok survey) :
    ∀ location ∈ survey.found, location.Nested := by
  intro location member
  exact nested_of_located (found_of_findAll surveyed member).1

/-- Pruning is a survey, and then the passes at each record from the last one up. -/
theorem rounds_of_prune (ran : prune reach bench = .ok report last) :
    ∃ survey rounds, findAll bench.buffer = .ok survey ∧
      Rounds reach survey.found.reverse bench.buffer rounds last.buffer ∧
      report.removed = rounds.counts := by
  obtain ⟨survey, surveyed, ran'⟩ := Job.ofExcept_bind_ran.mp (get_bind_ran.mp ran)
  obtain ⟨others, each, rfl⟩ := bind_pure_ran.mp ran'
  have nested := nested_of_findAll surveyed
  obtain ⟨rounds, rest, counts⟩ := rounds_of_pruneEach
    (fun location member => nested location (List.mem_reverse.mp member)) each
  exact ⟨survey, rounds, surveyed, rest, counts⟩

theorem prune_of_rounds {rounds : Taken} {final : Buffer}
    (surveyed : findAll bench.buffer = .ok survey)
    (ran : Rounds reach survey.found.reverse bench.buffer rounds final) :
    ∃ report last, prune reach bench = .ok report last ∧ last.buffer = final ∧
      report.removed = rounds.counts := by
  have nested := nested_of_findAll surveyed
  obtain ⟨others, last, each, ends, counts⟩ := pruneEach_of_rounds
    (fun location member => nested location (List.mem_reverse.mp member)) ran
  refine ⟨⟨others.removed, survey.issues ++ others.issues⟩, last, ?_, ends, counts⟩
  apply get_bind_ran.mpr
  apply Job.ofExcept_bind_ran.mpr
  exact ⟨survey, surveyed, bind_pure_ran.mpr ⟨others, each, rfl⟩⟩

end Whole

end Stagecraft
