import Stagecraft.Proofs.Edit.Locality
import Stagecraft.Proofs.Edit.Picks
import Stagecraft.Proofs.Edit.WholeSteps

/-!
When pruning gets through. It fails by a stale span only: two blocks that one pass picks overlap, or
a record has lost lines to the work at one below it. So it gets through just when the passes get
through at each record in the file as it stands, and none of that work reaches a record above.
-/

namespace Stagecraft

variable {reach : Int} {buffer first : Buffer} {steps : Span} {spans : List Span} {pass : Pass}

section Runs

variable {site after : Site} {passes : List Pass} {location : Location}
  {locations : List Location} {bench last : Bench} {survey : Survey} {fault : Fault}

theorem Pass.run_fault (spanned : site.Spanned)
    (failed : pass.run reach site = .error fault after) :
    (∃ nesting, fault = .nesting nesting) ∨ ∃ stale, fault = .stale stale := by
  rcases Pass.run_failed failed with ⟨fails, -⟩ | stale
  · exact .inl (spanned.doomed_fault fails)
  · exact .inr stale

theorem bind_failed_of_ok {ε σ α β : Type} {x : EStateM ε σ α} {f : α → EStateM ε σ β} {s t u : σ}
    {a : α} {e : ε} (known : x s = .ok a u) : (x >>= f) s = .error e t ↔ f a u = .error e t := by
  simp [bind_failed, known]

theorem bind_pure_failed {ε σ α β : Type} {x : EStateM ε σ α} {g : α → β} {s t : σ} {e : ε} :
    (x >>= fun a => pure (g a)) s = .error e t ↔ x s = .error e t := by
  rw [bind_failed]
  constructor
  · intro failed
    rcases failed with here | ⟨_, _, -, ends⟩
    · exact here
    · cases ends
  · exact .inl

section Passes

variable {steps : Span} {count : Nat} {stale : Stale}

theorem runPasses_failed_of_ok (stepped : location.steps = some steps)
    (ran : pass.run reach ⟨bench.buffer, location.record, steps⟩ = .ok count after) :
    runPasses reach location (pass :: passes) bench = .error fault last ↔
      runPasses reach { location with record := after.record, steps := some after.steps } passes
        ⟨after.buffer, notedLog location pass count bench.log⟩ = .error fault last := by
  rw [runPasses, bind_failed_of_ok (catchNesting_of_ok stepped ran), notedLog]
  by_cases none : count = 0
  · subst none
    exact bind_pure_failed
  · simp only [ne_eq, none, not_false_eq_true, if_true]
    rw [bind_failed_of_ok (show Job.note _ _ = .ok () _ from rfl)]
    exact bind_pure_failed

theorem runPasses_failed_of_stale (stepped : location.steps = some steps)
    (failed : pass.run reach ⟨bench.buffer, location.record, steps⟩ = .error (.stale stale) after) :
    runPasses reach location (pass :: passes) bench =
      .error (.stale stale) { bench with buffer := after.buffer } := by
  rw [runPasses]
  apply bind_failed.mpr
  left
  rw [Job.catchNesting, Job.site, stepped]
  simp only [failed]

/-- At a record with steps the passes fail by a stale span only. -/
theorem runPasses_fault (stepped : location.steps = some steps)
    (valid : Site.Valid ⟨bench.buffer, location.record, steps⟩)
    (spanned : Site.Spanned ⟨bench.buffer, location.record, steps⟩)
    (failed : runPasses reach location passes bench = .error fault last) :
    ∃ stale, fault = .stale stale := by
  induction passes generalizing bench location steps with
  | nil => cases failed
  | cons pass passes ih =>
    cases ran : pass.run reach ⟨bench.buffer, location.record, steps⟩ with
    | ok count after =>
      obtain ⟨spans, picks, apart, -, same⟩ := (Pass.run_ran_iff valid).mp ran
      have valid' : after.Valid := same ▸ valid.cutEach spans.reverse
      have spanned' : after.Spanned := same ▸ spanned.cutEach picks apart
      have rest := (runPasses_failed_of_ok stepped ran).mp failed
      exact ih rfl valid' spanned' rest
    | error other after =>
      rcases Pass.run_fault spanned ran with ⟨nesting, rfl⟩ | ⟨stale, rfl⟩
      · -- the block without an end is noted, and the passes at the record are over
        obtain ⟨picks, rfl⟩ := Pass.run_nesting_iff.mp ran
        have through := (@runPasses_ran_of_nesting reach pass passes location steps bench _ _
          nesting stepped ran).mpr ⟨rfl, rfl⟩
        rw [failed] at through
        cases through
      · rw [runPasses_failed_of_stale stepped ran] at failed
        cases failed
        exact ⟨stale, rfl⟩

end Passes

theorem Site.Spanned.elsewhere {other : Buffer} {record steps : Span}
    (spanned : Site.Spanned ⟨buffer, record, steps⟩)
    (same : other.lines.take steps.stop = buffer.lines.take steps.stop) :
    Site.Spanned ⟨other, record, steps⟩ := by
  have inside := spanned.inside
  have size := congrArg List.length same
  rw [List.length_take, List.length_take] at size
  exact ⟨spanned.order, by simp only at inside ⊢; omega⟩

/-- A record with steps that was located in the buffer. -/
structure Sited (first : Buffer) (location : Location) (steps : Span) : Prop where
  located : locateAt first location.id location.idLine = .ok location
  stepped : location.steps = some steps

namespace Sited

variable {steps : Span}

theorem order (sited : Sited first location steps) :
    location.record.start ≤ steps.start ∧ steps.start < steps.stop ∧
      steps.stop ≤ location.record.stop ∧ location.record.stop ≤ first.lines.length := by
  obtain ⟨-, ends, spans⟩ := locateAt_spans sited.located
  obtain ⟨start, order⟩ := (locateAt_order sited.located).2 steps sited.stepped
  exact ⟨start, order, (spans steps sited.stepped).2, ends⟩

theorem current (sited : Sited first location steps) :
    location.record.revision = first.revision :=
  (locateAt_spans sited.located).1

theorem spanned_first (sited : Sited first location steps) :
    Site.Spanned ⟨first, location.record, steps⟩ := by
  obtain ⟨-, order, inside, ends⟩ := sited.order
  exact ⟨order, Nat.le_trans inside ends⟩

/-- A record that is still good stands where it did. -/
theorem spanned (sited : Sited first location steps) (trail : Trail first buffer)
    (valid : buffer.isValid location.record = true) :
    Site.Spanned ⟨buffer, location.record, steps⟩ := by
  obtain ⟨-, -, inside, -⟩ := sited.order
  have behind := le_of_isValid valid
  rw [sited.current] at behind
  apply sited.spanned_first.elsewhere
  exact (trail.kept steps.stop fun index edited => Nat.le_trans inside (behind index edited)).1

theorem siteValid (sited : Sited first location steps)
    (valid : buffer.isValid location.record = true) :
    Site.Valid ⟨buffer, location.record, steps⟩ :=
  (nested_of_located sited.located).valid sited.stepped valid

end Sited

theorem sited_of_locate {id : String} (found : locate buffer id = .ok (some location))
    (stepped : location.steps = some steps) : Sited buffer location steps := by
  rw [locate] at found
  split at found
  · cases found
  · next line _ =>
    obtain ⟨other, located, same⟩ := map_ok.mp found
    obtain rfl := Option.some.inj same
    obtain ⟨id', line'⟩ := locateAt_id located
    exact ⟨by rw [id', line', located], stepped⟩

theorem sited_of_findAll (surveyed : findAll buffer = .ok survey)
    (member : location ∈ survey.found) : ∃ steps, Sited buffer location steps := by
  obtain ⟨steps, stepped⟩ := surveyFrom_steps surveyed location member
  exact ⟨steps, (found_of_findAll surveyed member).1, stepped⟩

theorem pruneEach_fault (sited : ∀ location ∈ locations, ∃ steps, Sited first location steps)
    (trail : Trail first bench.buffer)
    (failed : pruneEach reach locations bench = .error fault last) :
    ∃ stale, fault = .stale stale := by
  induction locations generalizing bench with
  | nil => cases failed
  | cons location locations ih =>
    obtain ⟨steps, here⟩ := sited location (by simp)
    have asks : pruneEach reach (location :: locations) bench =
        (Job.ofExcept (liftFault .stale (bench.buffer.require location.record)) >>= fun _ => do
          let first ← runPasses reach location Pass.all
          let others ← pruneEach reach locations
          return first.followedBy others) bench := rfl
    rw [asks] at failed
    rcases bind_failed.mp failed with required | ⟨_, _, required, goes⟩
    · rw [Buffer.require] at required
      split at required
      · cases required
      · cases required
        exact ⟨_, rfl⟩
    · obtain ⟨asked, rfl⟩ := Job.ofExcept_ran.mp required
      have valid := liftFault_require_ran.mp asked
      rcases bind_failed.mp goes with passes | ⟨report, middle, passes, others⟩
      · exact runPasses_fault here.stepped (here.siteValid valid) (here.spanned trail valid) passes
      · apply ih (fun other member => sited other (List.mem_cons_of_mem _ member))
          (runPasses_trail trail passes)
        exact bind_pure_failed.mp others

/-- Pruning fails by a stale span only. -/
theorem prune_fault (surveyed : findAll bench.buffer = .ok survey)
    (failed : prune reach bench = .error fault last) : ∃ stale, fault = .stale stale := by
  have asks : prune reach bench =
      (Job.ofExcept (findAll bench.buffer) >>= fun survey => do
        let report ← pruneEach reach survey.found.reverse
        return ⟨report.removed, survey.issues ++ report.issues⟩) bench := rfl
  rw [asks, surveyed] at failed
  have each := bind_pure_failed.mp failed
  apply pruneEach_fault _ (Trail.refl bench.buffer) each
  intro location member
  exact sited_of_findAll surveyed (List.mem_reverse.mp member)

end Runs

section Apart

variable {site after after' : Site} {passes : List Pass} {taken taken' : List (Pass × List Span)}
  {location : Location} {locations : List Location} {cuts : List Span} {survey : Survey}
  {bench : Bench}

theorem Passes.unique (one : Passes reach passes site taken after)
    (other : Passes reach passes site taken' after') : taken = taken' ∧ after = after' := by
  induction one generalizing taken' after' with
  | done =>
    cases other
    exact ⟨rfl, rfl⟩
  | stops fails =>
    cases other with
    | stops => exact ⟨rfl, rfl⟩
    | takes picks =>
      rw [fails] at picks
      cases picks
  | takes picks _ _ ih =>
    cases other with
    | stops fails =>
      rw [picks] at fails
      cases fails
    | takes picks' _ others =>
      rw [picks, Except.ok.injEq] at picks'
      subst picks'
      obtain ⟨rfl, rfl⟩ := ih others
      exact ⟨rfl, rfl⟩

/-- What the passes take at some steps only depends on the lines down to their end. -/
theorem Passes.elsewhere {other : Buffer} {record : Span}
    (same : other.lines.take steps.stop = buffer.lines.take steps.stop)
    (spanned : Site.Spanned ⟨buffer, record, steps⟩)
    (ran : Passes reach passes ⟨buffer, record, steps⟩ taken after) :
    ∃ taken' after', Passes reach passes ⟨other, record, steps⟩ taken' after' ∧
      (cutsOf taken').map (·.start) = (cutsOf taken).map (·.start) := by
  let alone : Site := ⟨⟨buffer.lines.take steps.stop, []⟩, record, steps⟩
  have embedded {whole : Buffer} (lines : whole.lines.take steps.stop = alone.buffer.lines) :
      Embedded [] (whole.lines.drop steps.stop) ⟨whole, record, steps⟩ alone := by
    constructor
    · rw [← lines, List.nil_append, List.take_append_drop]
    · rfl
    · rfl
    · exact spanned.order
    · exact Nat.le_of_eq (List.length_take_of_le spanned.inside).symm
  obtain ⟨own, last, ran', -, -⟩ := (embedded rfl).passes_alone ran
  obtain ⟨taken₁, after₁, here, starts, -⟩ := (embedded rfl).passes_among ran'
  obtain ⟨rfl, -⟩ := ran.unique here
  obtain ⟨taken', after', there, starts', -⟩ := (embedded same).passes_among ran'
  exact ⟨taken', after', there, starts'.trans starts.symm⟩

/-- All that went started below a line, and the steps still open there. -/
def CutsBelow (bound : Nat) (cuts : List Span) (site : Site) : Prop :=
  (∀ cut ∈ cuts, bound < cut.start) ∧ site.steps.start = bound

theorem CutsBelow.cut {bound : Nat} {span : Span} (below : CutsBelow bound cuts site)
    (inner : site.Inner span) :
    CutsBelow bound (cuts ++ [span]) (site.cut span.start span.stop) := by
  obtain ⟨starts, opens⟩ := below
  constructor
  · intro cut member
    rcases List.mem_append.mp member with early | here
    · exact starts cut early
    · rw [List.mem_singleton.mp here, ← opens]
      exact inner.1
  · rw [← opens]
    exact inner.steps_cut.1

/-- Nothing is taken at or above the opening line of the steps. -/
theorem Passes.cuts_below (ran : Passes reach passes site taken after) :
    ∀ cut ∈ cutsOf taken, site.steps.start < cut.start := by
  have start : CutsBelow site.steps.start [] site := ⟨by simp, rfl⟩
  have kept : CutsBelow site.steps.start ([] ++ cutsOf taken) after :=
    ran.keeps (fun below inner => below.cut inner) start
  exact kept.1

/-- The passes take these at the record in the file as it stands, before any other work. -/
def Takes (reach : Int) (first : Buffer) (location : Location)
    (taken : List (Pass × List Span)) : Prop :=
  ∃ steps after, location.steps = some steps ∧
    Passes reach Pass.all ⟨first, location.record, steps⟩ taken after

/-- The spans that a pass picks at the record lie apart, pass after pass. -/
def GetsThrough (reach : Int) (first : Buffer) (location : Location) : Prop :=
  ∃ taken, Takes reach first location taken

/-- All that goes at the record `below` starts behind the last line of `above`. -/
def WorksBelow (reach : Int) (first : Buffer) (above below : Location) : Prop :=
  ∀ taken, Takes reach first below taken → ∀ cut ∈ cutsOf taken, above.record.stop ≤ cut.start

theorem Takes.unique (one : Takes reach first location taken)
    (other : Takes reach first location taken') : taken = taken' := by
  obtain ⟨steps, after, stepped, ran⟩ := one
  obtain ⟨steps', after', stepped', ran'⟩ := other
  obtain rfl := Option.some.inj (stepped.symm.trans stepped')
  exact (ran.unique ran').1

theorem le_of_starts_eq {cuts cuts' : List Span} {bound : Nat}
    (same : cuts'.map (·.start) = cuts.map (·.start)) (late : ∀ cut ∈ cuts, bound ≤ cut.start) :
    ∀ cut ∈ cuts', bound ≤ cut.start := by
  intro cut member
  have there : cut.start ∈ cuts.map (·.start) := same ▸ List.mem_map_of_mem member
  obtain ⟨other, present, start⟩ := List.mem_map.mp there
  rw [← start]
  exact late other present

namespace Sited

/-- Work behind the end of a record makes no difference to the passes at it. -/
theorem take_deleteEach (sited : Sited first location steps)
    (late : ∀ cut ∈ cuts, location.record.stop ≤ cut.start) :
    (first.deleteEach cuts).lines.take steps.stop = first.lines.take steps.stop := by
  obtain ⟨-, -, inside, ends⟩ := sited.order
  rw [Buffer.lines_deleteEach]
  apply take_cutEach (Nat.le_trans inside ends)
  intro cut member
  exact Nat.le_trans inside (late cut member)

theorem isValid_deleteEach (sited : Sited first location steps) :
    (first.deleteEach cuts).isValid location.record = true ↔
      ∀ cut ∈ cuts, location.record.stop ≤ cut.start := by
  rw [Buffer.isValid_deleteEach (Nat.le_of_eq sited.current)]
  exact and_iff_right (Buffer.isValid_of_current sited.current)

theorem takes (sited : Sited first location steps)
    (late : ∀ cut ∈ cuts, location.record.stop ≤ cut.start)
    (ran : Passes reach Pass.all ⟨first.deleteEach cuts, location.record, steps⟩ taken after) :
    ∃ taken', Takes reach first location taken' ∧
      (cutsOf taken').map (·.start) = (cutsOf taken).map (·.start) := by
  have same := sited.take_deleteEach late
  have spanned := sited.spanned_first.elsewhere same
  obtain ⟨taken', after', there, starts⟩ := ran.elsewhere same.symm spanned
  exact ⟨taken', ⟨steps, after', sited.stepped, there⟩, starts⟩

end Sited

/-- A record is still good when its turn comes, so what went before started below it. -/
theorem Rounds.late {rounds : Taken} {final : Buffer}
    (ran : Rounds reach locations (first.deleteEach cuts) rounds final)
    (sited : ∀ location ∈ locations, ∃ steps, Sited first location steps) :
    ∀ location ∈ locations, ∀ cut ∈ cuts, location.record.stop ≤ cut.start := by
  generalize made : first.deleteEach cuts = buffer at ran
  induction ran generalizing cuts with
  | done =>
    intro location member
    cases member
  | @next location locations buffer last steps taken after rounds stepped valid passes _ ih =>
    intro other member
    rcases List.mem_cons.mp member with rfl | later
    · obtain ⟨_, here⟩ := sited other (by simp)
      rw [← made] at valid
      exact here.isValid_deleteEach.mp valid
    · have made' : first.deleteEach (cuts ++ cutsOf taken) = after.buffer := by
        rw [Buffer.deleteEach_append, made, passes.after_eq, Site.buffer_cutEach]
      have late := ih (fun other member => sited other (List.mem_cons_of_mem _ member)) made'
      intro cut present
      exact late other later cut (List.mem_append_left _ present)

theorem Rounds.getsThrough {rounds : Taken} {final : Buffer}
    (ran : Rounds reach locations (first.deleteEach cuts) rounds final)
    (sited : ∀ location ∈ locations, ∃ steps, Sited first location steps) :
    (∀ location ∈ locations, GetsThrough reach first location) ∧
      locations.Pairwise fun below above => WorksBelow reach first above below := by
  generalize made : first.deleteEach cuts = buffer at ran
  induction ran generalizing cuts with
  | done => exact ⟨by simp, .nil⟩
  | @next location locations buffer last steps taken after rounds stepped valid passes others ih =>
    have sited' : ∀ other ∈ locations, ∃ steps, Sited first other steps :=
      fun other member => sited other (List.mem_cons_of_mem _ member)
    obtain ⟨steps', here⟩ := sited location (by simp)
    obtain rfl := Option.some.inj (stepped.symm.trans here.stepped)
    subst made
    have made' : first.deleteEach (cuts ++ cutsOf taken) = after.buffer := by
      rw [Buffer.deleteEach_append, passes.after_eq, Site.buffer_cutEach]
    obtain ⟨own, takes, starts⟩ := here.takes (here.isValid_deleteEach.mp valid) passes
    obtain ⟨through, below⟩ := ih sited' made'
    refine ⟨List.forall_mem_cons.mpr ⟨⟨own, takes⟩, through⟩, List.pairwise_cons.mpr ⟨?_, below⟩⟩
    intro above member own' takes'
    obtain rfl := takes.unique takes'
    apply le_of_starts_eq starts
    intro cut present
    rw [← made'] at others
    exact others.late sited' above member cut (List.mem_append_right _ present)

theorem rounds_of_getsThrough (sited : ∀ location ∈ locations, ∃ steps, Sited first location steps)
    (through : ∀ location ∈ locations, GetsThrough reach first location)
    (below : locations.Pairwise fun below above => WorksBelow reach first above below)
    (late : ∀ location ∈ locations, ∀ cut ∈ cuts, location.record.stop ≤ cut.start) :
    ∃ rounds final, Rounds reach locations (first.deleteEach cuts) rounds final := by
  induction locations generalizing cuts with
  | nil => exact ⟨[], _, .done⟩
  | cons location locations ih =>
    obtain ⟨above, below⟩ := List.pairwise_cons.mp below
    obtain ⟨steps, here⟩ := sited location (by simp)
    obtain ⟨own, steps', after', stepped, ran⟩ := through location (by simp)
    obtain rfl := Option.some.inj (stepped.symm.trans here.stepped)
    have same := here.take_deleteEach (late location (by simp))
    obtain ⟨taken, after, passes, starts⟩ := ran.elsewhere same here.spanned_first
    have made : after.buffer = first.deleteEach (cuts ++ cutsOf taken) := by
      rw [Buffer.deleteEach_append, passes.after_eq, Site.buffer_cutEach]
    have late' : ∀ other ∈ locations, ∀ cut ∈ cuts ++ cutsOf taken,
        other.record.stop ≤ cut.start := by
      intro other member cut present
      rcases List.mem_append.mp present with early | new
      · exact late other (List.mem_cons_of_mem _ member) cut early
      · have takes : Takes reach first location own := ⟨steps', after', stepped, ran⟩
        exact le_of_starts_eq starts (above other member own takes) cut new
    obtain ⟨rounds, final, others⟩ := ih
      (fun other member => sited other (List.mem_cons_of_mem _ member))
      (fun other member => through other (List.mem_cons_of_mem _ member)) below late'
    have valid := here.isValid_deleteEach.mpr (late location (by simp))
    rw [← made] at others
    exact ⟨(location, taken) :: rounds, final, .next stepped valid passes others⟩

/-- The run gets through just when it does at each record in the file as it stands, and no record
loses lines to the work at those below. -/
theorem prune_ran_iff_getsThrough (surveyed : findAll bench.buffer = .ok survey) :
    (∃ report last, prune reach bench = .ok report last) ↔
      (∀ location ∈ survey.found, GetsThrough reach bench.buffer location) ∧
        survey.found.Pairwise (WorksBelow reach bench.buffer) := by
  have sited : ∀ location ∈ survey.found.reverse,
      ∃ steps, Sited bench.buffer location steps := by
    intro location member
    exact sited_of_findAll surveyed (List.mem_reverse.mp member)
  constructor
  · intro done
    obtain ⟨report, last, ran⟩ := done
    obtain ⟨survey', rounds, surveyed', rest, -⟩ := rounds_of_prune ran
    rw [surveyed, Except.ok.injEq] at surveyed'
    subst surveyed'
    obtain ⟨through, below⟩ := @Rounds.getsThrough _ _ _ [] _ _ rest sited
    refine ⟨fun location member => through location (List.mem_reverse.mpr member), ?_⟩
    exact List.pairwise_reverse.mp below
  · intro both
    obtain ⟨through, below⟩ := both
    obtain ⟨rounds, final, rest⟩ := @rounds_of_getsThrough reach bench.buffer _ [] sited
      (fun location member => through location (List.mem_reverse.mp member))
      (List.pairwise_reverse.mpr below) (by simp)
    obtain ⟨report, last, ran, -, -⟩ := prune_of_rounds surveyed rest
    exact ⟨report, last, ran⟩

theorem worksBelow_of_disjoint (surveyed : findAll buffer = .ok survey)
    (disjoint : Disjoint survey.found) : survey.found.Pairwise (WorksBelow reach buffer) := by
  have apart := apart_of_findAll surveyed disjoint
  refine apart.sorted.imp_of_mem ?_
  intro above below _ member order taken takes cut present
  obtain ⟨steps, after, stepped, ran⟩ := takes
  have start := ((locateAt_order (apart.located below member)).2 steps stepped).1
  have low : steps.start < cut.start := ran.cuts_below cut present
  omega

end Apart

section Paragraphs

variable {site : Site} {passes : List Pass} {layout : Layout} {above below : List String}
  {paragraphs : List (List String)} {location : Location} {survey : Survey} {bench : Bench}

/-- Of two paragraphs the one that starts first ends above the other. -/
theorem Spans.apart {base : Nat} {upper lower : Span} (one : Spans base paragraphs upper)
    (other : Spans base paragraphs lower) (order : upper.start < lower.start) :
    upper.stop ≤ lower.start := by
  obtain ⟨before, paragraph, after, rfl, start, stop⟩ := one
  obtain ⟨before', paragraph', after', split, start', stop'⟩ := other
  rcases List.append_eq_append_iff.mp split with ⟨more, rfl, behind⟩ | ⟨more, rfl, behind⟩
  · cases more with
    | nil =>
      rw [List.append_nil] at start'
      omega
    | cons first more =>
      obtain ⟨rfl, rfl⟩ := List.cons.inj behind
      simp only [List.flatten_append, List.flatten_cons, List.length_append] at start'
      omega
  · simp only [List.flatten_append, List.length_append] at start
    omega

/-- Where a pass may take whole paragraphs only, what it picks lies apart. -/
theorem passes_of_standing (opens : layout.head.getLast?.map (lineDelta .square) = some 1)
    (solid : ∀ paragraph ∈ layout.paragraphs, Solid paragraph)
    (standing : Standing above below layout paragraphs site) (valid : site.Valid)
    (spanned : site.Spanned) : ∃ taken after, Passes reach passes site taken after := by
  induction passes generalizing paragraphs site with
  | nil => exact ⟨[], site, .done⟩
  | cons pass passes ih =>
    cases picks : pass.doomed reach site.buffer site.steps with
    | error fault =>
      obtain ⟨nesting, rfl⟩ := spanned.doomed_fault picks
      exact ⟨[], site, .stops picks⟩
    | ok spans =>
      have whole {span : Span} (member : span ∈ spans) :
          Spans (above ++ layout.head).length paragraphs span :=
        standing.fits opens solid (removable_of_doomed picks member)
      have apart : spans.Pairwise fun upper lower => upper.stop ≤ lower.start := by
        refine (doomed_sorted picks).imp_of_mem ?_
        intro upper lower member member' order
        exact (whole member).apart (whole member') order
      have ran : pass.run reach site = .ok spans.length (site.cutEach spans.reverse) :=
        (Pass.run_ran_iff valid).mpr ⟨spans, picks, apart, rfl, rfl⟩
      obtain ⟨fewer, standing'⟩ := Pass.run_keeps (standing_upkeep opens solid) standing ran
      obtain ⟨taken, after, others⟩ :=
        ih standing' (valid.cutEach spans.reverse) (spanned.cutEach picks apart)
      exact ⟨(pass, spans) :: taken, after, .takes picks apart others⟩

theorem InParagraphs.getsThrough (laid : InParagraphs first location layout)
    (sited : Sited first location steps) : GetsThrough reach first location := by
  obtain ⟨start, order, inside, ends⟩ := sited.order
  have valid := Buffer.isValid_of_current sited.current
  obtain ⟨lines, -⟩ := (Trail.refl first).lines_around sited.current (by omega) valid
  rw [laid.lines] at lines
  have size : (first.lines.take location.record.start).length = location.record.start :=
    List.length_take_of_le (by omega)
  obtain ⟨taken, after, ran⟩ := @passes_of_standing reach _ Pass.all _ _ _ _ laid.opens laid.solid
    (laid.standing size lines sited.stepped) (sited.siteValid valid) sited.spanned_first
  exact ⟨taken, steps, after, sited.stepped, ran⟩

/-- Pruning fails by a stale span or not at all. It gets through just when at each record, in the
file as it stands, the spans that a pass picks lie apart, and none of the work at a record reaches
one above. The latter is so for disjoint records, and the former for records in paragraphs. -/
theorem prune_through_iff (surveyed : findAll bench.buffer = .ok survey) :
    ((∃ report last, prune reach bench = .ok report last) ↔
        (∀ location ∈ survey.found, GetsThrough reach bench.buffer location) ∧
          survey.found.Pairwise (WorksBelow reach bench.buffer)) ∧
      ((∃ report last, prune reach bench = .ok report last) ∨
        ∃ stale last, prune reach bench = .error (.stale stale) last) ∧
      (Disjoint survey.found → survey.found.Pairwise (WorksBelow reach bench.buffer)) ∧
      ∀ location ∈ survey.found, ∀ layout, InParagraphs bench.buffer location layout →
        GetsThrough reach bench.buffer location := by
  refine ⟨prune_ran_iff_getsThrough surveyed, ?_, worksBelow_of_disjoint surveyed, ?_⟩
  · cases ran : prune reach bench with
    | ok report last => exact .inl ⟨report, last, rfl⟩
    | error fault last =>
      obtain ⟨stale, rfl⟩ := prune_fault surveyed ran
      exact .inr ⟨stale, last, rfl⟩
  · intro location member layout laid
    obtain ⟨steps, sited⟩ := sited_of_findAll surveyed member
    exact laid.getsThrough sited

theorem prune_through_repeat : ∃ survey report last, findAll repeatScene = .ok survey ∧
    survey.found = [repeatLocation] ∧ prune defaultReach ⟨repeatScene, []⟩ = .ok report last := by
  have found : foundIn repeatScene = [repeatLocation] := by decide +kernel
  obtain ⟨survey, surveyed, listed⟩ := foundIn_eq found (by simp)
  obtain ⟨through, -, disjoint, laid⟩ :=
    @prune_through_iff defaultReach survey ⟨repeatScene, []⟩ surveyed
  have single : Disjoint survey.found := by
    rw [listed]
    exact List.pairwise_singleton _ _
  have each : ∀ location ∈ survey.found, GetsThrough defaultReach repeatScene location := by
    intro location member
    apply laid location member repeatLayout
    rw [listed, List.mem_singleton] at member
    rw [member]
    exact laidOut_repeatScene.inParagraphs
  obtain ⟨report, last, ran⟩ := through.mpr ⟨each, disjoint single⟩
  exact ⟨survey, report, last, surveyed, listed, ran⟩

def jams (buffer : Buffer) : Bool :=
  match prune defaultReach ⟨buffer, []⟩ with
  | .error (.stale _) _ => true
  | _ => false

theorem jams_eq_true (jammed : jams buffer = true) :
    ∃ stale last, prune defaultReach ⟨buffer, []⟩ = .error (.stale stale) last := by
  rw [jams] at jammed
  split at jammed
  · next stale last failed => exact ⟨stale, last, failed⟩
  · cases jammed

def nestedScene : Buffer := ⟨["const A = \x7b", "id: 'a',", "steps: [", "\x7b",
  "parallel: [\x7b anim: 'Idle_A' \x7d], meta:", "\x7b", "anim: 'Idle_A'", "\x7d,", "\x7d,",
  "],", "\x7d;"], []⟩

/-- An object inside a step stands at the depth of the steps, as it is in no array of its own; when
it goes first, the step it is in has changed. -/
theorem prune_stale_nested : ∃ survey vignette stale last, findAll nestedScene = .ok survey ∧
    survey.found = [⟨"a", 1, ⟨0, 11, 0⟩, some ⟨2, 10, 0⟩⟩] ∧
    readRecord nestedScene ⟨"a", 1, ⟨0, 11, 0⟩, some ⟨2, 10, 0⟩⟩ = .ok vignette ∧
    prune defaultReach ⟨nestedScene, []⟩ = .error (.stale stale) last := by
  have found : foundIn nestedScene = [⟨"a", 1, ⟨0, 11, 0⟩, some ⟨2, 10, 0⟩⟩] := by decide +kernel
  obtain ⟨survey, surveyed, listed⟩ := foundIn_eq found (by simp)
  obtain ⟨vignette, read⟩ := read_isOk (show
    (readRecord nestedScene ⟨"a", 1, ⟨0, 11, 0⟩, some ⟨2, 10, 0⟩⟩).isOk = true by
      rw [readRecord_eq]; decide +kernel)
  obtain ⟨stale, last, failed⟩ := jams_eq_true (show jams nestedScene = true by decide +kernel)
  exact ⟨survey, vignette, stale, last, surveyed, listed, read, failed⟩

/-- The steps of the second record open among the lines of the first one. -/
example : jams ⟨["const A = \x7b", "id: 'a',", "steps: [],", "\x7b", "steps: [",
    "...NARRATOR('x'),", "...NARRATOR('x'),", "// \x7d\x7d", "id: 'b',", "],", "\x7b", "\x7d;"],
    []⟩ = true := by decide +kernel

end Paragraphs

end Stagecraft
