import Stagecraft.Proofs.Edit.InsideSteps

/-!
Pruning again. A call takes nothing just when every record it finds is at rest; a call that takes
something leaves fewer lines, so repeated calls come to rest. One call is not always enough: what
the last pass takes can bring two equal directives together that an earlier pass had seen apart.
-/

namespace Stagecraft

variable {reach : Int} {buffer : Buffer} {site after : Site} {steps : Span} {passes : List Pass}
  {taken : List (Pass × List Span)} {location : Location} {locations : List Location}
  {bench last : Bench} {report : PruneReport} {survey : Survey}

/-- No pass has anything to take, up to the first one that meets a block without an end. -/
def passesRest (reach : Int) (buffer : Buffer) (steps : Span) : List Pass → Bool
  | [] => true
  | pass :: passes =>
    match pass.doomed reach buffer steps with
    | .ok spans => spans.isEmpty && passesRest reach buffer steps passes
    | .error (.nesting _) => true
    | .error _ => false

def Location.rests (reach : Int) (buffer : Buffer) (location : Location) : Bool :=
  location.steps.any fun steps => passesRest reach buffer steps Pass.all

/-- Every record that is found is at rest. -/
def AtRest (reach : Int) (buffer : Buffer) : Prop :=
  ∃ survey, findAll buffer = .ok survey ∧ ∀ location ∈ survey.found, location.rests reach buffer

theorem Passes.rest (ran : Passes reach passes site taken after) (none : cutsOf taken = []) :
    passesRest reach site.buffer site.steps passes = true := by
  induction ran with
  | done => rfl
  | stops fails => rw [passesRest, fails]
  | @takes pass passes site after spans taken picks _ _ ih =>
    rw [cutsOf, List.flatMap_cons, List.append_eq_nil_iff, List.reverse_eq_nil_iff] at none
    obtain ⟨empty, none⟩ := none
    subst empty
    rw [passesRest, picks]
    exact ih none

theorem passes_of_rest (rest : passesRest reach site.buffer site.steps passes = true) :
    ∃ taken, Passes reach passes site taken site ∧ cutsOf taken = [] := by
  induction passes with
  | nil => exact ⟨[], .done, rfl⟩
  | cons pass passes ih =>
    rw [passesRest] at rest
    split at rest
    · next spans picks =>
      rw [Bool.and_eq_true, List.isEmpty_iff] at rest
      obtain ⟨empty, rest⟩ := rest
      subst empty
      obtain ⟨taken, ran, none⟩ := ih rest
      exact ⟨(pass, []) :: taken, .takes picks .nil ran, none⟩
    · next fault fails => exact ⟨[], .stops fails, rfl⟩
    · cases rest

theorem Rounds.rest {rounds : Taken} {final : Buffer}
    (ran : Rounds reach locations buffer rounds final) (none : rounds.cuts = []) :
    ∀ location ∈ locations, location.rests reach buffer := by
  induction ran with
  | done =>
    intro location member
    cases member
  | @next location locations buffer last steps taken after rounds stepped valid passes _ ih =>
    have split : Taken.cuts ((location, taken) :: rounds) = cutsOf taken ++ rounds.cuts := rfl
    rw [split, List.append_eq_nil_iff] at none
    obtain ⟨here, others⟩ := none
    have same : after.buffer = buffer := by
      rw [passes.after_eq, here]
      rfl
    have rest := ih others
    rw [same] at rest
    intro other member
    rcases List.mem_cons.mp member with first | later
    · rw [first, Location.rests, stepped]
      exact passes.rest here
    · exact rest other later

theorem rounds_of_rest (current : ∀ location ∈ locations, buffer.isValid location.record = true)
    (rest : ∀ location ∈ locations, location.rests reach buffer) :
    ∃ rounds : Taken, Rounds reach locations buffer rounds buffer ∧ rounds.cuts = [] := by
  induction locations with
  | nil => exact ⟨[], .done, rfl⟩
  | cons location locations ih =>
    obtain ⟨rounds, ran, none⟩ := ih
      (fun other member => current other (List.mem_cons_of_mem _ member))
      (fun other member => rest other (List.mem_cons_of_mem _ member))
    have here := rest location (by simp)
    rw [Location.rests, Option.any_eq_true_iff_get] at here
    obtain ⟨some, here⟩ := here
    obtain ⟨taken, passes, empty⟩ := @passes_of_rest reach
      ⟨buffer, location.record, location.steps.get some⟩ Pass.all here
    refine ⟨(location, taken) :: rounds,
      .next (Option.some_get some).symm (current location (by simp)) passes ran, ?_⟩
    have split : Taken.cuts ((location, taken) :: rounds) = cutsOf taken ++ rounds.cuts := rfl
    rw [split, empty, none]
    rfl

/-- Where a call takes nothing, all records are at rest. -/
theorem atRest_of_none (ran : prune reach bench = .ok report last) (none : report.total = 0) :
    AtRest reach bench.buffer ∧ last.buffer = bench.buffer := by
  obtain ⟨survey, rounds, surveyed, rest, counts⟩ := rounds_of_prune ran
  rw [PruneReport.total, counts, sumOf_counts] at none
  have empty := List.length_eq_zero_iff.mp none
  constructor
  · refine ⟨survey, surveyed, ?_⟩
    intro location member
    exact rest.rest empty location (List.mem_reverse.mpr member)
  · have same := rest.final_eq
    rw [empty] at same
    exact same

/-- At rest, a call takes nothing. -/
theorem AtRest.prune (atRest : AtRest reach bench.buffer) :
    ∃ report last, prune reach bench = .ok report last ∧ report.total = 0 ∧
      last.buffer = bench.buffer := by
  obtain ⟨survey, surveyed, rest⟩ := atRest
  have current : ∀ location ∈ survey.found.reverse,
      bench.buffer.isValid location.record = true := by
    intro location member
    have located := (listed_of_findAll surveyed location member).2
    exact Buffer.isValid_of_current (locateAt_spans located).1
  obtain ⟨rounds, ran, none⟩ := rounds_of_rest current
    (fun location member => rest location (List.mem_reverse.mp member))
  obtain ⟨report, last, ran', same, counts⟩ := prune_of_rounds surveyed ran
  refine ⟨report, last, ran', ?_, same⟩
  rw [PruneReport.total, counts, sumOf_counts, none]
  rfl

/-- Each span that goes takes a line with it at least. -/
theorem prune_fewer (ran : prune reach bench = .ok report last) :
    last.buffer.lines.length + report.total ≤ bench.buffer.lines.length := by
  obtain ⟨survey, rounds, surveyed, rest, counts⟩ := rounds_of_prune ran
  have course := rest.course (listed_of_findAll surveyed) (Course.begin bench.buffer survey.found)
  have size := course.fewer
  rw [List.nil_append] at course size
  rw [PruneReport.total, counts, sumOf_counts, course.made, Buffer.lines_eq_numbersLeft,
    List.length_map]
  exact size

/-- Some calls one after the other. -/
def pruneTimes (reach : Int) : Nat → Job (List PruneReport)
  | 0 => return []
  | count + 1 => do
    let report ← prune reach
    let others ← pruneTimes reach count
    return report :: others

theorem pruneTimes_succ_ran {count : Nat} {reports : List PruneReport}
    (ran : pruneTimes reach (count + 1) bench = .ok reports last) :
    ∃ report middle others, prune reach bench = .ok report middle ∧
      pruneTimes reach count middle = .ok others last ∧ reports = report :: others := by
  obtain ⟨report, middle, here, ran'⟩ := bind_ran.mp ran
  obtain ⟨others, behind, same⟩ := bind_pure_ran.mp ran'
  exact ⟨report, middle, others, here, behind, same⟩

theorem pruneTimes_fewer {count : Nat} {reports : List PruneReport}
    (ran : pruneTimes reach count bench = .ok reports last) :
    last.buffer.lines.length + sumOf PruneReport.total reports ≤ bench.buffer.lines.length := by
  induction count generalizing bench reports with
  | zero =>
    obtain ⟨rfl, rfl⟩ := pure_ran.mp ran
    exact Nat.le_refl _
  | succ count ih =>
    obtain ⟨report, middle, others, here, behind, rfl⟩ := pruneTimes_succ_ran ran
    have first := prune_fewer here
    have rest := ih behind
    rw [sumOf]
    omega

/-- What is at rest stays as it is, however many calls follow. -/
theorem AtRest.pruneTimes {count : Nat} {reports : List PruneReport}
    (atRest : AtRest reach bench.buffer)
    (ran : pruneTimes reach count bench = .ok reports last) : last.buffer = bench.buffer := by
  induction count generalizing bench reports with
  | zero =>
    obtain ⟨-, rfl⟩ := pure_ran.mp ran
    rfl
  | succ count ih =>
    obtain ⟨report, middle, others, here, behind, -⟩ := pruneTimes_succ_ran ran
    obtain ⟨_, _, again, -, same⟩ := atRest.prune
    rw [here] at again
    cases again
    rw [← same] at atRest
    exact (ih atRest behind).trans same

/-- More calls than there are lines come to rest. -/
theorem atRest_of_pruneTimes {count : Nat} {reports : List PruneReport}
    (ran : pruneTimes reach count bench = .ok reports last)
    (many : bench.buffer.lines.length < count) : AtRest reach last.buffer := by
  induction count generalizing bench reports with
  | zero => exact absurd many (Nat.not_lt_zero _)
  | succ count ih =>
    obtain ⟨report, middle, others, here, behind, -⟩ := pruneTimes_succ_ran ran
    rcases Nat.eq_zero_or_pos report.total with none | some
    · obtain ⟨atRest, same⟩ := atRest_of_none here none
      rw [← same] at atRest
      rw [atRest.pruneTimes behind]
      exact atRest
    · have fewer := prune_fewer here
      exact ih behind (by omega)

/-- A second call takes nothing and leaves the text just when the first one left every record at
rest. It has when it took nothing itself; and calls in a row take no more spans than there are
lines, so that more calls than lines always come to rest. -/
theorem prune_again_iff (ran : prune reach bench = .ok report last) :
    ((∃ again final, prune reach last = .ok again final ∧ again.total = 0 ∧
        final.buffer = last.buffer) ↔ AtRest reach last.buffer) ∧
      (report.total = 0 → AtRest reach last.buffer ∧ last.buffer = bench.buffer) ∧
      ∀ count reports final, pruneTimes reach count last = .ok reports final →
        final.buffer.lines.length + sumOf PruneReport.total reports + report.total ≤
            bench.buffer.lines.length ∧
          (last.buffer.lines.length < count → AtRest reach final.buffer) ∧
          (AtRest reach last.buffer → final.buffer = last.buffer) := by
  refine ⟨⟨?_, AtRest.prune⟩, ?_, ?_⟩
  · intro done
    obtain ⟨again, final, ran', none, -⟩ := done
    exact (atRest_of_none ran' none).1
  · intro none
    obtain ⟨atRest, same⟩ := atRest_of_none ran none
    rw [same]
    exact ⟨atRest, rfl⟩
  · intro count reports final ran'
    have first := prune_fewer ran
    have rest := pruneTimes_fewer ran'
    exact ⟨by omega, atRest_of_pruneTimes ran', fun atRest => atRest.pruneTimes ran'⟩

def cheeredScene : Buffer := ⟨["const A = \x7b", "id: 'a',", "steps: [",
  "...CELEBRATION(['king']),", "...CROWD_CHEER(),", "...CELEBRATION(['king']),", "],", "\x7d;"], []⟩

/-- What a first call takes, and what a second one takes then. -/
def takenTwice (buffer : Buffer) : Option (Nat × Nat) :=
  match prune defaultReach ⟨buffer, []⟩ with
  | .error _ _ => none
  | .ok report last =>
    match prune defaultReach last with
    | .error _ _ => none
    | .ok again _ => some (report.total, again.total)

theorem takenTwice_eq_some {first second : Nat} (answer : takenTwice buffer = some (first, second)) :
    ∃ report last again final, prune defaultReach ⟨buffer, []⟩ = .ok report last ∧
      prune defaultReach last = .ok again final ∧ report.total = first ∧ again.total = second := by
  rw [takenTwice] at answer
  split at answer
  · cases answer
  · next report last ran =>
    split at answer
    · cases answer
    · next again final ran' =>
      obtain ⟨rfl, rfl⟩ := Prod.mk.inj (Option.some.inj answer)
      exact ⟨report, last, again, final, ran, ran', rfl, rfl⟩

/-- The crowd cheer that goes first stood between two celebrations, of which one goes then. -/
theorem prune_again_cheered : ∃ report last again final,
    prune defaultReach ⟨cheeredScene, []⟩ = .ok report last ∧
      prune defaultReach last = .ok again final ∧ report.total = 1 ∧ again.total = 1 :=
  takenTwice_eq_some (by decide +kernel)

theorem prune_again_shaken : ∃ report last, prune defaultReach ⟨shakenScene, []⟩ = .ok report last ∧
    report.total = 3 ∧ AtRest defaultReach last.buffer := by
  have answer : takenTwice shakenScene = some (3, 0) := by decide +kernel
  obtain ⟨report, last, again, final, ran, ran', first, second⟩ := takenTwice_eq_some answer
  have same := (atRest_of_none ran' second).2
  exact ⟨report, last, ran, first, (prune_again_iff ran).1.mp ⟨again, final, ran', second, same⟩⟩

end Stagecraft
