import Mathlib.Data.List.Find
import Stagecraft.Proofs.Edit.GroupedRecords
import Stagecraft.Proofs.Edit.Settling
import Stagecraft.Proofs.Edit.Voice

/-!
The first entrance of a record whose runs are merged. The call of a group is none of the directives
that are searched for, so the search passes over all entrances that went into one: what it finds is
below the directive that brings in the character who came first just when that one came alone.
-/

namespace Stagecraft

variable {module : String} {lines old new top middle back : List String} {run : List Entrance}
  {runs : List (List Entrance)} {side : Side} {indent line : String} {site after : Site}
  {levels upper : List Nat} {place start count : Nat} {steps : Span} {buffer : Buffer}

section Directives

theorem entersOn_comment (comment : isComment line = true) : entersOn line = false := by
  obtain ⟨rest, slashes⟩ := isComment_starts comment
  have none : afterWord? "..." ('/' :: '/' :: rest) = none := after?_head_ne (by decide)
  rw [entersOn, spreadDirective?, slashes, none]
  rfl

theorem spreadDirective?_groupCall (blank : IsIndent indent) :
    spreadDirective? (groupCall side run indent) = some side.groupDirective := by
  rw [spreadDirective?, toList_groupCall, skipBlanks_append blank]
  cases side with
  | left => rfl
  | right => rfl

/-- No line that takes the place of a run is one that is searched for. -/
theorem IsRun.entersOn_mergedLines (isRun : IsRun lines run) :
    ∀ line ∈ mergedLines lines run, entersOn line = false := by
  obtain ⟨first, others, rfl⟩ := List.exists_cons_of_ne_nil isRun.filled
  intro line member
  rcases List.mem_append.mp member with comment | call
  · exact entersOn_comment (List.mem_filter.mp comment).2
  · rw [List.mem_singleton.mp call, callOf, entersOn,
      spreadDirective?_groupCall (isIndent_indentOf _)]
    cases first.side with
    | left => decide
    | right => decide

end Directives

section Entrances

/-- The numbers among these of the lines that spread an entrance. -/
def entersAmong (lines : List String) (levels : List Nat) : List Nat :=
  levels.filter fun number => (lines[number]?).any entersOn

/-- The step-level lines that spread an entrance. -/
def entranceLines (lines : List String) (steps : Span) : List Nat :=
  match stepLevelLines lines steps.start (steps.stop - 1) with
  | .ok levels => entersAmong lines levels
  | .error _ => []

theorem entranceLines_eq
    (leveled : stepLevelLines lines steps.start (steps.stop - 1) = .ok levels) :
    entranceLines lines steps = entersAmong lines levels := by
  rw [entranceLines, leveled]

theorem bounds_of_mem_entranceLines (member : place ∈ entranceLines lines steps) :
    steps.start < place ∧ place < steps.stop ∧ (lines[place]?).any entersOn := by
  rw [entranceLines] at member
  split at member
  · next levels leveled =>
    obtain ⟨level, enters⟩ := List.mem_filter.mp member
    obtain ⟨low, high, -⟩ := ((stepLevelLines_ok leveled).2 place).mp level
    exact ⟨low, Nat.lt_of_lt_of_le high (Nat.sub_le _ _), enters⟩
  · cases member

theorem entranceLine_eq_head? (valid : buffer.isValid steps = true)
    (leveled : stepLevelLines buffer.lines steps.start (steps.stop - 1) = .ok levels) :
    entranceLine buffer steps = .ok ((entranceLines buffer.lines steps).head?.map (· + 1)) := by
  rw [entranceLine, liftFault_require_ran.mpr valid, leveled, entranceLines_eq leveled,
    entersAmong, List.head?_filter]
  simp only [← any_entranceDirective]
  rfl

/-- In a record as it is found, the line below the first entrance is that below the first one. -/
theorem entranceLine_framed (framed : site.Framed) : entranceLine site.buffer site.steps =
    .ok ((entranceLines site.buffer.lines site.steps).head?.map (· + 1)) := by
  have order := framed.order
  have inside := Nat.le_trans framed.below framed.inside
  obtain ⟨levels, leveled⟩ := @stepLevelLines_defined site.buffer.lines site.steps.start
    (site.steps.stop - 1) (by omega) (by omega)
  exact entranceLine_eq_head? framed.valid.2 leveled

/-- Entrances are found part by part. -/
theorem entersAmong_parts (above : ∀ number ∈ upper, number < top.length)
    (inner lower : List Nat) :
    entersAmong (top ++ middle ++ back)
        (upper ++ inner ++ lower.map (· + (top ++ middle).length)) =
      entersAmong top upper ++ entersAmong (top ++ middle ++ back) inner ++
        (entersAmong back lower).map (· + (top ++ middle).length) := by
  have first : entersAmong (top ++ middle ++ back) upper = entersAmong top upper := by
    apply List.filter_congr
    intro number member
    rw [List.append_assoc, List.getElem?_append_left (above number member)]
  have last : entersAmong (top ++ middle ++ back) (lower.map (· + (top ++ middle).length)) =
      (entersAmong back lower).map (· + (top ++ middle).length) := by
    rw [entersAmong, List.filter_map, entersAmong]
    congr 1
    apply List.filter_congr
    intro number _
    rw [Function.comp_apply, List.getElem?_append_right (Nat.le_add_left _ _), Nat.add_sub_cancel]
  rw [entersAmong, List.filter_append, List.filter_append, ← entersAmong, ← entersAmong,
    ← entersAmong, first, last]

/-- The line of this number is above the ones in the middle or below them. -/
def isBeside (top middle : List String) (number : Nat) : Bool :=
  !(top.length ≤ number && number < (top ++ middle).length)

theorem isBeside_above (above : place < top.length) : isBeside top middle place = true := by
  simp [isBeside, above]

theorem isBeside_below : isBeside top middle (place + (top ++ middle).length) = true := by
  simp [isBeside]

/-- The step-level lines in the middle are not beside it. -/
theorem filter_isBeside_levelOneFrom (lines : List String) (depth : Int) :
    (entersAmong lines (levelOneFrom depth top.length middle)).filter (isBeside top middle) =
      [] := by
  apply List.filter_eq_nil_iff.mpr
  intro number member
  obtain ⟨offset, inside, rfl, -⟩ := mem_levelOneFrom.mp (List.mem_of_mem_filter member)
  simp [isBeside, inside]

/-- Where no line in the middle spreads an entrance, none is found there. -/
theorem entersAmong_levelOneFrom (idle : ∀ line ∈ middle, entersOn line = false) (depth : Int) :
    entersAmong (top ++ middle ++ back) (levelOneFrom depth top.length middle) = [] := by
  apply List.filter_eq_nil_iff.mpr
  intro number member
  obtain ⟨offset, inside, rfl, -⟩ := mem_levelOneFrom.mp member
  rw [List.append_assoc, List.getElem?_append_right (Nat.le_add_right _ _),
    Nat.add_sub_cancel_left, List.getElem?_append_left inside, List.getElem?_eq_getElem inside,
    Option.any_some, idle _ (List.getElem_mem inside)]
  exact Bool.false_ne_true

/-- Where some lines give place to others that count as much and spread no entrance, the entrances
above them and below them are left. -/
theorem entersAmong_exchanged (low : start < top.length) (high : count ≤ back.length)
    (flat : totalDelta .square new = totalDelta .square middle)
    (idle : ∀ line ∈ new, entersOn line = false)
    (leveled : stepLevelLines (top ++ middle ++ back) start ((top ++ middle).length + count) =
      .ok levels) :
    ∃ levels', stepLevelLines (top ++ new ++ back) start ((top ++ new).length + count) =
        .ok levels' ∧
      entersAmong (top ++ new ++ back) levels' =
        ((entersAmong (top ++ middle ++ back) levels).filter (isBeside top middle)).map
          fun number => if number < top.length then number
            else number - middle.length + new.length := by
  obtain ⟨upper, first, above⟩ := stepLevelLines_above low
  rw [stepLevelLines_parts low high first, Except.ok.injEq] at leveled
  subst leveled
  refine ⟨_, stepLevelLines_parts low high first, ?_⟩
  rw [flat, entersAmong_parts above, entersAmong_parts above, entersAmong_levelOneFrom idle,
    List.append_nil, List.filter_append, List.filter_append, filter_isBeside_levelOneFrom,
    List.append_nil, List.map_append]
  congr 1
  · have kept : (entersAmong top upper).filter (isBeside top middle) = entersAmong top upper :=
      List.filter_eq_self.mpr fun number member =>
        isBeside_above (above number (List.mem_of_mem_filter member))
    rw [kept]
    refine (List.map_id _).symm.trans (List.map_congr_left fun number member => ?_)
    rw [if_pos (above number (List.mem_of_mem_filter member)), id]
  · have kept (numbers : List Nat) : (numbers.map (· + (top ++ middle).length)).filter
        (isBeside top middle) = numbers.map (· + (top ++ middle).length) := by
      apply List.filter_eq_self.mpr
      intro number member
      obtain ⟨other, -, rfl⟩ := List.mem_map.mp member
      exact isBeside_below
    have size := @List.length_append _ top middle
    have size' := @List.length_append _ top new
    rw [kept, List.map_map]
    apply List.map_congr_left
    intro number _
    rw [Function.comp_apply, if_neg (by omega)]
    omega

end Entrances

section Heirs

/-- The line is one of those from the first entrance of the run to the last one. -/
def Covers (run : List Entrance) (line : Nat) : Prop := startOf run ≤ line ∧ line < stopOf run

instance (run : List Entrance) (line : Nat) : Decidable (Covers run line) :=
  inferInstanceAs (Decidable (_ ∧ _))

/-- Where the directive of a line stands with a run merged: for the lines of the run it is the call
of the group, and for all others the line itself. -/
def heirOf (lines : List String) (run : List Entrance) (line : Nat) : Nat :=
  if line < startOf run then line
  else if line < stopOf run then startOf run + ((mergedLines lines run).length - 1)
  else line - (stopOf run - startOf run) + (mergedLines lines run).length

/-- Where it stands with all runs merged, from the last one to the first. -/
def heirAmong (lines : List String) (runs : List (List Entrance)) (line : Nat) : Nat :=
  runs.foldr (heirOf lines) line

/-- The directive of a line, or the call that takes its place. -/
def standsFor (lines : List String) (runs : List (List Entrance)) (line : Nat) : Option String :=
  match runs.find? (Covers · line) with
  | some run => some (callOf lines run)
  | none => lines[line]?

/-- The line is in none of the runs. -/
def Loose (runs : List (List Entrance)) (line : Nat) : Prop := ∀ run ∈ runs, ¬ Covers run line

instance (runs : List (List Entrance)) (line : Nat) : Decidable (Loose runs line) :=
  inferInstanceAs (Decidable (∀ run ∈ runs, ¬ Covers run line))

theorem standsFor_loose (loose : Loose runs place) :
    standsFor lines runs place = lines[place]? := by
  have none : runs.find? (Covers · place) = none :=
    List.find?_eq_none.mpr fun run member covers => loose run member (of_decide_eq_true covers)
  rw [standsFor, none]

theorem standsFor_covered (covered : ¬ Loose runs place) :
    ∃ run ∈ runs, Covers run place ∧ standsFor lines runs place = some (callOf lines run) := by
  cases among : runs.find? (Covers · place) with
  | none =>
    refine absurd ?_ covered
    intro run member covers
    exact List.find?_eq_none.mp among run member (decide_eq_true covers)
  | some run =>
    refine ⟨run, List.mem_of_find?_eq_some among, ?_, by rw [standsFor, among]⟩
    simpa using List.find?_some among

theorem heirOf_of_not_covers (free : ¬ Covers run place) : heirOf lines run place =
    if place < startOf run then place
    else place - (stopOf run - startOf run) + (mergedLines lines run).length := by
  rw [heirOf]
  split
  · rfl
  · next high =>
    rw [if_neg fun low => free ⟨Nat.le_of_not_lt high, low⟩]

theorem length_mergedLines_pos (lines : List String) (run : List Entrance) :
    0 < (mergedLines lines run).length := by
  rw [mergedLines, List.length_append]
  exact Nat.succ_pos _

/-- The heir of a line that is at or below the start of a run is so too. -/
theorem startOf_le_heirOf (low : startOf run ≤ place) : startOf run ≤ heirOf lines run place := by
  have some := length_mergedLines_pos lines run
  rw [heirOf]
  split
  · omega
  · split <;> omega

theorem heirOf_of_lt (low : place < startOf run) : heirOf lines run place = place := if_pos low

/-- Heirs go by the lines of the runs and nothing else. -/
theorem heirAmong_congr (same : ∀ run ∈ runs, mergedLines lines run = mergedLines old run) :
    heirAmong lines runs place = heirAmong old runs place := by
  induction runs with
  | nil => rfl
  | cons run runs ih =>
    have one (line : Nat) : heirOf lines run line = heirOf old run line := by
      rw [heirOf, heirOf, same run (by simp)]
    have rest := ih fun other member => same other (List.mem_cons_of_mem _ member)
    rw [heirAmong, heirAmong, List.foldr_cons, List.foldr_cons, ← heirAmong, ← heirAmong, rest,
      one]

theorem heirAmong_concat (lines : List String) (runs : List (List Entrance))
    (run : List Entrance) (line : Nat) :
    heirAmong lines (runs ++ [run]) line = heirAmong lines runs (heirOf lines run line) := by
  rw [heirAmong, List.foldr_append]
  rfl

end Heirs

section Merges

theorem callOf_last (lines : List String) (run : List Entrance) :
    (mergedLines lines run)[(mergedLines lines run).length - 1]? = some (callOf lines run) := by
  rw [← List.getLast?_eq_getElem?]
  exact List.getLast?_concat

/-- The heir of a line says what the line says, or is the call of its group. -/
theorem getElem?_heirOf (isRun : IsRun site.buffer.lines run) (line : Nat) :
    (site.merged run).buffer.lines[heirOf site.buffer.lines run line]? =
      if Covers run line then some (callOf site.buffer.lines run) else site.buffer.lines[line]? := by
  obtain ⟨-, top, -⟩ := isRun.lines_parts
  have some := length_mergedLines_pos site.buffer.lines run
  have order := isRun.start_lt_stop
  rw [Site.lines_merged isRun, List.append_assoc]
  split
  · next covers =>
    have place : heirOf site.buffer.lines run line =
        startOf run + ((mergedLines site.buffer.lines run).length - 1) := by
      rw [heirOf, if_neg (Nat.not_lt.mpr covers.1), if_pos covers.2]
    rw [place, List.getElem?_append_right (by omega), top, Nat.add_sub_cancel_left,
      List.getElem?_append_left (by omega), callOf_last]
  · next free =>
    rw [heirOf_of_not_covers free]
    split
    · next low =>
      rw [List.getElem?_append_left (by omega), List.getElem?_take_of_lt low]
    · next high =>
      have behind : stopOf run ≤ line :=
        Nat.le_of_not_lt fun low => free ⟨Nat.le_of_not_lt high, low⟩
      have down : line - (stopOf run - startOf run) + (mergedLines site.buffer.lines run).length =
          startOf run + ((mergedLines site.buffer.lines run).length + (line - stopOf run)) := by
        omega
      rw [down, List.getElem?_append_right (by omega), top, Nat.add_sub_cancel_left,
        List.getElem?_append_right (Nat.le_add_right _ _), Nat.add_sub_cancel_left,
        List.getElem?_drop, Nat.add_sub_cancel' behind]

/-- With a run merged, its entrances are not found any more, and the others where they stand. -/
theorem entranceLines_merged (framed : site.Framed) (isRun : IsRun site.buffer.lines run)
    (low : site.steps.start < startOf run) (high : stopOf run < site.steps.stop) :
    entranceLines (site.merged run).buffer.lines (site.merged run).steps =
      ((entranceLines site.buffer.lines site.steps).filter (!Covers run ·)).map
        (heirOf site.buffer.lines run) := by
  obtain ⟨whole, top, middle⟩ := isRun.lines_parts
  obtain ⟨-, -, start, stop⟩ := framed.merged isRun low high
  have size := Site.length_merged isRun
  have order := isRun.start_lt_stop
  have short := Nat.le_trans framed.below framed.inside
  have inner : (runLines site.buffer.lines run).length = stopOf run - startOf run := by
    rw [List.length_append, top] at middle
    omega
  have closing : (site.buffer.lines.take (startOf run) ++ runLines site.buffer.lines run).length +
      (site.steps.stop - 1 - stopOf run) = site.steps.stop - 1 := by
    rw [middle]
    omega
  have closing' := framed.closing_merged isRun low high
  obtain ⟨levels, leveled⟩ := @stepLevelLines_defined site.buffer.lines site.steps.start
    (site.steps.stop - 1) (by have := framed.order; omega) (by omega)
  have here := leveled
  rw [← whole, ← closing] at here
  obtain ⟨levels', leveled', left⟩ := entersAmong_exchanged (by omega)
    (by rw [List.length_drop]; omega) isRun.totalDelta_mergedLines isRun.entersOn_mergedLines here
  rw [closing', ← Site.lines_merged isRun, ← start] at leveled'
  rw [← Site.lines_merged isRun, whole, top, inner] at left
  have free : isBeside (site.buffer.lines.take (startOf run)) (runLines site.buffer.lines run) =
      fun line => !decide (Covers run line) := by
    funext line
    rw [isBeside, top, middle, ← Bool.decide_and]
    rfl
  rw [entranceLines_eq leveled, entranceLines_eq leveled', left, free]
  apply List.map_congr_left
  intro line member
  have loose : ¬ Covers run line := by simpa using (List.mem_filter.mp member).2
  rw [heirOf_of_not_covers loose]

/-- Runs above others are covered alike by a line and its heir. -/
theorem covers_heirOf {other : List Entrance} (above : stopOf other ≤ startOf run) (line : Nat) :
    Covers other (heirOf lines run line) ↔ Covers other line := by
  by_cases low : line < startOf run
  · rw [heirOf_of_lt low]
  · have high := @startOf_le_heirOf lines run line (Nat.le_of_not_lt low)
    simp only [Covers]
    omega

theorem mergedLines_merged {other : List Entrance} (isRun : IsRun site.buffer.lines run)
    (order : startOf other < stopOf other) (above : stopOf other ≤ startOf run) :
    mergedLines (site.merged run).buffer.lines other = mergedLines site.buffer.lines other := by
  obtain ⟨-, top, -⟩ := isRun.lines_parts
  have same : (site.merged run).buffer.lines.take (startOf run) =
      site.buffer.lines.take (startOf run) := by
    rw [Site.lines_merged isRun, List.append_assoc, List.take_left' top]
  rw [← mergedLines_take order above, same, mergedLines_take order above]

theorem callOf_merged {other : List Entrance} (isRun : IsRun site.buffer.lines run)
    (order : startOf other < stopOf other) (above : stopOf other ≤ startOf run) :
    callOf (site.merged run).buffer.lines other = callOf site.buffer.lines other := by
  have last := callOf_last (site.merged run).buffer.lines other
  rw [mergedLines_merged isRun order above, callOf_last] at last
  exact (Option.some.inj last).symm

/-- What is left of a site with its runs merged: the entrances outside of them, each where its heir
stands, and every heir says what its line stands for, among the steps. -/
structure Gathers (runs : List (List Entrance)) (site after : Site) : Prop where
  entrances : entranceLines after.buffer.lines after.steps =
    ((entranceLines site.buffer.lines site.steps).filter (Loose runs ·)).map
      (heirAmong site.buffer.lines runs)
  stands : ∀ line, after.buffer.lines[heirAmong site.buffer.lines runs line]? =
    standsFor site.buffer.lines runs line
  within : ∀ line, site.steps.start < line → line < site.steps.stop →
    after.steps.start < heirAmong site.buffer.lines runs line ∧
      heirAmong site.buffer.lines runs line < after.steps.stop

theorem Gathers.refl (site : Site) : Gathers [] site site where
  entrances := by
    have all : (entranceLines site.buffer.lines site.steps).filter (Loose [] ·) =
        entranceLines site.buffer.lines site.steps :=
      List.filter_eq_self.mpr fun line _ => decide_eq_true (List.forall_mem_nil _)
    rw [all]
    exact (List.map_id _).symm
  stands _ := rfl
  within _ low high := ⟨low, high⟩

/-- Outside of some runs is outside of the last one, with the heir outside of those above it. -/
theorem loose_concat_iff (above : ∀ other ∈ runs, stopOf other ≤ startOf run) (line : Nat) :
    Loose (runs ++ [run]) line ↔ Loose runs (heirOf lines run line) ∧ ¬ Covers run line := by
  have each : Loose runs (heirOf lines run line) ↔ Loose runs line :=
    forall₂_congr fun other member => not_congr (covers_heirOf (above other member) line)
  rw [each, Loose, Loose, List.forall_mem_append, List.forall_mem_singleton]

/-- Heirs of lines among the steps are among the steps that are left. -/
theorem heirOf_within (framed : site.Framed) (isRun : IsRun site.buffer.lines run)
    (low : site.steps.start < startOf run) (high : stopOf run < site.steps.stop)
    (above : site.steps.start < place) (below : place < site.steps.stop) :
    (site.merged run).steps.start < heirOf site.buffer.lines run place ∧
      heirOf site.buffer.lines run place < (site.merged run).steps.stop := by
  obtain ⟨-, -, start, stop⟩ := framed.merged isRun low high
  have size := Site.length_merged isRun
  have order := isRun.start_lt_stop
  have some := length_mergedLines_pos site.buffer.lines run
  rw [start, heirOf]
  split
  · omega
  · split <;> omega

theorem Gathers.concat (framed : site.Framed) (isRun : IsRun site.buffer.lines run)
    (low : site.steps.start < startOf run) (high : stopOf run < site.steps.stop)
    (above : ∀ other ∈ runs, startOf other < stopOf other ∧ stopOf other ≤ startOf run)
    (gathers : Gathers runs (site.merged run) after) : Gathers (runs ++ [run]) site after := by
  have heir (line : Nat) : heirAmong site.buffer.lines (runs ++ [run]) line =
      heirAmong (site.merged run).buffer.lines runs (heirOf site.buffer.lines run line) := by
    rw [heirAmong_concat]
    exact (heirAmong_congr fun other member =>
      mergedLines_merged isRun (above other member).1 (above other member).2).symm
  refine ⟨?_, ?_, ?_⟩
  · have loose (line : Nat) : (decide (Loose runs (heirOf site.buffer.lines run line)) &&
        !decide (Covers run line)) = decide (Loose (runs ++ [run]) line) := by
      rw [← decide_not, ← Bool.decide_and]
      exact decide_eq_decide.mpr
        (loose_concat_iff (fun other member => (above other member).2) line).symm
    rw [gathers.entrances, entranceLines_merged framed isRun low high, List.filter_map,
      List.filter_filter, List.map_map]
    simp only [Function.comp_def, loose]
    exact List.map_congr_left fun line _ => (heir line).symm
  · intro line
    have found : runs.find? (Covers · (heirOf site.buffer.lines run line)) =
        runs.find? (Covers · line) :=
      List.find?_congr fun other member =>
        decide_eq_decide.mpr (covers_heirOf (above other member).2 line)
    rw [heir, gathers.stands, standsFor, standsFor, List.find?_append, found]
    cases among : runs.find? (Covers · line) with
    | some other =>
      obtain ⟨order, up⟩ := above other (List.mem_of_find?_eq_some among)
      exact congrArg some (callOf_merged isRun order up)
    | none =>
      rw [Option.none_or, getElem?_heirOf isRun, List.find?_singleton]
      by_cases inside : Covers run line
      · simp [inside]
      · simp [inside]
  · intro line top bottom
    rw [heir]
    have inside := heirOf_within framed isRun low high top bottom
    exact gathers.within _ inside.1 inside.2

theorem mergeEach_gathers (framed : site.Framed)
    (found : entranceRuns site.buffer site.steps = .ok runs)
    (ran : mergeEach runs.reverse site = .ok () after) : Gathers runs site after := by
  induction runs using List.reverseRecOn generalizing site with
  | nil =>
    obtain ⟨-, rfl⟩ := pure_ran.mp ran
    exact .refl _
  | append_singleton runs run ih =>
    obtain ⟨isRun, low, high, found'⟩ := entranceRuns_merged framed found
    obtain ⟨-, each, apart⟩ := entranceRuns_ok found
    rw [List.reverse_append, List.reverse_singleton, List.singleton_append] at ran
    obtain ⟨-, ran'⟩ := (mergeEach_cons_ran_iff isRun.start_lt_stop).mp ran
    have gathers := ih (framed.merged isRun low high).1 found' ran'
    refine gathers.concat framed isRun low high ?_
    intro other member
    exact ⟨(each other (List.mem_append_left _ member)).2.1.start_lt_stop,
      (List.pairwise_append.mp apart).2.2 other member run (List.mem_singleton_self _)⟩

end Merges

section Files

variable {first : Buffer} {bench last : Bench} {survey : Survey} {location : Location}
  {report : MergeReport} {record own : Span} {above inner below front behind : List String}
  {number : Nat}

/-- Entrances are found in the steps of a record wherever it stands. -/
theorem entranceLines_embedded (order : own.start < own.stop) (inside : own.stop ≤ inner.length)
    (begins : steps.start = own.start + front.length)
    (ends : steps.stop = own.stop + front.length) :
    entranceLines (front ++ inner ++ behind) steps =
      (entranceLines inner own).map (· + front.length) := by
  have closing : steps.stop - 1 = own.stop - 1 + front.length := by omega
  have low : own.start < inner.length := by omega
  have high : own.stop - 1 ≤ inner.length := by omega
  obtain ⟨levels, leveled⟩ := stepLevelLines_defined low high
  have leveled' : stepLevelLines (front ++ inner ++ behind) steps.start (steps.stop - 1) =
      .ok (levels.map (· + front.length)) := by
    rw [begins, closing, stepLevelLines_embedded low high, leveled]
    rfl
  rw [entranceLines_eq leveled, entranceLines_eq leveled', entersAmong, List.filter_map, entersAmong]
  congr 1
  apply List.filter_congr
  intro line member
  have within : line < inner.length :=
    Nat.lt_of_lt_of_le (((stepLevelLines_ok leveled).2 line).mp member).2.1 high
  rw [Function.comp_apply, getElem?_embedded within]

/-- The same lines with others above them: their numbers go by the lines above. -/
theorem getElem?_elsewhere (low : above.length ≤ place)
    (high : place < above.length + inner.length) :
    (front ++ inner ++ behind)[place - above.length + front.length]? =
      (above ++ inner ++ below)[place]? := by
  have inside : place - above.length < inner.length := by omega
  have here := @getElem?_embedded _ above inner below _ inside
  rw [Nat.sub_add_cancel low] at here
  rw [getElem?_embedded inside, here]

theorem entranceLines_elsewhere {left : Span} (low : above.length ≤ steps.start)
    (order : steps.start < steps.stop) (high : steps.stop ≤ above.length + inner.length)
    (begins : left.start = steps.start - above.length + front.length)
    (ends : left.stop = steps.stop - above.length + front.length) :
    entranceLines (front ++ inner ++ behind) left =
      (entranceLines (above ++ inner ++ below) steps).map (· - above.length + front.length) := by
  let own : Span := ⟨steps.start - above.length, steps.stop - above.length, 0⟩
  have turned : own.start < own.stop := by
    simp only [own]
    omega
  have inside : own.stop ≤ inner.length := by
    simp only [own]
    omega
  have here : entranceLines (above ++ inner ++ below) steps =
      (entranceLines inner own).map (· + above.length) := by
    apply entranceLines_embedded turned inside
    · exact (Nat.sub_add_cancel low).symm
    · exact (Nat.sub_add_cancel (by omega)).symm
  rw [entranceLines_embedded turned inside begins ends, here, List.map_map]
  apply List.map_congr_left
  intro line _
  rw [Function.comp_apply, Nat.add_sub_cancel]

/-- The steps stand in their record as far from its first line, and from its last one, as they did. -/
structure SameInset (record steps record' steps' : Span) : Prop where
  above : steps'.start + record.start = record'.start + steps.start
  below : steps'.stop + record.stop = record'.stop + steps.stop

/-- The runs in the steps of a record stand in it, one below the other. -/
theorem runs_inside (found : entranceRuns buffer steps = .ok runs)
    (low : record.start ≤ steps.start) (order : steps.start < steps.stop)
    (high : steps.stop ≤ record.stop) :
    (∀ run ∈ runs, record.start ≤ startOf run) ∧ Descend record.start runs ∧
      lineBehind record.start runs ≤ record.stop := by
  obtain ⟨-, each, apart⟩ := entranceRuns_ok found
  have starts : ∀ run ∈ runs, record.start ≤ startOf run :=
    fun run member => Nat.le_trans low (Nat.le_of_lt (each run member).2.2.1)
  refine ⟨starts, ?_, ?_⟩
  · exact descend_of_pairwise apart fun run member =>
      ⟨starts run member, (each run member).2.1.start_lt_stop⟩
  · apply lineBehind_le (by omega)
    exact fun run member => Nat.le_trans (Nat.le_of_lt (each run member).2.2.2) high

/-- The lines of a record once its file has been merged, between what became of those around it. -/
theorem mergeEntrances_record (ran : mergeEntrances module bench = .ok report last)
    (surveyed : findAll bench.buffer = .ok survey) (listed : location ∈ survey.found)
    (alone : StandsAlone survey location) (imports : ImportsAbove module bench.buffer.lines)
    (unnamed : CallsUnnamed module bench.buffer survey) (stepped : location.steps = some steps) :
    entranceRuns bench.buffer steps = .ok (runsAt bench.buffer location) ∧
      ∃ front behind, last.buffer.lines = front ++ mergedRecord bench.buffer.lines location.record
          location.record.start (runsAt bench.buffer location) ++ behind ∧
        Regathered module bench.buffer location.record last.buffer
          (last.buffer.spanBehind front (mergedRecord bench.buffer.lines location.record
            location.record.start (runsAt bench.buffer location))) := by
  obtain ⟨upper, lower, split⟩ := List.append_of_mem listed
  obtain ⟨_, middle, answer, surveyed', merged, imported⟩ := mergeEntrances_ran ran
  obtain rfl := Except.ok.inj (surveyed'.symm.trans surveyed)
  obtain ⟨_, above, below, stepped', found, -, -, -, merging⟩ :=
    mergeRecords_above surveyed split alone merged
  obtain rfl := Option.some.inj (stepped'.symm.trans stepped)
  obtain ⟨-, order, inner, -⟩ := spans_of_findAll surveyed location listed _ stepped
  have low := ((locateAt_order (found_of_findAll surveyed listed).1).2 _ stepped).1
  obtain ⟨starts, descend, ends⟩ := runs_inside found low order inner
  obtain ⟨behind, patch, follows, merging⟩ := merging _ (Nat.le_refl _) (by omega) starts
  obtain ⟨closed, free⟩ := noImport_around surveyed listed imports unnamed merging merged
  have plain : Patched (WithImports groupSymbols module bench.buffer.lines
      (MergeChange bench.buffer (foundIn bench.buffer))) bench.buffer.lines location.record.start 0
        (patch.after bench.buffer.lines) := by
    rw [foundIn, surveyed]
    exact ⟨patch, merging.before, rfl, Nat.le_of_eq merging.calm,
      fun change member => .plain (merging.sound change member)⟩
  obtain ⟨front, parts, patched⟩ := importGroups_front merging.lines plain closed
    (free _ (Nat.le_refl _) descend ends behind follows) imported
  rw [← List.append_assoc] at parts
  have few : (sidesOf report.groups).length ≤ 2 := List.length_filter_le _ _
  refine ⟨found, front, behind, parts, rfl, ?_, ?_⟩
  · change Patched _ _ _ _ (last.buffer.lines.take front.length)
    rw [parts, List.append_assoc, List.take_left]
    exact patched.mono (by omega)
  · change MergedFrom _ _ _ (last.buffer.lines.drop (front ++ _).length)
    rw [parts, List.drop_left, foundIn, surveyed]
    exact follows

/-- A record by itself with its runs merged, as it comes in the merged file too. -/
theorem mergeEach_record (framed : site.Framed)
    (found : entranceRuns site.buffer site.steps = .ok runs)
    (ran : mergeEach runs.reverse site = .ok () after) :
    after.buffer.lines = site.buffer.lines.take site.record.start ++
      mergedRecord site.buffer.lines site.record site.record.start runs ++
        site.buffer.lines.drop site.record.stop := by
  obtain ⟨-, descend, ends⟩ := runs_inside found framed.above framed.order framed.below
  have lines := mergeEach_lines descend (Nat.le_trans ends framed.inside)
    (List.take_append_drop _ _).symm ran
  have top : linesFrom site.buffer.lines site.record.start site.record.start = [] :=
    List.drop_eq_nil_of_le (List.length_take_le _ _)
  have bottom : site.buffer.lines.drop (lineBehind site.record.start runs) =
      linesFrom site.buffer.lines (lineBehind site.record.start runs) site.record.stop ++
        site.buffer.lines.drop site.record.stop := by
    rw [linesFrom, ← List.drop_append_of_le_length, List.take_append_drop]
    rwa [List.length_take_of_le framed.inside]
  rw [lines, mergedRecord, top, List.nil_append, bottom]
  simp only [List.append_assoc]

/-- Where a line of the steps stands in the merged file, or the call that takes its place. -/
def placeIn (lines : List String) (runs : List (List Entrance)) (steps left : Span) (line : Nat) :
    Nat :=
  left.start + (heirAmong lines runs line - steps.start)

/-- A merged record that stands elsewhere, with its steps at `steps`, holds the heirs too. -/
theorem Gathers.elsewhere (gathers : Gathers runs site after)
    (start : after.steps.start = site.steps.start)
    (order : after.steps.start < after.steps.stop)
    (lines : after.buffer.lines = above ++ inner ++ below)
    (parts : buffer.lines = front ++ inner ++ behind) (low : above.length ≤ after.steps.start)
    (high : after.steps.stop ≤ above.length + inner.length)
    (begins : steps.start = after.steps.start - above.length + front.length)
    (ends : steps.stop = after.steps.stop - above.length + front.length) :
    (∀ line, site.steps.start < line → line < site.steps.stop →
      buffer.line? (placeIn site.buffer.lines runs site.steps steps line) =
        standsFor site.buffer.lines runs line) ∧
      entranceLines buffer.lines steps =
        ((entranceLines site.buffer.lines site.steps).filter (Loose runs ·)).map
          (placeIn site.buffer.lines runs site.steps steps) := by
  have place (line : Nat) (top : site.steps.start < line) (bottom : line < site.steps.stop) :
      above.length ≤ heirAmong site.buffer.lines runs line ∧
        heirAmong site.buffer.lines runs line < above.length + inner.length ∧
        placeIn site.buffer.lines runs site.steps steps line =
          heirAmong site.buffer.lines runs line - above.length + front.length := by
    obtain ⟨top', bottom'⟩ := gathers.within line top bottom
    refine ⟨by omega, by omega, ?_⟩
    rw [placeIn]
    omega
  constructor
  · intro line top bottom
    obtain ⟨top', bottom', same⟩ := place line top bottom
    rw [← gathers.stands line, Buffer.line?, same, parts, lines]
    exact getElem?_elsewhere top' bottom'
  · rw [parts, entranceLines_elsewhere low order high begins ends, ← lines, gathers.entrances,
      List.map_map]
    apply List.map_congr_left
    intro line member
    obtain ⟨top, bottom, -⟩ := bounds_of_mem_entranceLines (List.mem_of_mem_filter member)
    exact (place line top bottom).2.2.symm

/-- The steps of a record in the merged file: the lines stand, and the entrances are found, where
their heirs are. -/
theorem mergeEntrances_steps (ran : mergeEntrances module bench = .ok report last)
    (surveyed : findAll bench.buffer = .ok survey) (listed : location ∈ survey.found)
    (alone : StandsAlone survey location) (imports : ImportsAbove module bench.buffer.lines)
    (unnamed : CallsUnnamed module bench.buffer survey) (stepped : location.steps = some steps) :
    ∃ record left, Regathered module bench.buffer location.record last.buffer record ∧
      SameInset location.record steps record left ∧
      (∀ line, steps.start < line → line < steps.stop →
        last.buffer.line? (placeIn bench.buffer.lines (runsAt bench.buffer location) steps left
          line) = standsFor bench.buffer.lines (runsAt bench.buffer location) line) ∧
      entranceLine last.buffer left = .ok (((entranceLines bench.buffer.lines steps).find?
        (Loose (runsAt bench.buffer location) ·)).map fun line =>
          placeIn bench.buffer.lines (runsAt bench.buffer location) steps left line + 1) := by
  obtain ⟨found, front, behind, parts, regathered⟩ :=
    mergeEntrances_record ran surveyed listed alone imports unnamed stepped
  generalize runsAt bench.buffer location = runs at *
  have framed : Site.Framed ⟨bench.buffer, location.record, steps⟩ :=
    Site.framed_of_located (found_of_findAll surveyed listed).1 stepped
  -- What merging makes of this record alone comes in the merged file with other lines around it.
  obtain ⟨after, merged, framed', -, -, start, stop⟩ := mergeEach_settles framed found
  have gathers := mergeEach_gathers framed found merged
  have lines := mergeEach_record framed found merged
  simp only at lines start stop
  generalize mergedRecord bench.buffer.lines location.record location.record.start runs = inner
    at parts regathered lines
  obtain ⟨-, above, order, below, inside⟩ := framed
  simp only at above order below inside
  have order' := framed'.order
  have top : (bench.buffer.lines.take location.record.start).length = location.record.start :=
    List.length_take_of_le (by omega)
  have size : after.steps.stop + location.record.stop =
      location.record.start + inner.length + steps.stop := by
    have whole := congrArg List.length lines
    rw [List.length_append, List.length_append, top, List.length_drop] at whole
    omega
  let left : Span := ⟨after.steps.start - location.record.start + front.length,
    after.steps.stop - location.record.start + front.length, last.buffer.revision⟩
  obtain ⟨stands, entrances⟩ := @Gathers.elsewhere _ _ after left last.buffer _ _ _ _ _ gathers
    start order' lines parts (by omega) (by omega) (by rw [top]) (by rw [top])
  refine ⟨_, left, regathered, ⟨?_, ?_⟩, stands, ?_⟩
  · show after.steps.start - location.record.start + front.length + location.record.start =
      front.length + steps.start
    omega
  · show after.steps.stop - location.record.start + front.length + location.record.stop =
      (front ++ inner).length + steps.stop
    rw [List.length_append]
    omega
  · have inside' : left.start < left.stop ∧ left.stop ≤ last.buffer.lines.length := by
      rw [parts, List.length_append, List.length_append]
      simp only [left]
      omega
    obtain ⟨levels, leveled⟩ := @stepLevelLines_defined last.buffer.lines left.start
      (left.stop - 1) (by omega) (by omega)
    rw [entranceLine_eq_head? (Buffer.isValid_of_current rfl) leveled, entrances, List.head?_map,
      List.head?_filter, Option.map_map]
    rfl

/-- The line below the first entrance is found below the directive that now brings in the character
just when that entrance went into no group. Otherwise it is found below the first one that went into
none, if there is one: the calls of groups are passed over. -/
theorem entranceLine_merged_iff (ran : mergeEntrances module bench = .ok report last)
    (surveyed : findAll bench.buffer = .ok survey) (listed : location ∈ survey.found)
    (alone : StandsAlone survey location) (imports : ImportsAbove module bench.buffer.lines)
    (unnamed : CallsUnnamed module bench.buffer survey) (stepped : location.steps = some steps)
    (entered : entranceLine bench.buffer steps = .ok (some (number + 1))) :
    ∃ record left, Regathered module bench.buffer location.record last.buffer record ∧
      SameInset location.record steps record left ∧
      (∀ line, steps.start < line → line < steps.stop →
        last.buffer.line? (placeIn bench.buffer.lines (runsAt bench.buffer location) steps left
          line) = standsFor bench.buffer.lines (runsAt bench.buffer location) line) ∧
      entranceLine last.buffer left = .ok (((entranceLines bench.buffer.lines steps).find?
        (Loose (runsAt bench.buffer location) ·)).map fun line =>
          placeIn bench.buffer.lines (runsAt bench.buffer location) steps left line + 1) ∧
      (entranceLine last.buffer left = .ok (some (placeIn bench.buffer.lines
          (runsAt bench.buffer location) steps left number + 1)) ↔
        Loose (runsAt bench.buffer location) number) := by
  obtain ⟨record, left, regathered, inset, stands, answer⟩ :=
    mergeEntrances_steps ran surveyed listed alone imports unnamed stepped
  obtain ⟨found, -⟩ := mergeEntrances_record ran surveyed listed alone imports unnamed stepped
  obtain ⟨-, each, -⟩ := entranceRuns_ok found
  generalize runsAt bench.buffer location = runs at *
  have framed : Site.Framed ⟨bench.buffer, location.record, steps⟩ :=
    Site.framed_of_located (found_of_findAll surveyed listed).1 stepped
  have first : (entranceLines bench.buffer.lines steps).head? = some number := by
    have known := (entranceLine_framed framed).symm.trans entered
    simpa using known
  obtain ⟨others, entrances⟩ := List.head?_eq_some_iff.mp first
  refine ⟨record, left, regathered, inset, stands, answer, ?_⟩
  rw [answer, Except.ok.injEq]
  constructor
  · intro same
    by_contra covered
    obtain ⟨other, there, place⟩ := Option.map_eq_some_iff.mp same
    have loose : Loose runs other := by simpa using List.find?_some there
    obtain ⟨low, high, enters⟩ :=
      bounds_of_mem_entranceLines (List.mem_of_find?_eq_some there)
    obtain ⟨low', high', -⟩ := bounds_of_mem_entranceLines (List.mem_of_head? first)
    obtain ⟨run, member, -, call⟩ := @standsFor_covered bench.buffer.lines runs number covered
    have line := stands other low high
    rw [Nat.add_right_cancel place, stands number low' high', call, standsFor_loose loose] at line
    rw [← line, Option.any_some,
      (each run member).2.1.entersOn_mergedLines _ (by simp [mergedLines])] at enters
    exact Bool.false_ne_true enters
  · intro loose
    rw [entrances, List.find?_cons_of_pos (by simpa using loose)]
    rfl

/-- The king comes on alone, and then two others together. -/
def soloScene : Buffer := ⟨["const A = \x7b", "id: 'a',", "steps: [", "...ENTER_FROM_RIGHT('king'),",
  "...ENTER_FROM_LEFT('queen'),", "...ENTER_FROM_LEFT('mage'),", "],", "\x7d;"], []⟩

def soloLocation : Location := ⟨"a", 1, ⟨0, 8, 0⟩, some ⟨2, 7, 0⟩⟩

theorem runsAt_soloScene : runsAt soloScene soloLocation =
    [[⟨4, .left, "queen", "cs-left"⟩, ⟨5, .left, "mage", "cs-left"⟩]] := by
  decide +kernel

theorem entranceLine_merged_iff_solo : ∃ report last left,
    mergeEntrances templateModule ⟨soloScene, []⟩ = .ok report last ∧
      report.groups = [⟨"a", .left, ["queen", "mage"]⟩] ∧
      entranceLine soloScene ⟨2, 7, 0⟩ = .ok (some 4) ∧
      entranceLine last.buffer left = .ok (some (left.start + 2)) ∧
      last.buffer.line? (left.start + 1) = some "...ENTER_FROM_RIGHT('king')," := by
  have merged : (groupedScene soloScene).map (·.1) =
      some [⟨"a", .left, ["queen", "mage"]⟩] := by
    decide +kernel
  obtain ⟨⟨groups, lines⟩, merged, same⟩ := Option.map_eq_some_iff.mp merged
  obtain ⟨report, last, ran, reported, -⟩ := groupedScene_eq_some merged
  have found : foundIn soloScene = [soloLocation] := by decide +kernel
  obtain ⟨survey, surveyed, listed⟩ := foundIn_eq found (by simp)
  have only {other : Location} (member : other ∈ survey.found) : other = soloLocation := by
    rw [listed] at member
    exact List.mem_singleton.mp member
  have alone : StandsAlone survey soloLocation := fun other member apart =>
    absurd (only member) apart
  have imports : ImportsAbove templateModule soloScene.lines := by
    refine ⟨0, ?_, by decide +kernel, by decide +kernel⟩
    exact List.forall_mem_nil _
  have unnamed : CallsUnnamed templateModule soloScene survey := by
    intro location member
    rw [only member, runsAt_soloScene]
    decide +kernel
  have entered : entranceLine soloScene ⟨2, 7, 0⟩ = .ok (some (3 + 1)) := by rfl
  obtain ⟨record, left, -, -, stands, -, answer⟩ :=
    entranceLine_merged_iff ran surveyed (by simp [listed]) alone imports unnamed rfl entered
  have place : placeIn soloScene.lines (runsAt soloScene soloLocation) ⟨2, 7, 0⟩ left 3 =
      left.start + 1 := by
    rw [runsAt_soloScene]
    rfl
  rw [place] at answer
  have king := stands 3 (by decide) (by decide)
  rw [place, runsAt_soloScene] at king
  refine ⟨report, last, left, ran, reported.trans same, entered, answer.mpr ?_, king.trans ?_⟩
  · rw [runsAt_soloScene]
    decide
  · decide +kernel

/-- The king and the queen come on together, and nobody else does. -/
def pairScene : Buffer := ⟨["const A = \x7b", "id: 'a',", "steps: [", "...ENTER_FROM_LEFT('king'),",
  "...ENTER_FROM_LEFT('queen'),", "...NARRATOR('x'),", "],", "\x7d;"], []⟩

/-- There is a line below the first entrance, and there is none when the two have been merged. -/
theorem entranceLine_lost : ∃ report after,
    mergeEntrances templateModule ⟨pairScene, []⟩ = .ok report after ∧
      foundIn pairScene = [⟨"a", 1, ⟨0, 8, 0⟩, some ⟨2, 7, 0⟩⟩] ∧
      entranceLine pairScene ⟨2, 7, 0⟩ = .ok (some 4) ∧
      report.groups = [⟨"a", .left, ["king", "queen"]⟩] ∧
      foundIn ⟨after.buffer.lines, []⟩ = [⟨"a", 3, ⟨2, 9, 0⟩, some ⟨4, 8, 0⟩⟩] ∧
      after.buffer.lines[5]? = some "...GROUP_ENTER_LEFT([['king'], ['queen']])," ∧
      entranceLine ⟨after.buffer.lines, []⟩ ⟨4, 8, 0⟩ = .ok none := by
  have merged : groupedScene pairScene = some ([⟨"a", .left, ["king", "queen"]⟩],
      ["import \x7b GROUP_ENTER_LEFT \x7d from '../movement-templates';", "", "const A = \x7b",
        "id: 'a',", "steps: [", "...GROUP_ENTER_LEFT([['king'], ['queen']]),", "...NARRATOR('x'),",
        "],", "\x7d;"]) := by
    decide +kernel
  obtain ⟨report, after, ran, groups, lines⟩ := groupedScene_eq_some merged
  refine ⟨report, after, ran, by decide +kernel, by rfl, groups, ?_⟩
  rw [lines]
  exact ⟨by decide +kernel, rfl, by rfl⟩

end Files

end Stagecraft
