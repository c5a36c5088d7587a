import Mathlib.Data.List.Nodup
import Stagecraft.Proofs.Edit.InsideSteps
import Stagecraft.Proofs.Edit.Picks

/-!
Blocks that shake the camera. They fall into clusters in one way only. Of a cluster of three or
more, the first of its strongest blocks stays and the others go; nothing else goes.
-/

namespace Stagecraft

variable {reach : Int} {site : Site} {buffer : Buffer} {steps : Span} {spans : List Span}
  {block first second : Block} {blocks cluster : List Block} {clusters : List (List Block)}

def Block.shakes (block : Block) : Bool := holds block.text "camera_shake"

/-- The blocks cut into clusters: within one, each block is near the one before, and what comes
behind it is not. -/
structure Clusters (reach : Int) (blocks : List Block) (clusters : List (List Block)) : Prop where
  whole : clusters.flatten = blocks
  filled : [] ∉ clusters
  near : ∀ cluster ∈ clusters, cluster.IsChain fun before after => gapBetween before after ≤ reach
  far : clusters.IsChain fun above below => ∃ filled filled',
    reach < gapBetween (above.getLast filled) (below.head filled')

/-- The first of the strongest blocks of a cluster. -/
def FirstStrongest (cluster : List Block) (block : Block) : Prop :=
  ∃ before after, cluster = before ++ block :: after ∧
    (∀ other ∈ before, other.intensity < block.intensity) ∧
    ∀ other ∈ after, other.intensity ≤ block.intensity

/-- The line is in none of the spans. -/
def outside (spans : List Span) (number : Nat) : Bool :=
  spans.all fun span => number < span.start || span.stop ≤ number

section Parts

theorem clusters_iff_splitBy : Clusters reach blocks clusters ↔
    blocks.splitBy (fun before after => decide (gapBetween before after ≤ reach)) = clusters := by
  rw [List.splitBy_eq_iff]
  constructor
  · rintro ⟨whole, filled, near, far⟩
    refine ⟨whole.symm, filled, ?_, ?_⟩
    · simpa only [decide_eq_true_eq] using near
    · simpa only [decide_eq_false_iff_not, Int.not_le] using far
  · rintro ⟨whole, filled, near, far⟩
    refine ⟨whole.symm, filled, ?_, ?_⟩
    · simpa only [decide_eq_true_eq] using near
    · simpa only [decide_eq_false_iff_not, Int.not_le] using far

theorem clusters_iff_shakeClusters :
    Clusters reach (blocks.filter Block.shakes) clusters ↔ clusters = shakeClusters reach blocks :=
  clusters_iff_splitBy.trans eq_comm

theorem le_foldl_max (start : Nat) (list : List Nat) :
    start ≤ list.foldl max start ∧ ∀ number ∈ list, number ≤ list.foldl max start := by
  induction list generalizing start with
  | nil => simp
  | cons number rest ih =>
    obtain ⟨low, each⟩ := ih (max start number)
    rw [List.foldl_cons]
    refine ⟨by omega, List.forall_mem_cons.mpr ⟨by omega, each⟩⟩

theorem foldl_max_mem (start : Nat) (list : List Nat) :
    list.foldl max start = start ∨ list.foldl max start ∈ list := by
  induction list generalizing start with
  | nil => exact .inl rfl
  | cons number rest ih =>
    rw [List.foldl_cons, List.mem_cons]
    rcases ih (max start number) with same | later
    · omega
    · exact .inr (.inr later)

/-- The block that is told by its place is the first of the strongest. -/
theorem exists_firstStrongest (filled : cluster ≠ []) :
    ∃ before keep after, cluster = before ++ keep :: after ∧
      (∀ other ∈ before, other.intensity < keep.intensity) ∧
      (∀ other ∈ after, other.intensity ≤ keep.intensity) ∧
      cluster.eraseIdx (cluster.findIdx
        (·.intensity == (cluster.map Block.intensity).foldl max 0)) = before ++ after := by
  generalize top : (cluster.map Block.intensity).foldl max 0 = strongest
  obtain ⟨-, least⟩ := le_foldl_max 0 (cluster.map Block.intensity)
  rw [top] at least
  have below : ∀ other ∈ cluster, other.intensity ≤ strongest :=
    fun other member => least _ (List.mem_map_of_mem member)
  have reached : ∃ other ∈ cluster, (other.intensity == strongest) = true := by
    rcases foldl_max_mem 0 (cluster.map Block.intensity) with zero | member
    · have first := below _ (List.head_mem filled)
      exact ⟨cluster.head filled, List.head_mem filled, beq_iff_eq.mpr (by omega)⟩
    · obtain ⟨other, present, same⟩ := List.mem_map.mp member
      exact ⟨other, present, beq_iff_eq.mpr (same.trans top)⟩
  have inside := List.findIdx_lt_length_of_exists reached
  have keep := beq_iff_eq.mp (List.findIdx_getElem (w := inside))
  generalize place : cluster.findIdx (·.intensity == strongest) = index at inside keep
  have parts : cluster = cluster.take index ++ cluster[index] :: cluster.drop (index + 1) := by
    rw [← List.drop_eq_getElem_cons inside, List.take_append_drop]
  refine ⟨_, _, _, parts, ?_, ?_, List.eraseIdx_eq_take_drop_succ _ _⟩
  · intro other member
    obtain ⟨early, low, rfl⟩ := List.mem_take_iff_getElem.mp member
    have early' : early < cluster.findIdx (·.intensity == strongest) := by omega
    have weaker : (cluster[early].intensity == strongest) = false :=
      List.not_of_lt_findIdx early'
    have different := beq_eq_false_iff_ne.mp weaker
    have bound := below cluster[early] (List.getElem_mem _)
    omega
  · intro other member
    rw [keep]
    exact below other (List.mem_of_mem_drop member)

theorem FirstStrongest.unique (one : FirstStrongest cluster first)
    (other : FirstStrongest cluster second) : first = second := by
  obtain ⟨before, after, rfl, stronger, strong⟩ := one
  obtain ⟨before', after', split, stronger', strong'⟩ := other
  rcases List.append_eq_append_iff.mp split with ⟨more, rfl, behind⟩ | ⟨more, rfl, behind⟩
  · cases more with
    | nil => exact (List.cons.inj behind).1
    | cons block more =>
      -- the first of the two stands above the second, which is stronger only if it is behind
      obtain ⟨rfl, rfl⟩ := List.cons.inj behind
      have up := stronger' first (by simp)
      have down := strong second (by simp)
      omega
  · cases more with
    | nil => exact (List.cons.inj behind).1.symm
    | cons block more =>
      obtain ⟨rfl, rfl⟩ := List.cons.inj behind
      have up := stronger second (by simp)
      have down := strong' first (by simp)
      omega

/-- The blocks of a cluster that go. -/
def weakerBlocks (cluster : List Block) : List Block :=
  if cluster.length < 3 then []
  else cluster.eraseIdx (cluster.findIdx
    (·.intensity == (cluster.map Block.intensity).foldl max 0))

theorem weakerShakes_eq (cluster : List Block) :
    weakerShakes cluster = (weakerBlocks cluster).map (·.span) := by
  rw [weakerShakes, weakerBlocks]
  split
  · rfl
  · rfl

theorem weakerBlocks_sublist (cluster : List Block) : (weakerBlocks cluster).Sublist cluster := by
  rw [weakerBlocks]
  split
  · exact List.nil_sublist _
  · exact List.eraseIdx_sublist _ _

theorem mem_weakerBlocks (nodup : cluster.Nodup) :
    block ∈ weakerBlocks cluster ↔
      3 ≤ cluster.length ∧ block ∈ cluster ∧ ¬ FirstStrongest cluster block := by
  rw [weakerBlocks]
  by_cases short : cluster.length < 3
  · rw [if_pos short]
    constructor
    · intro member
      cases member
    · rintro ⟨long, -, -⟩
      omega
  · obtain ⟨before, keep, after, split, stronger, strong, left⟩ :=
      exists_firstStrongest (List.ne_nil_of_length_pos (by omega : 0 < cluster.length))
    have first : FirstStrongest cluster keep := ⟨before, after, split, stronger, strong⟩
    rw [if_neg short, left]
    constructor
    · intro member
      refine ⟨by omega, ?_, ?_⟩
      · rw [split]
        rcases List.mem_append.mp member with above | below
        · exact List.mem_append_left _ above
        · exact List.mem_append_right _ (List.mem_cons_of_mem _ below)
      · intro other
        obtain rfl := first.unique other
        rw [split] at nodup
        exact (List.nodup_cons.mp (List.nodup_middle.mp nodup)).1 member
    · rintro ⟨-, member, weaker⟩
      rw [split] at member
      rcases List.mem_append.mp member with above | here
      · exact List.mem_append_left _ above
      · rcases List.mem_cons.mp here with rfl | below
        · exact absurd first weaker
        · exact List.mem_append_right _ below

/-- The blocks that go, from top to bottom. -/
def excessBlocks (reach : Int) (blocks : List Block) : List Block :=
  (shakeClusters reach blocks).flatMap weakerBlocks

theorem excessBlocks_sublist (reach : Int) (blocks : List Block) :
    (excessBlocks reach blocks).Sublist blocks := by
  calc
    (excessBlocks reach blocks).Sublist ((shakeClusters reach blocks).flatMap id) :=
      List.Sublist.flatMap_right _ fun cluster _ => weakerBlocks_sublist cluster
    _ = blocks.filter Block.shakes := by
      rw [List.flatMap_id, shakeClusters, List.flatten_splitBy]
      rfl
    List.Sublist _ blocks := List.filter_sublist

theorem mem_excessBlocks (nodup : blocks.Nodup) :
    block ∈ excessBlocks reach blocks ↔ ∃ cluster ∈ shakeClusters reach blocks,
      3 ≤ cluster.length ∧ block ∈ cluster ∧ ¬ FirstStrongest cluster block := by
  have single {cluster : List Block} (member : cluster ∈ shakeClusters reach blocks) :
      cluster.Nodup := by
    have part := List.sublist_flatten_of_mem member
    rw [shakeClusters, List.flatten_splitBy] at part
    exact (part.trans List.filter_sublist).nodup nodup
  rw [excessBlocks, List.mem_flatMap]
  constructor
  · rintro ⟨cluster, member, weaker⟩
    exact ⟨cluster, member, (mem_weakerBlocks (single member)).mp weaker⟩
  · rintro ⟨cluster, member, weaker⟩
    exact ⟨cluster, member, (mem_weakerBlocks (single member)).mpr weaker⟩

end Parts

section Lines

/-- A cut among numbers that are all there, above those of which some are gone. -/
theorem cutLines_filter_range {keep : Nat → Bool} {start stop count : Nat}
    (forward : start ≤ stop) (low : stop ≤ count) (above : ∀ number < stop, keep number = true) :
    cutLines start stop ((List.range count).filter keep) =
      (List.range count).filter fun number =>
        (number < start || stop ≤ number) && keep number := by
  have parts : List.range count =
      List.range' 0 start ++ List.range' start (stop - start) ++
        List.range' stop (count - stop) := by
    have upper := @List.range'_append_1 0 start (stop - start)
    have whole := @List.range'_append_1 0 stop (count - stop)
    rw [Nat.zero_add, Nat.add_sub_cancel' forward] at upper
    rw [Nat.zero_add, Nat.add_sub_cancel' low] at whole
    rw [upper, whole, List.range_eq_range']
  have kept : (List.range' 0 start ++ List.range' start (stop - start)).filter keep =
      List.range' 0 start ++ List.range' start (stop - start) := by
    apply List.filter_eq_self.mpr
    intro number member
    apply above
    simp only [List.mem_append, List.mem_range'_1] at member
    omega
  have first : (List.range' 0 start).filter
      (fun number => (number < start || stop ≤ number) && keep number) = List.range' 0 start := by
    apply List.filter_eq_self.mpr
    intro number member
    have high : number < start := by simpa using member
    simp [high, above number (by omega)]
  have second : (List.range' start (stop - start)).filter
      (fun number => (number < start || stop ≤ number) && keep number) = [] := by
    apply List.filter_eq_nil_iff.mpr
    intro number member
    simp only [List.mem_range'_1] at member
    simp only [Bool.and_eq_true, Bool.or_eq_true, decide_eq_true_eq]
    omega
  have third : (List.range' stop (count - stop)).filter
      (fun number => (number < start || stop ≤ number) && keep number) =
        (List.range' stop (count - stop)).filter keep := by
    apply List.filter_congr
    intro number member
    simp [(List.mem_range'_1.mp member).1]
  have length : (List.range' 0 start ++ List.range' start (stop - start)).length = stop := by
    rw [List.length_append, List.length_range', List.length_range']
    omega
  rw [parts, List.filter_append, kept, cutLines, List.drop_left' length, List.append_assoc,
    List.take_left' List.length_range', List.filter_append, List.filter_append, first, second,
    third, List.append_nil]

/-- Spans that lie one above the other, cut from the bottom up, leave the lines in none of them. -/
theorem cutEach_reverse_range {count : Nat}
    (apart : spans.Pairwise fun upper lower => upper.stop ≤ lower.start)
    (within : ∀ span ∈ spans, span.start ≤ span.stop ∧ span.stop ≤ count) :
    cutEach spans.reverse (List.range count) = (List.range count).filter (outside spans) := by
  induction spans with
  | nil => exact (List.filter_eq_self.mpr fun number _ => rfl).symm
  | cons span spans ih =>
    obtain ⟨below, apart⟩ := List.pairwise_cons.mp apart
    obtain ⟨forward, low⟩ := within span (by simp)
    have rest := ih apart fun other member => within other (List.mem_cons_of_mem _ member)
    have above : ∀ number < span.stop, outside spans number = true := by
      intro number high
      apply List.all_eq_true.mpr
      intro other member
      have order := below other member
      simp only [Bool.or_eq_true, decide_eq_true_eq]
      omega
    rw [List.reverse_cons, cutEach_append, rest]
    exact cutLines_filter_range forward low above

end Lines

section Pass

theorem sorted_stepBlocks (found : stepBlocks buffer steps = .ok blocks) :
    blocks.Pairwise fun upper lower => upper.span.start < lower.span.start := by
  obtain ⟨levels, leveled, starts⟩ := starts_of_stepBlocks found
  exact List.pairwise_map.mp ((stepLevelLines_ok leveled).1.sublist starts)

/-- Of the blocks that shake the camera, in clusters of three or more, all but the first of the
strongest go, and nothing else does. -/
theorem cameraShake_keeps_firstStrongest (valid : site.Valid)
    (bounded : stepBlocks site.buffer site.steps = .ok blocks)
    (disjoint : blocks.Pairwise fun one other =>
      one.span.stop ≤ other.span.start ∨ other.span.stop ≤ one.span.start) :
    ∃ (clusters : List (List Block)) (gone : List Block) (after : Site),
      (∀ other, Clusters reach (blocks.filter Block.shakes) other ↔ other = clusters) ∧
      Pass.run reach .cameraShake site = .ok gone.length after ∧
      gone.Sublist blocks ∧
      (∀ block, block ∈ gone ↔ ∃ cluster ∈ clusters,
        3 ≤ cluster.length ∧ block ∈ cluster ∧ ¬ FirstStrongest cluster block) ∧
      after.buffer.lines = ((List.range site.buffer.lines.length).filter
        (outside (gone.map (·.span)))).map (lineAt site.buffer) := by
  have sorted := sorted_stepBlocks bounded
  have bounds {block : Block} (member : block ∈ blocks) :=
    (removable_of_stepBlocks bounded member).bounds
  have nodup : blocks.Nodup := by
    refine sorted.imp ?_
    intro one other order same
    rw [same] at order
    exact Nat.lt_irrefl _ order
  have part := excessBlocks_sublist reach blocks
  have apart : ((excessBlocks reach blocks).map (·.span)).Pairwise
      fun upper lower => upper.stop ≤ lower.start := by
    refine List.pairwise_map.mpr ((sorted.and disjoint).imp_of_mem ?_ |>.sublist part)
    rintro one other member member' ⟨order, above | below⟩
    · exact above
    · have low := (bounds member').2.1
      omega
  have picked : Pass.doomed reach site.buffer site.steps .cameraShake =
      .ok ((excessBlocks reach blocks).map (·.span)) := by
    refine Except.bind_ran.mpr ⟨blocks, bounded, ?_⟩
    rw [excessBlocks, List.map_flatMap]
    simp only [← weakerShakes_eq]
    rfl
  have ran := (Pass.run_ran_iff valid).mpr
    ⟨_, picked, apart, (List.length_map _).symm, rfl⟩
  refine ⟨shakeClusters reach blocks, excessBlocks reach blocks, _,
    fun other => clusters_iff_shakeClusters, ran, part, fun block => mem_excessBlocks nodup, ?_⟩
  rw [Site.buffer_cutEach, Buffer.lines_eq_numbersLeft, Buffer.numbersLeft,
    cutEach_reverse_range apart]
  intro span member
  obtain ⟨block, present, rfl⟩ := List.mem_map.mp member
  obtain ⟨-, forward, high⟩ := bounds (part.subset present)
  obtain ⟨levels, leveled, -⟩ := Except.bind_ran.mp bounded
  have inside := (stepLevelLines_inside leveled).2
  omega

def blockSpans (site : Site) : List Span :=
  match stepBlocks site.buffer site.steps with
  | .ok blocks => blocks.map (·.span)
  | .error _ => []

/-- How many blocks go, and the lines that are left. -/
def calmed (site : Site) : Option (Nat × List String) :=
  match Pass.run 3 .cameraShake site with
  | .ok count after => some (count, after.buffer.lines)
  | .error _ _ => none

/-- Four blocks in one cluster, with a directive among them; the second and the third are the
strongest, and the last one declares no intensity. -/
def quakeSite : Site := ⟨⟨["const A = \x7b", "id: 'a',", "steps: [",
  "\x7b parallel: camera_shake, intensity: 0.5 \x7d,", "...NARRATOR('x'),",
  "\x7b parallel: camera_shake, intensity: 2 \x7d,",
  "\x7b parallel: camera_shake, intensity: 2.0 \x7d,",
  "\x7b parallel: camera_shake \x7d,", "],", "\x7d;"], []⟩,
  ⟨0, 10, 0⟩, ⟨2, 9, 0⟩⟩

theorem cameraShake_keeps_firstStrongest_quake :
    quakeSite.Valid ∧ ∃ (blocks gone : List Block) (after : Site),
      stepBlocks quakeSite.buffer quakeSite.steps = .ok blocks ∧
      blocks.map (·.span) = [⟨3, 4, 0⟩, ⟨5, 6, 0⟩, ⟨6, 7, 0⟩, ⟨7, 8, 0⟩] ∧
      Pass.run 3 .cameraShake quakeSite = .ok gone.length after ∧ gone.length = 3 ∧
      gone.Sublist blocks ∧ after.buffer.lines = ["const A = \x7b", "id: 'a',", "steps: [",
        "...NARRATOR('x'),",
        "\x7b parallel: camera_shake, intensity: 2 \x7d,", "],", "\x7d;"] := by
  have valid : quakeSite.Valid :=
    ⟨Buffer.isValid_of_current rfl, Buffer.isValid_of_current rfl⟩
  have spans : blockSpans quakeSite = [⟨3, 4, 0⟩, ⟨5, 6, 0⟩, ⟨6, 7, 0⟩, ⟨7, 8, 0⟩] := by
    decide +kernel
  have left : calmed quakeSite = some (3, ["const A = \x7b", "id: 'a',", "steps: [",
      "...NARRATOR('x'),", "\x7b parallel: camera_shake, intensity: 2 \x7d,",
      "],", "\x7d;"]) := by decide +kernel
  rw [blockSpans] at spans
  split at spans
  · next blocks bounded =>
    have disjoint : (blocks.map (·.span)).Pairwise fun one other =>
        one.stop ≤ other.start ∨ other.stop ≤ one.start := by
      rw [spans]
      decide
    obtain ⟨-, gone, after, -, ran, part, -, -⟩ :=
      @cameraShake_keeps_firstStrongest 3 quakeSite blocks valid bounded
        (List.pairwise_map.mp disjoint)
    rw [calmed, ran] at left
    obtain ⟨count, lines⟩ := Prod.mk.inj (Option.some.inj left)
    exact ⟨valid, blocks, gone, after, bounded, spans, ran, count, part, lines⟩
  · cases spans

end Pass

end Stagecraft
