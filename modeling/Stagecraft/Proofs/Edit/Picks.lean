import Mathlib.Data.List.Flatten
import Stagecraft.Proofs.Edit.Passes

/-!
How a pass picks. What it picks starts on step-level lines, from top to bottom; and at steps that
have their opening and their closing line it fails to pick only where a block has no end.
-/

namespace Stagecraft

variable {reach : Int} {buffer : Buffer} {steps : Span} {spans : List Span} {pass : Pass}
  {blocks : List Block}

section Picked

theorem blockAt_start {stop line : Nat} {block : Block}
    (made : blockAt buffer stop line = .ok block) : block.span.start = line := by
  obtain ⟨close, -, made⟩ := Except.bind_ran.mp made
  cases made
  rfl

theorem map_of_mapM {α β γ : Type} {f : α → Except Fault β} {key : β → γ} {name : α → γ}
    {inputs : List α} {outputs : List β}
    (each : ∀ input output, f input = .ok output → key output = name input)
    (mapped : inputs.mapM f = .ok outputs) : outputs.map key = inputs.map name := by
  induction inputs generalizing outputs with
  | nil =>
    cases mapped
    rfl
  | cons input inputs ih =>
    rw [List.mapM_cons] at mapped
    obtain ⟨output, here, mapped⟩ := Except.bind_ran.mp mapped
    obtain ⟨others, behind, made⟩ := Except.bind_ran.mp mapped
    cases made
    rw [List.map_cons, List.map_cons, each input output here, ih behind]

theorem starts_of_stepBlocks (found : stepBlocks buffer steps = .ok blocks) :
    ∃ levels, levelsOf buffer steps = .ok levels ∧ (blocks.map (·.span.start)).Sublist levels := by
  obtain ⟨levels, leveled, mapped⟩ := Except.bind_ran.mp found
  have starts : blocks.map (·.span.start) =
      (levels.filter fun line => startsBlock (lineAt buffer line)).map id :=
    map_of_mapM (fun _ _ made => blockAt_start made) mapped
  rw [List.map_id] at starts
  refine ⟨levels, leveled, ?_⟩
  rw [starts]
  exact List.filter_sublist

theorem starts_of_directiveLines {directives : List (Nat × String)}
    (found : directiveLines buffer steps = .ok directives) :
    ∃ levels, levelsOf buffer steps = .ok levels ∧ (directives.map (·.1)).Sublist levels := by
  obtain ⟨levels, leveled, made⟩ := Except.bind_ran.mp found
  cases made
  refine ⟨levels, leveled, ?_⟩
  clear leveled found
  induction levels with
  | nil => exact .slnil
  | cons line levels ih =>
    rw [List.filterMap_cons]
    cases spreadDirective? (lineAt buffer line) with
    | none => exact ih.cons _
    | some name => exact ih.cons_cons _

theorem weakerShakes_sublist (cluster : List Block) :
    (weakerShakes cluster).Sublist (cluster.map (·.span)) := by
  rw [weakerShakes]
  split
  · exact List.nil_sublist _
  · exact (List.eraseIdx_sublist _ _).map _

theorem repeatsAfter_sublist (before : Option String) (lines : List Nat) :
    (repeatsAfter buffer before lines).Sublist lines := by
  induction lines generalizing before with
  | nil => exact .slnil
  | cons line lines ih =>
    simp only [repeatsAfter]
    split
    · exact (ih _).cons_cons _
    · exact (ih _).cons _

theorem linesNamed_sublist (name : String) (directives : List (Nat × String)) :
    (linesNamed name directives).Sublist (directives.map (·.1)) :=
  List.filter_sublist.map _

theorem starts_of_blocks (found : stepBlocks buffer steps = .ok blocks)
    (part : spans.Sublist (blocks.map (·.span))) :
    ∃ levels, levelsOf buffer steps = .ok levels ∧ (spans.map (·.start)).Sublist levels := by
  obtain ⟨levels, leveled, starts⟩ := starts_of_stepBlocks found
  have part' := part.map (·.start)
  rw [List.map_map] at part'
  exact ⟨levels, leveled, part'.trans starts⟩

theorem starts_of_directives {directives : List (Nat × String)} {lines : List Nat}
    (found : directiveLines buffer steps = .ok directives)
    (part : lines.Sublist (directives.map (·.1))) :
    ∃ levels, levelsOf buffer steps = .ok levels ∧
      ((lines.map fun line => buffer.span line (line + 1)).map (·.start)).Sublist levels := by
  obtain ⟨levels, leveled, starts⟩ := starts_of_directiveLines found
  have same : (lines.map fun line => buffer.span line (line + 1)).map (·.start) = lines := by
    rw [List.map_map]
    exact List.map_id' lines
  rw [same]
  exact ⟨levels, leveled, part.trans starts⟩

theorem flatMap_weakerShakes_sublist (reach : Int) (blocks : List Block) :
    ((shakeClusters reach blocks).flatMap weakerShakes).Sublist (blocks.map (·.span)) := by
  calc
    ((shakeClusters reach blocks).flatMap weakerShakes).Sublist
        ((shakeClusters reach blocks).flatMap (List.map (·.span))) :=
      List.Sublist.flatMap_right _ fun cluster _ => weakerShakes_sublist cluster
    _ = (blocks.filter fun block => holds block.text "camera_shake").map (·.span) := by
      rw [List.flatMap_def, ← List.map_flatten, shakeClusters, List.flatten_splitBy]
    List.Sublist _ (blocks.map (·.span)) := List.filter_sublist.map _

/-- What a pass picks starts on step-level lines, from top to bottom. -/
theorem doomed_starts (picked : pass.doomed reach buffer steps = .ok spans) :
    ∃ levels, levelsOf buffer steps = .ok levels ∧ (spans.map (·.start)).Sublist levels := by
  cases pass with
  | cameraShake =>
    obtain ⟨blocks, found, made⟩ := Except.bind_ran.mp picked
    cases made
    exact starts_of_blocks found (flatMap_weakerShakes_sublist reach blocks)
  | duplicates =>
    obtain ⟨directives, found, made⟩ := Except.bind_ran.mp picked
    cases made
    exact starts_of_directives found (repeatsAfter_sublist none _)
  | idleBlocks =>
    obtain ⟨blocks, found, made⟩ := Except.bind_ran.mp picked
    cases made
    exact starts_of_blocks found (List.filter_sublist.map _)
  | cheerBlocks =>
    obtain ⟨directives, listed, chosen⟩ := Except.bind_ran.mp picked
    split at chosen
    · cases chosen
      exact starts_of_directives listed (List.nil_sublist _)
    · obtain ⟨blocks, found, made⟩ := Except.bind_ran.mp chosen
      cases made
      exact starts_of_blocks found ((List.filter_sublist.trans (List.takeWhile_sublist _)).map _)
  | crowdCheer =>
    obtain ⟨levels, -, chosen⟩ := Except.bind_ran.mp picked
    obtain ⟨directives, found, made⟩ := Except.bind_ran.mp chosen
    cases made
    exact starts_of_directives found (List.filter_sublist.trans (linesNamed_sublist _ _))

theorem doomed_sorted (picked : pass.doomed reach buffer steps = .ok spans) :
    spans.Pairwise fun upper lower => upper.start < lower.start := by
  obtain ⟨levels, leveled, starts⟩ := doomed_starts picked
  have sorted : levels.Pairwise (· < ·) := (stepLevelLines_ok leveled).1
  exact List.pairwise_map.mp (sorted.sublist starts)

end Picked

section Faults

theorem mapM_failed {α β : Type} {f : α → Except Fault β} {inputs : List α} {fault : Fault}
    (failed : inputs.mapM f = .error fault) : ∃ input ∈ inputs, f input = .error fault := by
  induction inputs with
  | nil => cases failed
  | cons input inputs ih =>
    rw [List.mapM_cons] at failed
    rcases Except.bind_failed.mp failed with here | ⟨output, -, failed⟩
    · exact ⟨input, by simp, here⟩
    · rcases Except.bind_failed.mp failed with behind | ⟨others, -, ends⟩
      · obtain ⟨other, member, there⟩ := ih behind
        exact ⟨other, List.mem_cons_of_mem _ member, there⟩
      · cases ends

theorem blockAt_fault {stop line : Nat} {fault : Fault}
    (failed : blockAt buffer stop line = .error fault) : ∃ nesting, fault = .nesting nesting := by
  rcases Except.bind_failed.mp failed with asked | ⟨close, -, ends⟩
  · cases answer : requireClose .curly buffer.lines line stop with
    | ok close =>
      rw [answer] at asked
      cases asked
    | error nesting =>
      rw [answer] at asked
      cases asked
      exact ⟨nesting, rfl⟩
  · cases ends

/-- The steps have an opening and a closing line in the buffer. -/
structure Site.Spanned (site : Site) : Prop where
  order : site.steps.start < site.steps.stop
  inside : site.steps.stop ≤ site.buffer.lines.length

namespace Site.Spanned

variable {site : Site} {fault : Fault}

theorem levels (spanned : site.Spanned) :
    ∃ levels, levelsOf site.buffer site.steps = .ok levels := by
  have order := spanned.order
  have inside := spanned.inside
  exact stepLevelLines_defined (by omega) (by omega)

theorem directives (spanned : site.Spanned) :
    ∃ directives, directiveLines site.buffer site.steps = .ok directives := by
  obtain ⟨levels, leveled⟩ := spanned.levels
  exact ⟨_, Except.bind_ran.mpr ⟨levels, leveled, rfl⟩⟩

theorem blocks_fault {choose : List Block → List Span} (spanned : site.Spanned)
    (failed : (stepBlocks site.buffer site.steps >>= fun blocks => pure (choose blocks)) =
      .error fault) : ∃ nesting, fault = .nesting nesting := by
  obtain ⟨levels, leveled⟩ := spanned.levels
  rcases Except.bind_failed.mp failed with asked | ⟨_, -, ends⟩
  · have mapped := (Except.bind_failed_of_ok leveled).mp asked
    obtain ⟨line, -, here⟩ := mapM_failed mapped
    exact blockAt_fault here
  · cases ends

/-- A pass fails to pick only where a block has no end. -/
theorem doomed_fault (spanned : site.Spanned)
    (failed : pass.doomed reach site.buffer site.steps = .error fault) :
    ∃ nesting, fault = .nesting nesting := by
  obtain ⟨levels, leveled⟩ := spanned.levels
  obtain ⟨directives, listed⟩ := spanned.directives
  cases pass with
  | cameraShake => exact spanned.blocks_fault failed
  | duplicates => cases (Except.bind_failed_of_ok listed).mp failed
  | idleBlocks => exact spanned.blocks_fault failed
  | cheerBlocks =>
    have chosen := (Except.bind_failed_of_ok listed).mp failed
    split at chosen
    · cases chosen
    · exact spanned.blocks_fault chosen
  | crowdCheer =>
    have chosen := (Except.bind_failed_of_ok leveled).mp failed
    cases (Except.bind_failed_of_ok listed).mp chosen

theorem cut {span : Span} (spanned : site.Spanned) (inner : site.Inner span) :
    (site.cut span.start span.stop).Spanned := by
  obtain ⟨start, stop⟩ := inner.steps_cut
  obtain ⟨low, forward, high⟩ := inner
  constructor
  · rw [start, stop]
    omega
  · change Span.shiftBack _ _ _ ≤ (cutLines _ _ site.buffer.lines).length
    rw [length_cutLines forward]
    exact Span.shiftBack_mono forward spanned.inside

theorem cutEach (spanned : site.Spanned)
    (picks : pass.doomed reach site.buffer site.steps = .ok spans)
    (apart : spans.Pairwise fun upper lower => upper.stop ≤ lower.start) :
    (site.cutEach spans.reverse).Spanned := by
  have inner : ∀ span ∈ spans.reverse, site.Inner span := by
    intro span member
    exact (removable_of_doomed picks (List.mem_reverse.mp member)).bounds
  exact @kept_cutEach site spans.reverse (fun _ site => site.Spanned) []
    (fun held inner => held.cut inner) spanned inner (List.pairwise_reverse.mpr apart)

end Site.Spanned

end Faults

end Stagecraft
