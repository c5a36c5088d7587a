import Mathlib.Data.List.InsertIdx
import Stagecraft.Proofs.Edit.Passes

/-!
The passes look at nothing but the steps they work on. With other lines above and below, every pass
picks the same lines further down, fails where it failed, and leaves the same among the others.
-/

namespace Stagecraft

section Lines

variable {α : Type} {front inner back : List α} {place start stop : Nat}

theorem getElem?_embedded (inside : place < inner.length) :
    (front ++ inner ++ back)[place + front.length]? = inner[place]? := by
  rw [List.append_assoc, List.getElem?_append_right (Nat.le_add_left _ _), Nat.add_sub_cancel,
    List.getElem?_append_left inside]

theorem slice_embedded (inside : stop ≤ inner.length) :
    ((front ++ inner ++ back).take (stop + front.length)).drop (start + front.length) =
      (inner.take stop).drop start := by
  have behind : (front ++ inner ++ back).take (stop + front.length) = front ++ inner.take stop := by
    rw [Nat.add_comm, List.append_assoc, List.take_length_add_append,
      List.take_append_of_le_length inside]
  rw [behind, Nat.add_comm start, List.drop_length_add_append]

theorem cutLines_embedded (order : start ≤ stop) (inside : stop ≤ inner.length) :
    cutLines (start + front.length) (stop + front.length) (front ++ inner ++ back) =
      front ++ cutLines start stop inner ++ back := by
  have low := Nat.le_trans order inside
  rw [cutLines, cutLines, Nat.add_comm start, Nat.add_comm stop, List.append_assoc,
    List.take_length_add_append, List.drop_length_add_append, List.take_append_of_le_length low,
    List.drop_append_of_le_length inside]
  simp only [List.append_assoc]

end Lines

section Searches

variable {marks : Brackets} {front inner back : List String} {start stop opening closing : Nat}

theorem matchingClose_embedded (inside : stop ≤ inner.length) :
    matchingClose marks (front ++ inner ++ back) (start + front.length) (stop + front.length) =
      (matchingClose marks inner start stop).map (· + front.length) := by
  have further : (front.length + ·) = (· + front.length) := by
    funext line
    exact Nat.add_comm _ _
  rw [matchingClose, slice_embedded inside, Nat.add_comm start, closeFrom_add, matchingClose,
    further]

theorem stepLevelLines_embedded (low : opening < inner.length) (inside : closing ≤ inner.length) :
    stepLevelLines (front ++ inner ++ back) (opening + front.length) (closing + front.length) =
      (stepLevelLines inner opening closing).map (List.map (· + front.length)) := by
  have within : closing + front.length ≤ (front ++ inner ++ back).length := by
    simp only [List.length_append]
    omega
  have place : opening + front.length + 1 = opening + 1 + front.length := by omega
  rw [stepLevelLines, stepLevelLines, getElem?_embedded low, List.getElem?_eq_getElem low]
  simp only [within, inside, if_true]
  rw [place, slice_embedded inside, levelOneFrom_add]
  rfl

theorem splitBy_loop_map {α β : Type} {f : α → β} {joins : α → α → Bool} {joins' : β → β → Bool}
    (same : ∀ a b, joins' (f a) (f b) = joins a b) (items group : List α) (item : α)
    (groups : List (List α)) :
    List.splitBy.loop joins' (items.map f) (f item) (group.map f) (groups.map (List.map f)) =
      (List.splitBy.loop joins items item group groups).map (List.map f) := by
  induction items generalizing item group groups with
  | nil => simp [List.splitBy.loop]
  | cons next items ih =>
    rw [List.map_cons, List.splitBy.loop, List.splitBy.loop, same]
    cases joins item next with
    | true => exact ih (item :: group) next groups
    | false =>
      have rest := ih [] next ((item :: group).reverse :: groups)
      rw [List.map_cons, List.map_reverse, List.map_cons] at rest
      exact rest

/-- Grouping goes by how two neighbours relate, whatever they are called. -/
theorem splitBy_map {α β : Type} {f : α → β} {joins : α → α → Bool} {joins' : β → β → Bool}
    (same : ∀ a b, joins' (f a) (f b) = joins a b) (items : List α) :
    (items.map f).splitBy joins' = (items.splitBy joins).map (List.map f) := by
  cases items with
  | nil => rfl
  | cons item items => exact splitBy_loop_map same items [] item []

end Searches

/-- A fault as it shows with more lines above. -/
def Nesting.further (down : Nat) : Nesting → Nesting
  | unbalanced marks start stop => unbalanced marks (start + down) (stop + down)
  | noOpening id window => noOpening id window
  | neverCloses id opening => neverCloses id (opening + down)

def Fault.further (down : Nat) : Fault → Fault
  | nesting fault => nesting (fault.further down)
  | other => other

def Span.further (down revision : Nat) (span : Span) : Span :=
  ⟨span.start + down, span.stop + down, revision⟩

def Block.further (down revision : Nat) (block : Block) : Block :=
  { block with span := block.span.further down revision }

section Carried

variable {α β γ δ : Type} {down : Nat} {f : α → β} {h : γ → δ}

/-- An answer as it shows with more lines above. -/
def carried (down : Nat) (f : α → β) : Except Fault α → Except Fault β
  | .ok value => .ok (f value)
  | .error fault => .error (fault.further down)

theorem carried_bind {x : Except Fault α} {next : α → Except Fault γ} {next' : β → Except Fault δ}
    (each : ∀ value, x = .ok value → next' (f value) = carried down h (next value)) :
    carried down f x >>= next' = carried down h (x >>= next) := by
  cases x with
  | error fault => rfl
  | ok value => exact each value rfl

theorem carried_mapM {inputs : List α} {work : α → Except Fault γ} {work' : β → Except Fault δ}
    (each : ∀ input ∈ inputs, work' (f input) = carried down h (work input)) :
    (inputs.map f).mapM work' = carried down (List.map h) (inputs.mapM work) := by
  induction inputs with
  | nil => rfl
  | cons input inputs ih =>
    have rest := ih fun other member => each other (List.mem_cons_of_mem _ member)
    rw [List.map_cons, List.mapM_cons, List.mapM_cons, each input (by simp), rest]
    apply carried_bind
    intro first _
    apply carried_bind
    intro others _
    rfl

end Carried

/-- The record of a site stands by itself in the other, with lines around it. -/
structure Embedded (front back : List String) (site alone : Site) : Prop where
  lines : site.buffer.lines = front ++ alone.buffer.lines ++ back
  start : site.steps.start = alone.steps.start + front.length
  stop : site.steps.stop = alone.steps.stop + front.length
  order : alone.steps.start < alone.steps.stop
  inside : alone.steps.stop ≤ alone.buffer.lines.length

namespace Embedded

variable {front back : List String} {site alone : Site} {reach : Int} {line : Nat}
  {levels : List Nat} {directives : List (Nat × String)} {pass : Pass}

theorem closing (embedded : Embedded front back site alone) :
    site.steps.stop - 1 = alone.steps.stop - 1 + front.length := by
  have order := embedded.order
  rw [embedded.stop]
  omega

theorem lineAt_eq (embedded : Embedded front back site alone)
    (inside : line < alone.buffer.lines.length) :
    lineAt site.buffer (line + front.length) = lineAt alone.buffer line := by
  rw [lineAt, lineAt, Buffer.line?, Buffer.line?, embedded.lines, getElem?_embedded inside]

theorem levelsOf_eq (embedded : Embedded front back site alone) :
    levelsOf site.buffer site.steps =
      carried front.length (List.map (· + front.length))
        (levelsOf alone.buffer alone.steps) := by
  have order := embedded.order
  have inside := embedded.inside
  have low : alone.steps.start < alone.buffer.lines.length := by omega
  have high : alone.steps.stop - 1 ≤ alone.buffer.lines.length := by omega
  rw [levelsOf, levelsOf, embedded.lines, embedded.start, embedded.closing,
    stepLevelLines_embedded low high]
  obtain ⟨levels, known⟩ := stepLevelLines_defined low high
  rw [known]
  rfl

/-- The levels of the record by itself lie inside it. -/
theorem lt_of_levelsOf (embedded : Embedded front back site alone)
    (leveled : levelsOf alone.buffer alone.steps = .ok levels) (member : line ∈ levels) :
    line < alone.buffer.lines.length := by
  obtain ⟨-, high, -⟩ := mem_levelsOf leveled member
  have inside := embedded.inside
  omega

theorem blockAt_eq (embedded : Embedded front back site alone) (line : Nat) :
    blockAt site.buffer (site.steps.stop - 1) (line + front.length) =
      carried front.length (·.further front.length site.buffer.revision)
        (blockAt alone.buffer (alone.steps.stop - 1) line) := by
  have inside := embedded.inside
  have high : alone.steps.stop - 1 ≤ alone.buffer.lines.length := by omega
  have closes : matchingClose .curly site.buffer.lines (line + front.length)
      (site.steps.stop - 1) =
        (matchingClose .curly alone.buffer.lines line (alone.steps.stop - 1)).map
          (· + front.length) := by
    rw [embedded.lines, embedded.closing, matchingClose_embedded high]
  rw [blockAt, blockAt, requireClose, requireClose, closes]
  cases asked : matchingClose .curly alone.buffer.lines line (alone.steps.stop - 1) with
  | none =>
    rw [embedded.closing]
    simp only [Option.map_none, liftFault, bind, Except.bind, carried, Fault.further,
      Nesting.further]
    push_cast
    rfl
  | some close =>
    have bounds := matchingClose_bounds asked
    have place : close + front.length + 1 = close + 1 + front.length := by omega
    have text : site.buffer.spanText (site.buffer.span (line + front.length)
        (close + 1 + front.length)) =
          alone.buffer.spanText (alone.buffer.span line (close + 1)) := by
      have within : close + 1 ≤ alone.buffer.lines.length := by omega
      rw [Buffer.spanText, Buffer.spanText, Buffer.spanLines, Buffer.spanLines, Buffer.span,
        Buffer.span, embedded.lines, slice_embedded within]
    simp only [Option.map_some, liftFault, bind, Except.bind, pure, Except.pure, carried, place,
      text]
    rfl

theorem stepBlocks_eq (embedded : Embedded front back site alone) :
    stepBlocks site.buffer site.steps =
      carried front.length (List.map (·.further front.length site.buffer.revision))
        (stepBlocks alone.buffer alone.steps) := by
  rw [stepBlocks, stepBlocks, embedded.levelsOf_eq]
  apply carried_bind
  intro levels leveled
  have starts : (levels.map (· + front.length)).filter
      (fun line => startsBlock (lineAt site.buffer line)) =
        (levels.filter fun line => startsBlock (lineAt alone.buffer line)).map
          (· + front.length) := by
    have same : levels.filter
        ((fun line => startsBlock (lineAt site.buffer line)) ∘ (· + front.length)) =
          levels.filter fun line => startsBlock (lineAt alone.buffer line) := by
      apply List.filter_congr
      intro line member
      simp only [Function.comp, embedded.lineAt_eq (embedded.lt_of_levelsOf leveled member)]
    rw [List.filter_map, same]
  rw [starts]
  apply carried_mapM
  intro line _
  exact embedded.blockAt_eq line

theorem directiveLines_eq (embedded : Embedded front back site alone) :
    directiveLines site.buffer site.steps =
      carried front.length (List.map fun (line, name) => (line + front.length, name))
        (directiveLines alone.buffer alone.steps) := by
  rw [directiveLines, directiveLines, embedded.levelsOf_eq]
  apply carried_bind
  intro levels leveled
  simp only [pure, Except.pure, carried]
  congr 1
  rw [List.filterMap_map, List.map_filterMap]
  apply List.filterMap_congr
  intro line member
  simp only [Function.comp, embedded.lineAt_eq (embedded.lt_of_levelsOf leveled member),
    Option.map_map]
  rfl

theorem lt_of_directiveLines (embedded : Embedded front back site alone) {name : String}
    (found : directiveLines alone.buffer alone.steps = .ok directives)
    (member : (line, name) ∈ directives) : line < alone.buffer.lines.length := by
  have bounds := (removable_of_directiveLines found member).bounds
  have inside := embedded.inside
  simp only [Buffer.span] at bounds
  omega

section Blocks

variable {blocks cluster : List Block} {down revision : Nat}

theorem gapBetween_further (before after : Block) :
    gapBetween (before.further down revision) (after.further down revision) =
      gapBetween before after := by
  simp only [gapBetween, Block.further, Span.further]
  omega

theorem weakerShakes_further :
    weakerShakes (cluster.map (·.further down revision)) =
      (weakerShakes cluster).map (·.further down revision) := by
  have strength : (Block.intensity ∘ fun block => block.further down revision) =
      Block.intensity := rfl
  rw [weakerShakes, weakerShakes, List.length_map]
  split
  · rfl
  · simp only [List.map_map, strength, List.findIdx_map, List.eraseIdx_map]
    rfl

theorem shakeClusters_further :
    shakeClusters reach (blocks.map (·.further down revision)) =
      (shakeClusters reach blocks).map (List.map (·.further down revision)) := by
  rw [shakeClusters, shakeClusters, List.filter_map]
  apply splitBy_map
  intro before after
  rw [gapBetween_further]

end Blocks

theorem excessShakes_eq (embedded : Embedded front back site alone) :
    excessShakes reach site.buffer site.steps =
      carried front.length (List.map (·.further front.length site.buffer.revision))
        (excessShakes reach alone.buffer alone.steps) := by
  rw [excessShakes, excessShakes, embedded.stepBlocks_eq]
  apply carried_bind
  intro blocks _
  simp only [pure, Except.pure, carried]
  rw [shakeClusters_further, List.flatMap_map, List.map_flatMap]
  simp only [weakerShakes_further]

theorem repeatsAfter_eq (embedded : Embedded front back site alone) {lines : List Nat}
    (inside : ∀ line ∈ lines, line < alone.buffer.lines.length) (before : Option String) :
    repeatsAfter site.buffer before (lines.map (· + front.length)) =
      (repeatsAfter alone.buffer before lines).map (· + front.length) := by
  induction lines generalizing before with
  | nil => rfl
  | cons line rest ih =>
    have others := ih fun other member => inside other (List.mem_cons_of_mem _ member)
    rw [List.map_cons, repeatsAfter, repeatsAfter, embedded.lineAt_eq (inside line (by simp))]
    simp only [others]
    split <;> rfl

theorem repeatedDirectives_eq (embedded : Embedded front back site alone) :
    repeatedDirectives site.buffer site.steps =
      carried front.length (List.map (·.further front.length site.buffer.revision))
        (repeatedDirectives alone.buffer alone.steps) := by
  rw [repeatedDirectives, repeatedDirectives, embedded.directiveLines_eq]
  apply carried_bind
  intro directives found
  have lines : (directives.map fun (line, name) => (line + front.length, name)).map (·.1) =
      (directives.map (·.1)).map (· + front.length) := by
    rw [List.map_map, List.map_map]
    rfl
  have inside : ∀ line ∈ directives.map (·.1), line < alone.buffer.lines.length := by
    intro line member
    obtain ⟨⟨other, name⟩, present, rfl⟩ := List.mem_map.mp member
    exact embedded.lt_of_directiveLines found present
  simp only [pure, Except.pure, carried]
  rw [lines, embedded.repeatsAfter_eq inside, List.map_map, List.map_map]
  congr 1
  apply List.map_congr_left
  intro line _
  simp only [Function.comp, Span.further, Buffer.span, Nat.add_right_comm]

theorem idleOnly_eq (embedded : Embedded front back site alone) :
    idleOnly site.buffer site.steps =
      carried front.length (List.map (·.further front.length site.buffer.revision))
        (idleOnly alone.buffer alone.steps) := by
  rw [idleOnly, idleOnly, embedded.stepBlocks_eq]
  apply carried_bind
  intro blocks _
  simp only [pure, Except.pure, carried]
  rw [List.filter_map, List.map_map, List.map_map]
  rfl

theorem linesNamed_further (name : String) (directives : List (Nat × String)) (down : Nat) :
    linesNamed name (directives.map fun (line, name) => (line + down, name)) =
      (linesNamed name directives).map (· + down) := by
  rw [linesNamed, linesNamed, List.filter_map, List.map_map, List.map_map]
  rfl

theorem earlyCheers_eq (embedded : Embedded front back site alone) :
    earlyCheers site.buffer site.steps =
      carried front.length (List.map (·.further front.length site.buffer.revision))
        (earlyCheers alone.buffer alone.steps) := by
  rw [earlyCheers, earlyCheers, embedded.directiveLines_eq]
  apply carried_bind
  intro directives _
  rw [linesNamed_further]
  cases linesNamed "CELEBRATION" directives with
  | nil => rfl
  | cons first _ =>
    simp only [List.map_cons]
    rw [embedded.stepBlocks_eq]
    apply carried_bind
    intro blocks _
    have above (block : Block) :
        decide ((block.further front.length site.buffer.revision).span.start <
          first + front.length) = decide (block.span.start < first) := by
      simp only [Block.further, Span.further, Nat.add_lt_add_iff_right]
    simp only [pure, Except.pure, carried]
    rw [List.takeWhile_map, List.filter_map, List.map_map, List.map_map]
    simp only [Function.comp_def, above]
    rfl

theorem followsCelebration_eq (embedded : Embedded front back site alone) {opening line : Nat}
    (inside : line ≤ alone.buffer.lines.length) :
    followsCelebration site.buffer (levels.map (· + front.length)) (opening + front.length)
        (line + front.length) =
      followsCelebration alone.buffer levels opening line := by
  induction line with
  | zero =>
    rw [followsCelebration, Nat.zero_add]
    cases front.length with
    | zero => rfl
    | succ down =>
      rw [followsCelebration, if_pos (by omega)]
  | succ line ih =>
    have place : line + 1 + front.length = line + front.length + 1 := by omega
    have member : line + front.length ∈ levels.map (· + front.length) ↔ line ∈ levels := by
      simp
    rw [place, followsCelebration, followsCelebration, embedded.lineAt_eq (by omega),
      ih (by omega)]
    simp only [Nat.add_le_add_iff_right, member]

theorem lateCrowdCheers_eq (embedded : Embedded front back site alone) :
    lateCrowdCheers site.buffer site.steps =
      carried front.length (List.map (·.further front.length site.buffer.revision))
        (lateCrowdCheers alone.buffer alone.steps) := by
  rw [lateCrowdCheers, lateCrowdCheers, embedded.levelsOf_eq]
  apply carried_bind
  intro levels _
  rw [embedded.directiveLines_eq]
  apply carried_bind
  intro directives found
  simp only [pure, Except.pure, carried]
  rw [linesNamed_further, List.filter_map, embedded.start, List.map_map, List.map_map]
  have follows : (linesNamed "CROWD_CHEER" directives).filter
      (followsCelebration site.buffer (levels.map (· + front.length))
        (alone.steps.start + front.length) ∘ (· + front.length)) =
      (linesNamed "CROWD_CHEER" directives).filter
        (followsCelebration alone.buffer levels alone.steps.start) := by
    apply List.filter_congr
    intro line member
    obtain ⟨name, present⟩ := mem_linesNamed member
    have inside := embedded.lt_of_directiveLines found present
    exact embedded.followsCelebration_eq (Nat.le_of_lt inside)
  rw [follows]
  congr 1
  apply List.map_congr_left
  intro line _
  simp only [Function.comp, Span.further, Buffer.span, Nat.add_right_comm]

/-- Every pass picks the same lines further down, or fails by the same fault. -/
theorem doomed_eq (embedded : Embedded front back site alone) (pass : Pass) :
    pass.doomed reach site.buffer site.steps =
      carried front.length (List.map (·.further front.length site.buffer.revision))
        (pass.doomed reach alone.buffer alone.steps) := by
  cases pass with
  | cameraShake => exact embedded.excessShakes_eq
  | duplicates => exact embedded.repeatedDirectives_eq
  | idleBlocks => exact embedded.idleOnly_eq
  | cheerBlocks => exact embedded.earlyCheers_eq
  | crowdCheer => exact embedded.lateCrowdCheers_eq

section Run

variable {span : Span} {spans : List Span} {passes : List Pass}
  {taken : List (Pass × List Span)} {after : Site}

theorem shiftBack_add (start stop position down : Nat) :
    Span.shiftBack (start + down) (stop + down) (position + down) =
      Span.shiftBack start stop position + down := by
  simp only [Span.shiftBack, Nat.add_le_add_iff_right, Nat.add_lt_add_iff_right]
  split
  · omega
  · split <;> rfl

/-- The same lines go on both sides. -/
theorem cut (embedded : Embedded front back site alone) (inner : alone.Inner span) :
    Embedded front back (site.cut (span.start + front.length) (span.stop + front.length))
      (alone.cut span.start span.stop) := by
  obtain ⟨lines, start, stop, order, inside⟩ := embedded
  obtain ⟨low, forward, high⟩ := inner
  constructor
  · change cutLines _ _ site.buffer.lines = front ++ cutLines _ _ alone.buffer.lines ++ back
    rw [lines, cutLines_embedded (Nat.le_of_lt forward) (by omega)]
  · change Span.shiftBack _ _ _ = Span.shiftBack _ _ _ + _
    rw [start, shiftBack_add]
  · change Span.shiftBack _ _ _ = Span.shiftBack _ _ _ + _
    rw [stop, shiftBack_add]
  · change Span.shiftBack _ _ _ < Span.shiftBack _ _ _
    rw [Span.shiftBack_of_le forward (Nat.le_of_lt low), Span.shiftBack, if_pos (by omega)]
    omega
  · change Span.shiftBack _ _ _ ≤ (cutLines _ _ alone.buffer.lines).length
    rw [length_cutLines forward]
    exact Span.shiftBack_mono forward inside

theorem cutEach (embedded : Embedded front back site alone) (revision : Nat)
    (inner : ∀ span ∈ spans, alone.Inner span)
    (apart : spans.Pairwise fun lower upper => upper.stop ≤ lower.start) :
    Embedded front back
      (site.cutEach (spans.map (·.further front.length revision))) (alone.cutEach spans) := by
  induction spans generalizing site alone with
  | nil => exact embedded
  | cons span spans ih =>
    obtain ⟨above, apart⟩ := List.pairwise_cons.mp apart
    have here := inner span (by simp)
    have inner' : ∀ other ∈ spans, (alone.cut span.start span.stop).Inner other := by
      intro other member
      exact here.above (inner other (List.mem_cons_of_mem _ member)) (above other member)
    exact ih (embedded.cut here) inner' apart

/-- The passes do at a record among others what they do at the record by itself. -/
theorem passes_alone (embedded : Embedded front back site alone)
    (ran : Passes reach passes site taken after) :
    ∃ own last, Passes reach passes alone own last ∧ countsOf taken = countsOf own ∧
      Embedded front back after last := by
  induction ran generalizing alone with
  | @done site => exact ⟨[], alone, .done, rfl, embedded⟩
  | @stops pass passes site fault fails =>
    rw [embedded.doomed_eq] at fails
    cases picked : pass.doomed reach alone.buffer alone.steps with
    | ok spans =>
      rw [picked] at fails
      cases fails
    | error other =>
      rw [picked, carried, Except.error.injEq] at fails
      cases other with
      | nesting own => exact ⟨[], alone, .stops picked, rfl, embedded⟩
      | _ => cases fails
  | @takes pass passes site after spans taken picks apart _ ih =>
    rw [embedded.doomed_eq] at picks
    cases picked : pass.doomed reach alone.buffer alone.steps with
    | error fault =>
      rw [picked] at picks
      cases picks
    | ok own =>
      rw [picked, carried, Except.ok.injEq] at picks
      subst picks
      have apart' : own.Pairwise fun upper lower => upper.stop ≤ lower.start := by
        rw [List.pairwise_map] at apart
        exact apart.imp fun order => Nat.le_of_add_le_add_right order
      have inner : ∀ span ∈ own.reverse, alone.Inner span := by
        intro span member
        exact (removable_of_doomed picked (List.mem_reverse.mp member)).bounds
      have next := embedded.cutEach site.buffer.revision inner
        (List.pairwise_reverse.mpr apart')
      rw [List.map_reverse] at next
      obtain ⟨others, last, rest, counts, ends⟩ := ih next
      refine ⟨(pass, own) :: others, last, .takes picked apart' rest, ?_, ends⟩
      simp only [countsOf, List.map_cons, List.length_map] at counts ⊢
      rw [counts]

/-- The passes do at a record by itself what they do at it among others. -/
theorem passes_among {own : List (Pass × List Span)} {last : Site}
    (embedded : Embedded front back site alone) (ran : Passes reach passes alone own last) :
    ∃ taken after, Passes reach passes site taken after ∧
      (cutsOf taken).map (·.start) = (cutsOf own).map (·.start + front.length) ∧
      Embedded front back after last := by
  induction ran generalizing site with
  | done => exact ⟨[], site, .done, rfl, embedded⟩
  | @stops pass passes alone fault fails =>
    have fails' : pass.doomed reach site.buffer site.steps =
        .error (.nesting (fault.further front.length)) := by
      rw [embedded.doomed_eq, fails]
      rfl
    exact ⟨[], site, .stops fails', rfl, embedded⟩
  | @takes pass passes alone last own rest picks apart _ ih =>
    let spans := own.map (·.further front.length site.buffer.revision)
    have picks' : pass.doomed reach site.buffer site.steps = .ok spans := by
      rw [embedded.doomed_eq, picks]
      rfl
    have apart' : spans.Pairwise fun upper lower => upper.stop ≤ lower.start := by
      apply List.pairwise_map.mpr
      exact apart.imp fun order => Nat.add_le_add_right order _
    have inner : ∀ span ∈ own.reverse, alone.Inner span := by
      intro span member
      exact (removable_of_doomed picks (List.mem_reverse.mp member)).bounds
    have next := embedded.cutEach site.buffer.revision inner (List.pairwise_reverse.mpr apart)
    rw [List.map_reverse] at next
    obtain ⟨taken, after, ran, starts, ends⟩ := ih next
    refine ⟨(pass, spans) :: taken, after, .takes picks' apart' ran, ?_, ends⟩
    have here : spans.reverse.map (·.start) = own.reverse.map (·.start + front.length) := by
      rw [← List.map_reverse, List.map_map]
      rfl
    rw [cutsOf_cons, cutsOf_cons, List.map_append, List.map_append, here, starts]

end Run

end Embedded

end Stagecraft
