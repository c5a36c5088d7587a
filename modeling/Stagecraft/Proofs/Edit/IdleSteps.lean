import Stagecraft.Proofs.Edit.Idling
import Stagecraft.Proofs.Edit.Stale

/-!
Removing idle blocks from a record that is laid out in paragraphs. Only whole paragraphs go, each
the text of a block that the pass takes for idle. Where the blocks are written out, the elements
that the record loses are steps that only idle; a pass that knows the actions of a block by a list
of words takes a step for idle that has any other kind of action.
-/

namespace Stagecraft

variable {reach : Int} {buffer : Buffer} {site after : Site} {steps span : Span} {count : Nat}
  {location : Location} {layout : Layout} {above below paragraph : List String}
  {paragraphs : List (List String)} {goes : List String → Prop} {block : Block}
  {blocks : List Block} {vignette : Vignette}

theorem block_of_stepBlocks (found : stepBlocks buffer steps = .ok blocks)
    (member : block ∈ blocks) :
    startsBlock (lineAt buffer block.span.start) = true ∧
      block.text = buffer.spanText block.span := by
  obtain ⟨levels, -, mapped⟩ := Except.bind_ran.mp found
  obtain ⟨line, present, made⟩ := Except.mem_mapM mapped member
  obtain ⟨-, starts⟩ := List.mem_filter.mp present
  obtain ⟨close, -, made⟩ := Except.bind_ran.mp made
  cases made
  exact ⟨starts, rfl⟩

section Thinning

/-- The record stands with some of its paragraphs, and those that went are of this kind. -/
structure Thinned (goes : List String → Prop) (above below : List String) (layout : Layout)
    (paragraphs : List (List String)) (site : Site) : Prop where
  standing : Standing above below layout paragraphs site
  starts : site.record.start = above.length
  stops : site.record.stop = above.length + (layout.keeping paragraphs).lines.length
  taken : ∃ taken, Woven paragraphs taken layout.paragraphs ∧ ∀ paragraph ∈ taken, goes paragraph

/-- The span is that of a paragraph of this kind. -/
def SpansSome (goes : List String → Prop) (base : Nat) (paragraphs : List (List String))
    (span : Span) : Prop :=
  ∃ before paragraph after, goes paragraph ∧ paragraphs = before ++ paragraph :: after ∧
    span.start = base + before.flatten.length ∧ span.stop = span.start + paragraph.length

theorem Thinned.cut (thinned : Thinned goes above below layout paragraphs site)
    (spans : SpansSome goes (above ++ layout.head).length paragraphs span)
    (order : span.start < span.stop) :
    ∃ paragraphs', Thinned goes above below layout paragraphs' (site.cut span.start span.stop) ∧
      ∀ other : Span, other.stop ≤ span.start →
        SpansSome goes (above ++ layout.head).length paragraphs other →
        SpansSome goes (above ++ layout.head).length paragraphs' other := by
  obtain ⟨before, paragraph, after, kind, rfl, start, stop⟩ := spans
  obtain ⟨standing, starts, stops, taken, woven, kinds⟩ := thinned
  refine ⟨before ++ after, ⟨standing.without start stop order, ?_, ?_, ?_⟩, ?_⟩
  · have kept : (site.cut span.start span.stop).record.start = site.record.start :=
      Span.shiftBack_of_le order (by rw [starts, start, List.length_append]; omega)
    rw [kept, starts]
  · simp only [Layout.keeping, Layout.lines, List.flatten_append, List.flatten_cons,
      List.length_append] at stops start ⊢
    have moved : (site.cut span.start span.stop).record.stop =
        site.record.stop - (span.stop - span.start) :=
      if_pos (by omega)
    omega
  · obtain ⟨first, second, rfl, woven'⟩ := woven.take
    refine ⟨_, woven', ?_⟩
    intro other member
    rcases List.mem_append.mp member with early | late
    · exact kinds other (List.mem_append_left _ early)
    · rcases List.mem_cons.mp late with rfl | late
      · exact kind
      · exact kinds other (List.mem_append_right _ late)
  · rintro other early ⟨before', paragraph', after', kind', split, start', stop'⟩
    obtain ⟨more, rfl⟩ := exists_paragraphs_above split (by omega) (by omega)
    exact ⟨before', paragraph', more ++ after, kind', List.append_assoc .., start', stop'⟩

theorem Thinned.spanLines (thinned : Thinned goes above below layout paragraphs site) :
    site.buffer.spanLines site.record = (layout.keeping paragraphs).lines := by
  have lines : site.buffer.lines = above ++ (layout.keeping paragraphs).lines ++ below := by
    rw [thinned.standing.lines, Layout.lines]
    simp only [Layout.keeping, List.append_assoc]
  rw [Buffer.spanLines, lines, thinned.stops, thinned.starts, ← List.length_append, List.take_left,
    List.drop_left]

/-- A record as it is laid out has lost nothing yet. -/
theorem InParagraphs.thinned (laid : InParagraphs buffer location layout)
    (start : above.length = location.record.start)
    (lines : buffer.lines = above ++ layout.lines ++ below)
    (stop : location.record.stop = above.length + layout.lines.length)
    (stepped : location.steps = some steps) :
    Thinned goes above below layout layout.paragraphs ⟨buffer, location.record, steps⟩ :=
  ⟨laid.standing start lines stepped, start.symm, stop, [], .refl _, by simp⟩

end Thinning

section Pass

/-- A pass takes the block with this text for a step that only idles. -/
def SeemsIdle (paragraph : List String) : Prop :=
  startsBlock (paragraph.headD "") = true ∧ ∃ block : Block, block.text = join "\n" paragraph ∧
    block.showsOnly idleAnim = true ∧ block.isBusy = false

theorem spansSome_of_idle (standing : Standing above below layout paragraphs site)
    (opens : layout.head.getLast?.map (lineDelta .square) = some 1)
    (solid : ∀ paragraph ∈ layout.paragraphs, Solid paragraph)
    (found : stepBlocks site.buffer site.steps = .ok blocks) (member : block ∈ blocks)
    (shows : block.showsOnly idleAnim = true) (idle : block.isBusy = false) :
    SpansSome SeemsIdle (above ++ layout.head).length paragraphs block.span := by
  have removable := removable_of_stepBlocks found member
  obtain ⟨-, order, -⟩ := removable.bounds
  obtain ⟨before, paragraph, after, rfl, start, stop⟩ := standing.fits opens solid removable
  obtain ⟨starts, text⟩ := block_of_stepBlocks found member
  have front : block.span.start = (above ++ layout.head ++ before.flatten).length := by
    rw [start, ← List.length_append]
  have inside : site.buffer.spanLines block.span = paragraph := by
    rw [Buffer.spanLines, standing.lines_around, stop, front, ← List.length_append, List.take_left,
      List.drop_left]
  have first : lineAt site.buffer block.span.start = paragraph.headD "" := by
    obtain ⟨line, rest, rfl⟩ := List.exists_cons_of_length_pos (show 0 < paragraph.length by omega)
    rw [lineAt, Buffer.line?, standing.lines_around, front, List.append_assoc,
      List.getElem?_append_right (Nat.le_refl _), Nat.sub_self]
    rfl
  refine ⟨before, paragraph, after, ⟨first ▸ starts, block, ?_, shows, idle⟩, rfl, start, stop⟩
  rw [text, Buffer.spanText, inside]

/-- The pass takes nothing but paragraphs that seem to idle. -/
theorem idleBlocks_thinned (opens : layout.head.getLast?.map (lineDelta .square) = some 1)
    (solid : ∀ paragraph ∈ layout.paragraphs, Solid paragraph)
    (thinned : Thinned SeemsIdle above below layout paragraphs site)
    (ran : Pass.idleBlocks.run reach site = .ok count after) :
    ∃ fewer, Thinned SeemsIdle above below layout fewer after := by
  obtain ⟨spans, picked, removes⟩ := Work.ofExcept_bind_ran.mp (get_bind_ran.mp ran)
  obtain ⟨_, place, removed, ends⟩ := bind_ran.mp removes
  obtain ⟨-, rfl⟩ := pure_ran.mp ends
  refine removeEach_keeps (fun held fits order => held.cut fits order) thinned ?_ ?_ removed
  · intro span member
    exact Nat.le_of_eq (removable_of_doomed picked (List.mem_reverse.mp member)).current
  · intro span member _
    obtain ⟨blocks, found, made⟩ := Except.bind_ran.mp picked
    cases made
    obtain ⟨block, present, rfl⟩ := List.mem_map.mp (List.mem_reverse.mp member)
    obtain ⟨present, seems⟩ := List.mem_filter.mp present
    obtain ⟨shows, idle⟩ := Bool.and_eq_true_iff.mp seems
    exact spansSome_of_idle thinned.standing opens solid found present shows
      (Bool.not_eq_true' _ ▸ idle)

end Pass

/-- The element of a paragraph that has one. -/
def onlyElement? (paragraph : List String) : Option Value :=
  match lastElements? paragraph with
  | some [element] => some element
  | _ => none

theorem lastElements?_of_onlyElement? {element : Value}
    (only : onlyElement? paragraph = some element) :
    lastElements? paragraph = some [element] := by
  rw [onlyElement?] at only
  split at only
  · next element' elements =>
    cases only
    exact elements
  · cases only

/-- The steps on these lines that a pass may take are written out, each by itself. -/
def StepsWrittenOut (paragraphs : List (List String)) : Prop :=
  ∀ paragraph ∈ paragraphs, startsBlock (paragraph.headD "") = true →
    ∃ element ∈ onlyElement? paragraph, WrittenOut paragraph element

instance : DecidablePred StepsWrittenOut := fun paragraphs =>
  inferInstanceAs (Decidable (∀ paragraph ∈ paragraphs, startsBlock (paragraph.headD "") = true →
    ∃ element ∈ onlyElement? paragraph, WrittenOut paragraph element))

theorem isIdle_of_ownElements {taken : List (List String)} (written : StepsWrittenOut taken)
    (seem : ∀ paragraph ∈ taken, SeemsIdle paragraph) :
    ∀ element ∈ ownElements taken, IsIdle element := by
  intro element member
  obtain ⟨paragraph, present, own⟩ := List.mem_flatMap.mp member
  obtain ⟨starts, block, text, shows, idle⟩ := seem paragraph present
  obtain ⟨only, here, written⟩ := written paragraph present starts
  have elements := lastElements?_of_onlyElement? here
  rw [elements, Option.getD_some, List.mem_singleton] at own
  exact isIdle_of_block text (own ▸ elements) (own ▸ written) shows idle

/-- Where the blocks of a record are written out, the elements that its steps lose to the removal of
idle blocks are steps that only idle. The others stay, in their order. -/
theorem idleBlocks_isIdle {id : String} (located : locate buffer id = .ok (some location))
    (stepped : location.steps = some steps) (laid : LaidOut buffer location layout)
    (written : StepsWrittenOut layout.paragraphs)
    (read : readRecord buffer location = .ok vignette)
    (ran : Pass.idleBlocks.run reach ⟨buffer, location.record, steps⟩ = .ok count after) :
    ∃ elements elements' lost, stepElements buffer location = .ok elements ∧
      stepElements after.buffer { location with record := after.record } = .ok elements' ∧
      Woven elements' lost elements ∧ ∀ element ∈ lost, IsIdle element := by
  obtain ⟨value, reads, -⟩ := readRecord_iff.mp read
  have sited := sited_of_locate located stepped
  have valid := sited.siteValid reads.1
  obtain ⟨low, order, high, inside⟩ := sited.order
  have inside' : location.record.start ≤ location.record.stop := by omega
  -- the lines of the file around the record
  have start : (buffer.lines.take location.record.start).length = location.record.start :=
    List.length_take_of_le (Nat.le_trans inside' inside)
  have lines := ((Trail.refl buffer).lines_around sited.current inside' reads.1).1
  rw [laid.lines] at lines
  have stop : location.record.stop =
      (buffer.lines.take location.record.start).length + layout.lines.length := by
    rw [start, ← laid.lines, length_spanLines inside, Nat.add_sub_of_le inside']
  obtain ⟨fewer, thinned⟩ := idleBlocks_thinned laid.opens laid.solid
    (laid.inParagraphs.thinned start lines stop sited.stepped) ran
  obtain ⟨taken, woven, seem⟩ := thinned.taken
  -- what is left of the record is read, without the elements of what was taken
  obtain ⟨values, elements⟩ := Option.isSome_iff_exists.mp laid.readable.elements
  obtain ⟨values', elements', lost⟩ := paragraphElements?_woven woven elements
  have text := reads.2
  rw [Buffer.spanText, laid.lines] at text
  obtain ⟨value', text', agree⟩ := Layout.read_keeping laid.readable elements elements' text
  have reads' : RecordReads after.buffer { location with record := after.record } value' := by
    obtain ⟨spans, -, -, -, rfl⟩ := (Pass.run_ran_iff valid).mp ran
    refine ⟨(valid.cutEach spans.reverse).1, ?_⟩
    rwa [Buffer.spanText, thinned.spanLines]
  have written' : StepsWrittenOut taken :=
    fun paragraph member => written paragraph (woven.mem_of_added member)
  have read := stepElements_iff.mpr ⟨value, reads, rfl⟩
  have read' := stepElements_iff.mpr ⟨value', reads', rfl⟩
  rcases agree.elements_cases with same | ⟨first, second⟩
  · rw [same] at read'
    exact ⟨_, _, [], read, read', .refl _, by simp⟩
  · rw [first] at read
    rw [second] at read'
    exact ⟨_, _, _, read, read', lost, isIdle_of_ownElements written' seem⟩

def waitingScene : Buffer := ⟨["const A = \x7b", "id: 'a',", "steps: [",
  "\x7b parallel: [\x7b action: 'animate', anim: \"Idle_A\" \x7d] \x7d,", "...NARRATOR('x'),",
  "],", "\x7d;"], []⟩

def waitingLocation : Location := ⟨"a", 1, ⟨0, 7, 0⟩, some ⟨2, 6, 0⟩⟩

def waitingLayout : Layout where
  head := ["const A = \x7b", "id: 'a',", "steps: ["]
  paragraphs := [["\x7b parallel: [\x7b action: 'animate', anim: \"Idle_A\" \x7d] \x7d,"],
    ["...NARRATOR('x'),"]]
  tail := ["],", "\x7d;"]

theorem laidOut_waitingScene : LaidOut waitingScene waitingLocation waitingLayout where
  readable := ⟨by decide +kernel, by decide +kernel, by decide +kernel⟩
  opens := by decide +kernel
  solid := by decide +kernel
  lines := by decide +kernel
  steps := by decide +kernel

/-- The removal of idle blocks where it gets through. -/
def idleRun? (site : Site) : Option (Nat × Site) :=
  match Pass.idleBlocks.run defaultReach site with
  | .ok count after => some (count, after)
  | .error _ _ => none

theorem run_of_idleRun? (ran : idleRun? site = some (count, after)) :
    Pass.idleBlocks.run defaultReach site = .ok count after := by
  rw [idleRun?] at ran
  split at ran
  · next run =>
    cases ran
    exact run
  · cases ran

/-- A step that only idles goes, and the speech behind it stays. -/
theorem idleBlocks_isIdle_waiting : ∃ after elements elements' lost,
    Pass.idleBlocks.run defaultReach ⟨waitingScene, waitingLocation.record, ⟨2, 6, 0⟩⟩ =
      .ok 1 after ∧
    stepElements waitingScene waitingLocation = .ok elements ∧
    stepElements after.buffer { waitingLocation with record := after.record } = .ok elements' ∧
    Woven elements' lost elements ∧ ∀ element ∈ lost, IsIdle element := by
  obtain ⟨⟨_, after⟩, found, rfl⟩ := Option.map_eq_some_iff.mp (show
    (idleRun? ⟨waitingScene, waitingLocation.record, ⟨2, 6, 0⟩⟩).map (·.1) = some 1 by
      decide +kernel)
  have ran := run_of_idleRun? found
  obtain ⟨vignette, read⟩ := read_isOk (show
    (readRecord waitingScene waitingLocation).isOk = true by rw [readRecord_eq]; decide +kernel)
  have located : locate waitingScene "a" = .ok (some waitingLocation) := by decide +kernel
  have written : StepsWrittenOut waitingLayout.paragraphs := by decide +kernel
  obtain ⟨elements, elements', lost, before, behind, woven, idle⟩ :=
    idleBlocks_isIdle located rfl laidOut_waitingScene written read ran
  exact ⟨after, elements, elements', lost, ran, before, behind, woven, idle⟩

def boomScene : Buffer := ⟨["const A = \x7b", "id: 'a',", "steps: [",
  "\x7b parallel: [\x7b action: 'animate', anim: 'Idle_A' \x7d, " ++
    "\x7b action: 'sfx', sound: 'boom' \x7d] \x7d,", "...NARRATOR('x'),", "],", "\x7d;"], []⟩

def boomLocation : Location := ⟨"a", 1, ⟨0, 7, 0⟩, some ⟨2, 6, 0⟩⟩

/-- A step with a sound is taken for one that only idles. -/
theorem idleBlocks_takes_sound : locate boomScene "a" = .ok (some boomLocation) ∧
    (readRecord boomScene boomLocation).isOk = true ∧
    ∃ after elements elements',
      Pass.idleBlocks.run defaultReach ⟨boomScene, boomLocation.record, ⟨2, 6, 0⟩⟩ =
        .ok 1 after ∧
      stepElements boomScene boomLocation = .ok elements ∧
      stepElements after.buffer { boomLocation with record := after.record } = .ok elements' ∧
      elements'.length < elements.length ∧ ∀ element ∈ elements, ¬ IsIdle element := by
  have counted : (idleRun? ⟨boomScene, boomLocation.record, ⟨2, 6, 0⟩⟩).map (fun (count, after) =>
      (count, (stepElements after.buffer { boomLocation with record := after.record }).toOption.map
        (·.length))) = some (1, some 1) := by
    simp only [stepElements_eq]
    decide +kernel
  have ⟨readable, busy⟩ : (readRecord boomScene boomLocation).isOk = true ∧
      (stepElements boomScene boomLocation).toOption.map (fun elements =>
        decide (elements.length = 2 ∧ ∀ element ∈ elements, ¬ IsIdle element)) = some true := by
    rw [readRecord_eq, stepElements_eq]
    decide +kernel
  obtain ⟨⟨_, after⟩, found, same⟩ := Option.map_eq_some_iff.mp counted
  obtain ⟨rfl, left⟩ := Prod.mk.inj same
  obtain ⟨elements', answer', one⟩ := Option.map_eq_some_iff.mp left
  obtain ⟨elements, answer, busy⟩ := Option.map_eq_some_iff.mp busy
  obtain ⟨two, busy⟩ := of_decide_eq_true busy
  refine ⟨by decide +kernel, readable, after, elements, elements', run_of_idleRun? found,
    Except.ok_of_toOption answer, Except.ok_of_toOption answer', ?_, busy⟩
  omega

end Stagecraft
