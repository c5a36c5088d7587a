import Stagecraft.Proofs.Record.Growth

/-!
A record with steps as four lines: where the record opens and closes, and where its steps do. New
lines that no search stops at and no depth counts push the four lines down and do nothing else; as
the searches look only so far, a record can be lost by them, but none is found that was not there.
-/

namespace Stagecraft

structure Extent where
  first : Nat
  last : Nat
  opening : Nat
  closing : Nat
  deriving DecidableEq, Repr

/-- No search for a record or its steps stops at the line, and no depth changes behind it. -/
structure Quiet (line : String) : Prop where
  closed : opensRecord line = false
  plain : opensSteps line = false
  square : lineDelta .square line = 0
  curly : lineDelta .curly line = 0

namespace Extent

variable {lines more : List String} {id : String} {extent other : Extent} {index count : Nat}
  {buffer : Buffer} {location : Location} {steps : Span}

def push (index count : Nat) (extent : Extent) : Extent :=
  ⟨pushDown index count extent.first, pushDown index count extent.last,
    pushDown index count extent.opening, pushDown index count extent.closing⟩

/-- The lines from the first to the last one. -/
def linesIn (lines : List String) (extent : Extent) : List String :=
  (lines.take (extent.last + 1)).drop extent.first

/-- What is found from the line on where a record opens. -/
structure Frames (lines : List String) (extent : Extent) : Prop where
  closes : ClosesAt .curly lines extent.first extent.last
  reach : extent.last ≤ extent.first + recordReach
  steps : FirstAt opensSteps lines extent.first extent.opening
  within : extent.opening ≤ extent.last
  near : extent.opening ≤ extent.first + stepsSearchReach
  ends : ClosesAt .square lines extent.opening extent.closing
  inside : extent.closing ≤ extent.last
  short : extent.closing ≤ extent.opening + stepsReach

/-- The extent is what a search for the id finds. -/
structure Stands (lines : List String) (id : String) (extent : Extent) : Prop
    extends Frames lines extent where
  named : ∃ line, FirstAt (hasId id) lines 0 line ∧ OpensAt lines line extent.first ∧
    line ≤ extent.first + openingWindow

theorem Frames.opening_lt (frames : Frames lines extent) : extent.opening < lines.length :=
  Nat.lt_of_le_of_lt frames.ends.1 frames.ends.2.1

theorem Frames.first_le (frames : Frames lines extent) : extent.first ≤ extent.opening :=
  frames.steps.1

theorem Frames.opening_le (frames : Frames lines extent) : extent.opening ≤ extent.closing :=
  frames.ends.1

theorem Frames.push_of_lt (frames : Frames lines extent) (behind : extent.last < index) :
    extent.push index count = extent := by
  have order := frames.first_le
  have order' := frames.opening_le
  have within := frames.inside
  simp only [push]
  rw [pushDown_of_lt (by omega), pushDown_of_lt behind, pushDown_of_lt (by omega),
    pushDown_of_lt (by omega)]

theorem stepsBounds_eq_some_iff {start stop opening closing : Nat} :
    stepsBounds lines start stop = .ok (some (opening, closing)) ↔
      FirstAt opensSteps lines start opening ∧ opening < min stop (start + stepsSearchReach + 1) ∧
        ClosesAt .square lines opening closing ∧ closing < min stop (opening + stepsReach + 1) := by
  rw [stepsBounds]
  cases head : firstLine opensSteps start
      ((lines.take (min stop (start + stepsSearchReach + 1))).drop start) with
  | none =>
    simp only [Except.ok.injEq, reduceCtorEq, false_iff]
    rintro ⟨steps, low, -⟩
    rw [firstLine_slice_iff_firstAt.mpr ⟨steps, low⟩] at head
    cases head
  | some found =>
    obtain ⟨steps, low⟩ := firstLine_slice_iff_firstAt.mp head
    simp only [requireClose]
    cases close : matchingClose .square lines found (min stop (found + stepsReach + 1)) with
    | none =>
      simp only [bind, Except.bind, reduceCtorEq, false_iff]
      rintro ⟨steps', -, closes⟩
      obtain rfl := steps.unique steps'
      rw [matchingClose_iff_closesAt.mpr closes] at close
      cases close
    | some last =>
      obtain ⟨closes, short⟩ := matchingClose_iff_closesAt.mp close
      simp only [bind, Except.bind, pure, Except.pure, Except.ok.injEq, Option.some.injEq,
        Prod.mk.injEq]
      constructor
      · rintro ⟨rfl, rfl⟩
        exact ⟨steps, low, closes, short⟩
      · rintro ⟨steps', -, closes', short'⟩
        obtain rfl := steps.unique steps'
        have same := matchingClose_iff_closesAt.mpr ⟨closes', short'⟩
        rw [close] at same
        exact ⟨rfl, Option.some.inj same⟩

theorem stands_of_locate (located : locate buffer id = .ok (some location))
    (stepped : location.steps = some steps) :
    ∃ extent, Stands buffer.lines id extent ∧
      location.record = buffer.span extent.first (extent.last + 1) ∧
      steps = buffer.span extent.opening (extent.closing + 1) := by
  rw [locate] at located
  split at located
  · cases located
  · next line named =>
    have found : locateAt buffer id line = .ok location := by
      cases answer : locateAt buffer id line with
      | error fault => simp [answer, Except.map] at located
      | ok other => simpa [answer, Except.map] using located
    obtain ⟨first, last, ends, opening, close, bounds, rfl⟩ := locateAt_ok found
    obtain ⟨opens, window⟩ := openingAbove_iff_opensAt.mp opening
    obtain ⟨closes, reach⟩ := matchingClose_iff_closesAt.mp close
    obtain ⟨⟨start, stop⟩, rfl, rfl⟩ := Option.map_eq_some_iff.mp stepped
    obtain ⟨steps, low, ends, short⟩ := stepsBounds_eq_some_iff.mp bounds
    have order := steps.1
    refine ⟨⟨first, last, start, stop⟩, ?_, rfl, rfl⟩
    exact {
      closes, reach := by simp only; omega
      steps, within := by simp only; omega, near := by simp only; omega
      ends, inside := by simp only; omega, short := by simp only; omega
      named := ⟨line, firstLine_iff_firstAt.mp named, opens, window⟩ }

theorem locate_of_stands (stands : Stands buffer.lines id extent) :
    ∃ line, locate buffer id = .ok (some ⟨id, line, buffer.span extent.first (extent.last + 1),
      some (buffer.span extent.opening (extent.closing + 1))⟩) := by
  obtain ⟨line, named, opens, window⟩ := stands.named
  have opening : openingAbove buffer.lines openingWindow line = some extent.first :=
    openingAbove_iff_opensAt.mpr ⟨opens, window⟩
  have close : matchingClose .curly buffer.lines extent.first (extent.first + recordReach + 1) =
      some extent.last :=
    matchingClose_iff_closesAt.mpr ⟨stands.closes, Nat.lt_succ_of_le stands.reach⟩
  have bounds : stepsBounds buffer.lines extent.first (extent.last + 1) =
      .ok (some (extent.opening, extent.closing)) := by
    have within := stands.within
    have near := stands.near
    have inside := stands.inside
    have short := stands.short
    exact stepsBounds_eq_some_iff.mpr ⟨stands.steps, by omega, stands.ends, by omega⟩
  refine ⟨line, ?_⟩
  rw [locate, firstLine_iff_firstAt.mpr named]
  simp only [locateAt, opening, close, bounds, bind, Except.bind, pure, Except.pure, Except.map,
    Option.map_some]

theorem Stands.unique (first : Stands lines id extent) (second : Stands lines id other) :
    extent = other := by
  let buffer : Buffer := ⟨lines, []⟩
  obtain ⟨line, named⟩ := locate_of_stands (show Stands buffer.lines id extent from first)
  obtain ⟨line', named'⟩ := locate_of_stands (show Stands buffer.lines id other from second)
  rw [named] at named'
  simp only [Except.ok.injEq, Option.some.injEq, Location.mk.injEq, Buffer.span, Span.mk.injEq,
    Nat.add_right_cancel_iff, and_true] at named'
  obtain ⟨-, -, ⟨first, last⟩, opening, closing⟩ := named'
  cases extent
  cases other
  simp_all

theorem frames_of_putLines (inside : index ≤ lines.length) {first : Nat}
    (flat : index ≤ first ∨ ∀ line ∈ more, Quiet line)
    (frames : Frames (putLines index more lines) other)
    (start : other.first = pushDown index more.length first) :
    ∃ extent : Extent, extent.first = first ∧ other = extent.push index more.length ∧
      Frames lines extent := by
  obtain ⟨first', last', opening', closing'⟩ := other
  obtain ⟨closes, reach, steps, within, near, ends, inner, short⟩ := frames
  simp only at closes reach steps within near ends inner short start
  subst start
  have curly : index ≤ first ∨ ∀ line ∈ more, lineDelta .curly line = 0 :=
    flat.imp_right fun quiet line member => (quiet line member).curly
  have passed : index ≤ first ∨ ∀ line ∈ more, opensSteps line = false :=
    flat.imp_right fun quiet line member => (quiet line member).plain
  obtain ⟨last, rfl, kept⟩ := (closesAt_putLines inside curly).mp closes
  obtain ⟨opening, rfl, stepped⟩ := (firstAt_putLines inside passed).mp steps
  have square : index ≤ opening ∨ ∀ line ∈ more, lineDelta .square line = 0 :=
    flat.imp (fun above => Nat.le_trans above stepped.1)
      fun quiet line member => (quiet line member).square
  obtain ⟨closing, rfl, ended⟩ := (closesAt_putLines inside square).mp ends
  have spread {low high : Nat} (order : low ≤ high) :=
    sub_le_pushDown_sub index more.length order
  refine ⟨⟨first, last, opening, closing⟩, rfl, rfl, ?_⟩
  have far := spread kept.1
  have head := spread stepped.1
  have body := spread ended.1
  have order := kept.1
  have order' := stepped.1
  have order'' := ended.1
  exact {
    closes := kept, reach := by simp only; omega
    steps := stepped, within := pushDown_le_iff.mp within, near := by simp only; omega
    ends := ended, inside := pushDown_le_iff.mp inner, short := by simp only; omega }

/-- New lines above or below an extent leave its distances as they are. -/
theorem Frames.putLines_outside (frames : Frames lines extent) (inside : index ≤ lines.length)
    (outside : index ≤ extent.first ∨ extent.last < index ∧ ∀ line ∈ more, Quiet line) :
    Frames (putLines index more lines) (extent.push index more.length) := by
  obtain ⟨closes, reach, steps, within, near, ends, inner, short⟩ := frames
  have curly : index ≤ extent.first ∨ ∀ line ∈ more, lineDelta .curly line = 0 :=
    outside.imp_right fun quiet line member => (quiet.2 line member).curly
  have passed : index ≤ extent.first ∨ ∀ line ∈ more, opensSteps line = false :=
    outside.imp_right fun quiet line member => (quiet.2 line member).plain
  have square : index ≤ extent.opening ∨ ∀ line ∈ more, lineDelta .square line = 0 :=
    outside.imp (fun above => Nat.le_trans above steps.1)
      fun quiet line member => (quiet.2 line member).square
  have rigid {position : Nat} (low : extent.first ≤ position) (high : position ≤ extent.last) :
      pushDown index more.length position =
        if index ≤ extent.first then position + more.length else position := by
    simp only [pushDown]
    split <;> split <;> omega
  have order := closes.1
  have order' := steps.1
  have order'' := ends.1
  refine {
    closes := (closesAt_putLines inside curly).mpr ⟨_, rfl, closes⟩
    steps := (firstAt_putLines inside passed).mpr ⟨_, rfl, steps⟩
    within := pushDown_le_iff.mpr within
    ends := (closesAt_putLines inside square).mpr ⟨_, rfl, ends⟩
    inside := pushDown_le_iff.mpr inner
    reach := ?_, near := ?_, short := ?_ }
  all_goals
    simp only [push]
    rw [rigid (by omega) (by omega), rigid (by omega) (by omega)]
    split <;> omega

section Search

variable (inside : index ≤ lines.length) (unnamed : ∀ line ∈ more, hasId id line = false)
  (closed : ∀ line ∈ more, opensRecord line = false)

include inside unnamed closed

/-- Nothing is found among more lines that was not there before. -/
theorem stands_of_putLines (flat : index = 0 ∨ ∀ line ∈ more, Quiet line)
    (stands : Stands (putLines index more lines) id other) :
    ∃ extent : Extent, other = extent.push index more.length ∧ Stands lines id extent := by
  obtain ⟨frames, line, ⟨-, here, before⟩, opens, window⟩ := stands
  obtain ⟨named, rfl, there⟩ := exists_old_of_test inside unnamed here
  obtain ⟨first, start, above⟩ := (opensAt_putLines inside closed).mp opens
  obtain ⟨extent, rfl, rfl, kept⟩ := frames_of_putLines inside
    (flat.imp_left fun zero => by omega) frames start
  refine ⟨extent, rfl, kept, named, ⟨Nat.zero_le _, there, ?_⟩, above, ?_⟩
  · intro between _ high
    rw [← getElem?_putLines_old inside]
    exact before _ (Nat.zero_le _) (pushDown_lt_iff.mpr high)
  · have spread := sub_le_pushDown_sub index more.length above.1
    have order := above.1
    simp only [push] at window
    omega

theorem Stands.putLines_top (stands : Stands lines id extent) (top : index = 0) :
    Stands (putLines index more lines) id (extent.push index more.length) := by
  subst top
  obtain ⟨frames, line, ⟨-, here, before⟩, opens, window⟩ := stands
  refine ⟨frames.putLines_outside inside (.inl (Nat.zero_le _)),
    pushDown 0 more.length line, ⟨Nat.zero_le _, ?_, ?_⟩, ?_, ?_⟩
  · rwa [getElem?_putLines_old inside]
  · intro between _ high holds
    obtain ⟨old, rfl, there⟩ := exists_old_of_test inside unnamed holds
    exact before old (Nat.zero_le _) (pushDown_lt_iff.mp high) there
  · exact (opensAt_putLines inside closed).mpr ⟨_, rfl, opens⟩
  · simpa [push, pushDown, Nat.add_right_comm] using window

end Search

end Extent

end Stagecraft
