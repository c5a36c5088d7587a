import Mathlib.Logic.Function.Iterate
import Stagecraft.Proofs.Record.Depth
import Stagecraft.Record.Location

/-!
How the scan for records moves. From a line that holds no record it goes on with the next line, and
from one that does behind that record. A record opens at most five lines above its id; it may close
above it too, and then the scan goes back, meets the same record again, and never ends. It ends
just when every step goes forward.
-/

namespace Stagecraft

variable {buffer : Buffer} {lines : List String} {id : String} {window line above : Nat}
  {location : Location}

theorem openingAbove_eq_some_iff :
    openingAbove lines window line = some above ↔
      above ≤ line ∧ line ≤ above + window ∧ (lines[above]?).any opensRecord ∧
        ∀ between, above < between → between ≤ line → ¬ (lines[between]?).any opensRecord := by
  induction line generalizing window with
  | zero =>
    have here : openingAbove lines window 0 =
        if (lines[0]?).any opensRecord then some 0 else none := by
      cases window <;> rfl
    rw [here]
    split
    · next opens =>
      constructor
      · rintro same
        obtain rfl := Option.some.inj same
        exact ⟨Nat.le_refl 0, Nat.zero_le _, opens, fun between low high => by omega⟩
      · rintro ⟨low, -, -, -⟩
        rw [Nat.le_zero.mp low]
    · next closed =>
      constructor
      · intro found
        cases found
      · rintro ⟨low, -, opens, -⟩
        rw [Nat.le_zero.mp low] at opens
        exact absurd opens closed
  | succ line ih =>
    by_cases opens : (lines[line + 1]?).any opensRecord
    · have here : openingAbove lines window (line + 1) = some (line + 1) := by
        cases window <;> simp only [openingAbove, opens, if_true]
      rw [here]
      constructor
      · rintro same
        obtain rfl := Option.some.inj same
        exact ⟨Nat.le_refl _, Nat.le_add_right _ _, opens, fun between low high => by omega⟩
      · rintro ⟨low, -, -, free⟩
        rcases Nat.lt_or_eq_of_le low with before | rfl
        · exact absurd opens (free (line + 1) before (Nat.le_refl _))
        · rfl
    · cases window with
      | zero =>
        have none : openingAbove lines 0 (line + 1) = none := by
          simp only [openingAbove, opens, Bool.false_eq_true, if_false]
        rw [none]
        constructor
        · intro found
          cases found
        · rintro ⟨low, high, there, -⟩
          obtain rfl : above = line + 1 := by omega
          exact absurd there opens
      | succ window =>
        have next :
            openingAbove lines (window + 1) (line + 1) = openingAbove lines window line := by
          simp only [openingAbove, opens, Bool.false_eq_true, if_false]
        rw [next, ih]
        constructor
        · rintro ⟨low, high, there, free⟩
          refine ⟨by omega, by omega, there, ?_⟩
          intro between first last
          by_cases end' : between = line + 1
          · rwa [end']
          · exact free between first (by omega)
        · rintro ⟨low, high, there, free⟩
          have other : above ≠ line + 1 := by
            rintro rfl
            exact opens there
          exact ⟨by omega, by omega, there, fun between first last =>
            free between first (by omega)⟩

/-- What a record that was located says of the lines. -/
theorem locateAt_ok (located : locateAt buffer id line = .ok location) :
    ∃ first last ends, openingAbove buffer.lines openingWindow line = some first ∧
      matchingClose .curly buffer.lines first (first + recordReach + 1) = some last ∧
      stepsBounds buffer.lines first (last + 1) = .ok ends ∧
      location = ⟨id, line, buffer.span first (last + 1),
        ends.map fun (opening, closing) => buffer.span opening (closing + 1)⟩ := by
  simp only [locateAt] at located
  split at located
  · cases located
  · next first opening =>
    split at located
    · cases located
    · next last close =>
      cases bounds : stepsBounds buffer.lines first (last + 1) with
      | error fault => simp [bounds, bind, Except.bind] at located
      | ok ends =>
        simp only [bounds, bind, Except.bind, pure, Except.pure, Except.ok.injEq] at located
        exact ⟨first, last, ends, opening, close, bounds, located.symm⟩

/-- Where the scan goes on from a line; it rests behind the last one. -/
def nextLine (buffer : Buffer) (line : Nat) : Nat :=
  if inside : line < buffer.lines.length then
    match idOn? buffer.lines[line] with
    | none => line + 1
    | some id =>
      match locateAt buffer id line with
      | .error _ => line + 1
      | .ok location => location.record.stop
  else line

theorem nextLine_of_located (inside : line < buffer.lines.length)
    (named : idOn? buffer.lines[line] = some id)
    (located : locateAt buffer id line = .ok location) :
    nextLine buffer line = location.record.stop := by
  simp only [nextLine, inside, dif_pos, named, located]

/-- A line from which the scan does not go to the next one holds the id of a record. -/
theorem nextLine_cases (inside : line < buffer.lines.length) :
    nextLine buffer line = line + 1 ∨ ∃ id location, idOn? buffer.lines[line] = some id ∧
      locateAt buffer id line = .ok location ∧ nextLine buffer line = location.record.stop := by
  cases named : idOn? buffer.lines[line] with
  | none => left; simp only [nextLine, inside, dif_pos, named]
  | some id =>
    cases located : locateAt buffer id line with
    | error fault => left; simp only [nextLine, inside, dif_pos, named, located]
    | ok location =>
      exact .inr ⟨id, location, rfl, located, nextLine_of_located inside named located⟩

theorem nextLine_rests (behind : buffer.lines.length ≤ line) : nextLine buffer line = line := by
  simp only [nextLine, Nat.not_lt.mpr behind, dif_neg, not_false_eq_true]

/-- Once it goes back, the scan stays between the end of the record and its id: every line there
that locates a record locates the same one. -/
theorem nextLine_trapped (inside : line < buffer.lines.length)
    (back : nextLine buffer line ≤ line) {other : Nat} (low : nextLine buffer line ≤ other)
    (high : other ≤ line) :
    nextLine buffer line ≤ nextLine buffer other ∧ nextLine buffer other ≤ line := by
  rcases nextLine_cases inside with next | ⟨id, location, -, located, next⟩
  · omega
  obtain ⟨first, last, _, opening, close, -, rfl⟩ := locateAt_ok located
  change nextLine buffer line = last + 1 at next
  rw [next] at back low ⊢
  obtain ⟨-, near, opens, free⟩ := openingAbove_eq_some_iff.mp opening
  obtain ⟨order, -⟩ := matchingClose_bounds close
  rcases nextLine_cases (Nat.lt_of_le_of_lt high inside) with
    forward | ⟨second, again, -, relocated, onward⟩
  · rw [forward]
    by_cases same : other = line
    · subst same
      omega
    · omega
  · have same : again.record.stop = last + 1 := by
      obtain ⟨first', last', _, opening', close', -, rfl⟩ := locateAt_ok relocated
      have start : openingAbove buffer.lines openingWindow other = some first :=
        openingAbove_eq_some_iff.mpr ⟨by omega, by omega, opens, fun between before upto =>
          free between before (by omega)⟩
      rw [start] at opening'
      rw [← Option.some.inj opening', close] at close'
      rw [Option.some.inj close']
      rfl
    rw [onward, same]
    exact ⟨Nat.le_refl _, back⟩

/-- A record located from this line reaches down to it. -/
def ReachesId (buffer : Buffer) (line : Nat) : Prop :=
  ∀ id location, buffer.lines[line]?.bind idOn? = some id →
    locateAt buffer id line = .ok location → line < location.record.stop

theorem reachesId_iff (inside : line < buffer.lines.length) :
    ReachesId buffer line ↔ line < nextLine buffer line := by
  rw [ReachesId, List.getElem?_eq_getElem inside, Option.bind_some]
  constructor
  · intro reaches
    rcases nextLine_cases inside with next | ⟨id, location, named, located, next⟩
    · omega
    · rw [next]
      exact reaches id location named located
  · intro forward id location named located
    rwa [nextLine_of_located inside named located] at forward

theorem iterate_nextLine_trapped (inside : line < buffer.lines.length)
    (back : nextLine buffer line ≤ line) (steps : Nat) :
    (nextLine buffer)^[steps] line ≤ line ∧
      (0 < steps → nextLine buffer line ≤ (nextLine buffer)^[steps] line) := by
  induction steps with
  | zero => exact ⟨Nat.le_refl _, fun positive => absurd positive (Nat.lt_irrefl 0)⟩
  | succ steps ih =>
    rw [Function.iterate_succ_apply']
    have low : nextLine buffer line ≤ (nextLine buffer)^[steps] line := by
      cases steps with
      | zero => exact back
      | succ steps => exact ih.2 (Nat.succ_pos steps)
    obtain ⟨lower, upper⟩ := nextLine_trapped inside back low ih.1
    exact ⟨upper, fun _ => lower⟩

/-- The survey has an outcome and the scan comes to the end, or it fails and the scan gets
nowhere. -/
def Follows (buffer : Buffer) (line : Nat) (outcome : Except Fault Survey) : Prop :=
  (∃ survey, outcome = .ok survey) ∧
      (∃ steps, buffer.lines.length ≤ (nextLine buffer)^[steps] line) ∨
    outcome = .error .endless ∧ ∀ steps, (nextLine buffer)^[steps] line < buffer.lines.length

theorem Follows.step {outcome : Except Fault Survey} (inside : line < buffer.lines.length)
    (follows : Follows buffer (nextLine buffer line) outcome) (add : Survey → Survey) :
    Follows buffer line (outcome.map add) := by
  rcases follows with ⟨⟨survey, rfl⟩, steps, reached⟩ | ⟨rfl, stuck⟩
  · exact .inl ⟨⟨add survey, rfl⟩, steps + 1, reached⟩
  · refine .inr ⟨rfl, fun steps => ?_⟩
    cases steps with
    | zero => exact inside
    | succ steps => exact stuck steps

theorem surveyFrom_follows (buffer : Buffer) (line : Nat) :
    Follows buffer line (surveyFrom buffer line) := by
  fun_induction surveyFrom buffer line with
  | case1 line inside plain ih =>
    have next : nextLine buffer line = line + 1 := by
      simp only [nextLine, inside, dif_pos, plain]
    rw [← next] at ih
    simpa [next, Except.map_id] using ih.step inside id
  | case2 line inside id named fault located ih =>
    have next : nextLine buffer line = line + 1 := by
      simp only [nextLine, inside, dif_pos, named, located]
    rw [← next] at ih ⊢
    exact ih.step inside _
  | case3 line inside id named location located forward ih =>
    rw [← nextLine_of_located inside named located] at ih ⊢
    exact ih.step inside _
  | case4 line inside id named location located back =>
    refine .inr ⟨rfl, fun steps => ?_⟩
    have low : nextLine buffer line ≤ line := by
      rw [nextLine_of_located inside named located]
      exact Nat.le_of_not_lt back
    exact Nat.lt_of_le_of_lt (iterate_nextLine_trapped inside low steps).1 inside
  | case5 line behind => exact .inl ⟨⟨_, rfl⟩, 0, Nat.le_of_not_lt behind⟩

theorem ends_of_reachesId (reaches : ∀ steps, ReachesId buffer ((nextLine buffer)^[steps] line)) :
    ∃ steps, buffer.lines.length ≤ (nextLine buffer)^[steps] line := by
  by_contra none
  have inside (steps : Nat) : (nextLine buffer)^[steps] line < buffer.lines.length :=
    Nat.lt_of_not_le fun reached => none ⟨steps, reached⟩
  have climbs (steps : Nat) : steps ≤ (nextLine buffer)^[steps] line := by
    induction steps with
    | zero => exact Nat.zero_le _
    | succ steps ih =>
      rw [Function.iterate_succ_apply']
      exact Nat.lt_of_le_of_lt ih ((reachesId_iff (inside steps)).mp (reaches steps))
  exact absurd (inside buffer.lines.length) (Nat.not_lt.mpr (climbs _))

theorem reachesId_of_ends {steps : Nat}
    (ended : buffer.lines.length ≤ (nextLine buffer)^[steps] line) (early : Nat) :
    ReachesId buffer ((nextLine buffer)^[early] line) := by
  by_cases inside : (nextLine buffer)^[early] line < buffer.lines.length
  · rw [reachesId_iff inside]
    by_contra back
    rcases Nat.le_total early steps with before | after
    · obtain ⟨later, rfl⟩ := Nat.exists_eq_add_of_le before
      rw [Nat.add_comm, Function.iterate_add_apply] at ended
      have trapped := (iterate_nextLine_trapped inside (Nat.le_of_not_lt back) later).1
      omega
    · obtain ⟨later, rfl⟩ := Nat.exists_eq_add_of_le after
      have rests : (nextLine buffer)^[later] ((nextLine buffer)^[steps] line) =
          (nextLine buffer)^[steps] line :=
        Function.iterate_fixed (nextLine_rests ended) later
      rw [Nat.add_comm, Function.iterate_add_apply, rests] at inside
      omega
  · intro id location named
    rw [List.getElem?_eq_none (Nat.le_of_not_lt inside)] at named
    cases named

/-- Where a record stands that was located from the line of its id: it opens at most five lines
above that line, and reaches it just when its braces stay open until there. -/
theorem locateAt_reaches (located : locateAt buffer id line = .ok location) :
    location.record.start ≤ line ∧ line ≤ location.record.start + openingWindow ∧
      (line < location.record.stop ↔ ∀ stop, location.record.start < stop → stop ≤ line →
        depthAt .curly buffer.lines location.record.start stop ≠ 0) := by
  obtain ⟨first, last, _, opening, close, -, rfl⟩ := locateAt_ok located
  obtain ⟨low, near, -, -⟩ := openingAbove_eq_some_iff.mp opening
  obtain ⟨order, -, -, zero, before⟩ := matchingClose_eq_some_iff.mp close
  refine ⟨low, near, ?_⟩
  change line < last + 1 ↔ ∀ stop, first < stop → stop ≤ line → _
  constructor
  · intro reaches early after upto
    exact before early after (by omega)
  · intro open'
    by_contra short
    exact open' (last + 1) (by omega) (by omega) zero

/-- The scan comes to the end of the file just when every record it meets reaches down to the line
of its id; otherwise it goes on for ever. A record misses that line just when its braces are
balanced above it. -/
theorem findAll_ends_iff (buffer : Buffer) :
    ((∃ survey, findAll buffer = .ok survey) ↔
      ∀ steps, ReachesId buffer ((nextLine buffer)^[steps] 0)) ∧
    ((∃ survey, findAll buffer = .ok survey) ↔
      ∃ steps, buffer.lines.length ≤ (nextLine buffer)^[steps] 0) ∧
    (¬ (∃ survey, findAll buffer = .ok survey) → findAll buffer = .error .endless) ∧
    ∀ id line location, locateAt buffer id line = .ok location →
      location.record.start ≤ line ∧ line ≤ location.record.start + openingWindow ∧
        (line < location.record.stop ↔ ∀ stop, location.record.start < stop → stop ≤ line →
          depthAt .curly buffer.lines location.record.start stop ≠ 0) := by
  have ends : (∃ survey, findAll buffer = .ok survey) ↔
      ∃ steps, buffer.lines.length ≤ (nextLine buffer)^[steps] 0 := by
    rcases surveyFrom_follows buffer 0 with ⟨outcome, ended⟩ | ⟨endless, stuck⟩
    · exact iff_of_true outcome ended
    · refine iff_of_false ?_ ?_
      · rintro ⟨survey, found⟩
        rw [findAll, endless] at found
        cases found
      · rintro ⟨steps, ended⟩
        exact absurd (stuck steps) (Nat.not_lt.mpr ended)
  refine ⟨?_, ends, ?_, fun id line location located => locateAt_reaches located⟩
  · rw [ends]
    constructor
    · rintro ⟨steps, ended⟩ early
      exact reachesId_of_ends ended early
    · exact ends_of_reachesId
  · intro none
    rcases surveyFrom_follows buffer 0 with ⟨outcome, -⟩ | ⟨endless, -⟩
    · exact absurd outcome none
    · exact endless

/-- A record that closes above its id is met again and again. -/
theorem findAll_closed_above_id :
    let buffer : Buffer := ⟨["\x7b", "\x7d", "id: 'x'"], []⟩
    locateAt buffer "x" 2 = .ok ⟨"x", 2, ⟨0, 2, 0⟩, none⟩ ∧ findAll buffer = .error .endless := by
  intro buffer
  have located : locateAt buffer "x" 2 = .ok ⟨"x", 2, ⟨0, 2, 0⟩, none⟩ := rfl
  have plain : idOn? "\x7b" = none ∧ idOn? "\x7d" = none := by decide
  have named : idOn? "id: 'x'" = some "x" := by decide
  have third : surveyFrom buffer 2 = .error .endless := by
    rw [surveyFrom, dif_pos (by decide)]
    simp only [buffer, List.getElem_cons_succ, List.getElem_cons_zero, named] at located ⊢
    rw [located]
    rfl
  have second : surveyFrom buffer 1 = .error .endless := by
    rw [surveyFrom, dif_pos (by decide)]
    simpa only [buffer, List.getElem_cons_succ, List.getElem_cons_zero, plain.2] using third
  refine ⟨located, ?_⟩
  rw [findAll, surveyFrom, dif_pos (by decide)]
  simpa only [buffer, List.getElem_cons_zero, plain.1] using second

end Stagecraft
