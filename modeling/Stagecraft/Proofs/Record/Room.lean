import Stagecraft.Proofs.Record.Extent

/-!
Records with room for further lines. As the searches look only so far, a record that takes lines is
found again as long as there is room for them; its id has to stand above them, or close enough.
-/

namespace Stagecraft.Extent

variable {lines more : List String} {id : String} {extent other : Extent}
  {index count room size line : Nat}

/-- The four lines are in order, and inside the file. -/
structure Ordered (extent : Extent) (size : Nat) : Prop where
  first_le : extent.first ≤ extent.opening
  opening_le : extent.opening ≤ extent.closing
  closing_le : extent.closing ≤ extent.last
  inside : extent.last < size

/-- One ends above the other. -/
def Apart (extent other : Extent) : Prop := extent.last < other.first ∨ other.last < extent.first

theorem Frames.ordered (frames : Frames lines extent) : extent.Ordered lines.length where
  first_le := frames.first_le
  opening_le := frames.opening_le
  closing_le := frames.inside
  inside := frames.closes.2.1

theorem Ordered.push (ordered : extent.Ordered size) :
    (extent.push index count).Ordered (size + count) where
  first_le := pushDown_le_iff.mpr ordered.first_le
  opening_le := pushDown_le_iff.mpr ordered.opening_le
  closing_le := pushDown_le_iff.mpr ordered.closing_le
  inside := by
    have inside := ordered.inside
    simp only [Extent.push, pushDown]
    split <;> omega

theorem Ordered.push_of_lt (ordered : extent.Ordered size) (behind : extent.last < index) :
    extent.push index count = extent := by
  have first := ordered.first_le
  have opening := ordered.opening_le
  have closing := ordered.closing_le
  simp only [Extent.push]
  rw [pushDown_of_lt (by omega), pushDown_of_lt behind, pushDown_of_lt (by omega),
    pushDown_of_lt (by omega)]

theorem apart_push : (extent.push index count).Apart (other.push index count) ↔
    extent.Apart other := by
  simp only [Apart, Extent.push, pushDown_lt_iff]

/-- The record of the id, with room for some lines below the opening one of its steps. -/
structure Roomy (lines : List String) (id : String) (room : Nat) (extent : Extent) : Prop
    extends Frames lines extent where
  named : ∃ line, FirstAt (hasId id) lines 0 line ∧ OpensAt lines line extent.first ∧
    line ≤ extent.first + openingWindow ∧
    (line ≤ extent.opening ∨ line ≤ extent.last ∧ line + room ≤ extent.first + openingWindow)
  record : extent.last + room ≤ extent.first + recordReach
  array : extent.closing + room ≤ extent.opening + stepsReach

theorem Roomy.stands (roomy : extent.Roomy lines id room) : extent.Stands lines id where
  toFrames := roomy.toFrames
  named := by
    obtain ⟨line, found, opens, window, -⟩ := roomy.named
    exact ⟨line, found, opens, window⟩

theorem Roomy.mono {less : Nat} (roomy : extent.Roomy lines id room) (smaller : less ≤ room) :
    extent.Roomy lines id less where
  toFrames := roomy.toFrames
  named := by
    obtain ⟨line, found, opens, window, near⟩ := roomy.named
    refine ⟨line, found, opens, window, near.imp_right fun both => ⟨both.1, ?_⟩⟩
    have enough := both.2
    omega
  record := by
    have enough := roomy.record
    omega
  array := by
    have enough := roomy.array
    omega

/-- A line moves down by the lines added, at most. -/
theorem pushDown_le_add (position : Nat) : pushDown index count position ≤ position + count := by
  simp only [pushDown]
  split <;> omega

section Put

variable (inside : index ≤ lines.length) (unnamed : ∀ line ∈ more, hasId id line = false)
  (quiet : ∀ line ∈ more, Quiet line)

include inside unnamed quiet

theorem named_putLines (first : FirstAt (hasId id) lines 0 line)
    (opens : OpensAt lines line extent.first) :
    FirstAt (hasId id) (putLines index more lines) 0 (pushDown index more.length line) ∧
      OpensAt (putLines index more lines) (pushDown index more.length line)
        (pushDown index more.length extent.first) := by
  obtain ⟨-, here, before⟩ := first
  refine ⟨⟨Nat.zero_le _, by rwa [getElem?_putLines_old inside], ?_⟩, ?_⟩
  · intro between _ high holds
    obtain ⟨old, rfl, there⟩ := exists_old_of_test inside unnamed holds
    exact before old (Nat.zero_le _) (pushDown_lt_iff.mp high) there
  · exact (opensAt_putLines inside fun line member => (quiet line member).closed).mpr
      ⟨_, rfl, opens⟩

/-- Lines elsewhere leave a record its room. -/
theorem Roomy.putLines_outside (roomy : extent.Roomy lines id room)
    (outside : index ≤ extent.first ∨ extent.last < index) :
    (extent.push index more.length).Roomy (putLines index more lines) id room := by
  obtain ⟨line, found, opens, window, near⟩ := roomy.named
  obtain ⟨found', opens'⟩ := named_putLines inside unnamed quiet found opens
  have order := roomy.ordered
  have low := opens.1
  have high : line ≤ extent.last := by
    have first := order.opening_le
    have second := order.closing_le
    rcases near with above | ⟨above, -⟩ <;> omega
  have rigid {position : Nat} (start : extent.first ≤ position) (stop : position ≤ extent.last) :
      pushDown index more.length position =
        if index ≤ extent.first then position + more.length else position := by
    simp only [pushDown]
    split <;> split <;> omega
  have first := order.first_le
  have opening := order.opening_le
  have closing := order.closing_le
  have record := roomy.record
  have array := roomy.array
  refine ⟨roomy.toFrames.putLines_outside inside (outside.imp_right fun behind => ⟨behind, quiet⟩),
    ⟨_, found', opens', ?_, ?_⟩, ?_, ?_⟩
  all_goals
    simp only [Extent.push]
    rw [rigid (by omega) (by omega), rigid (by omega) (by omega)]
  · split <;> omega
  · rw [rigid (by omega) (by omega), rigid (by omega) (by omega)]
    split <;> omega
  · split <;> omega
  · split <;> omega

omit unnamed in
/-- Lines among its steps leave a record what it is, where the searches reach so far. -/
theorem Frames.putLines_inside (frames : Frames lines extent) (low : extent.opening < index)
    (record : extent.last + more.length ≤ extent.first + recordReach)
    (array : extent.closing + more.length ≤ extent.opening + stepsReach) :
    Frames (putLines index more lines) (extent.push index more.length) := by
  have curly : index ≤ extent.first ∨ ∀ line ∈ more, lineDelta .curly line = 0 :=
    .inr fun line member => (quiet line member).curly
  have passed : index ≤ extent.first ∨ ∀ line ∈ more, opensSteps line = false :=
    .inr fun line member => (quiet line member).plain
  have square : index ≤ extent.opening ∨ ∀ line ∈ more, lineDelta .square line = 0 :=
    .inr fun line member => (quiet line member).square
  have first : (extent.push index more.length).first = extent.first :=
    pushDown_of_lt (Nat.lt_of_le_of_lt frames.first_le low)
  have opening : (extent.push index more.length).opening = extent.opening := pushDown_of_lt low
  exact {
    closes := (closesAt_putLines inside curly).mpr ⟨_, rfl, frames.closes⟩
    reach := first ▸ Nat.le_trans (pushDown_le_add _) record
    steps := (firstAt_putLines inside passed).mpr ⟨_, rfl, frames.steps⟩
    within := pushDown_le_iff.mpr frames.within
    near := by rw [first, opening]; exact frames.near
    ends := (closesAt_putLines inside square).mpr ⟨_, rfl, frames.ends⟩
    inside := pushDown_le_iff.mpr frames.inside
    short := opening ▸ Nat.le_trans (pushDown_le_add _) array }

/-- Lines among its steps take some of the room. -/
theorem Roomy.putLines_inside (roomy : extent.Roomy lines id (room + more.length))
    (low : extent.opening < index) :
    (extent.push index more.length).Roomy (putLines index more lines) id room := by
  obtain ⟨line, found, opens, window, near⟩ := roomy.named
  obtain ⟨found', opens'⟩ := named_putLines inside unnamed quiet found opens
  have record := roomy.record
  have array := roomy.array
  have order := roomy.first_le
  have still : pushDown index more.length extent.first = extent.first := pushDown_of_lt (by omega)
  have still' : pushDown index more.length extent.opening = extent.opening := pushDown_of_lt low
  have lastDown := @pushDown_le_add index more.length extent.last
  have closingDown := @pushDown_le_add index more.length extent.closing
  have lineDown := @pushDown_le_add index more.length line
  refine {
    toFrames := roomy.toFrames.putLines_inside inside quiet low (by omega) (by omega)
    named := ⟨_, found', opens', ?_, ?_⟩, record := ?_, array := ?_ }
  · simp only [Extent.push, still]
    rcases near with above | ⟨-, enough⟩
    · rw [pushDown_of_lt (by omega)]
      exact window
    · omega
  · simp only [Extent.push, still, still']
    rcases near with above | ⟨above, enough⟩
    · exact .inl (by rw [pushDown_of_lt (by omega)]; exact above)
    · exact .inr ⟨pushDown_le_iff.mpr above, by omega⟩
  · simp only [Extent.push, still]
    omega
  · simp only [Extent.push, still']
    omega

end Put

section Take

variable {other : List String} {marks : Brackets} {test : String → Bool} {start found above : Nat}
  (same : other.take size = lines.take size)

include same

theorem getElem?_of_take_eq {position : Nat} (low : position < size) :
    other[position]? = lines[position]? := by
  rw [← List.getElem?_take_of_lt low, same, List.getElem?_take_of_lt low]

theorem firstAt_of_take_eq (low : found < size) (first : FirstAt test lines start found) :
    FirstAt test other start found := by
  obtain ⟨order, here, before⟩ := first
  refine ⟨order, by rwa [getElem?_of_take_eq same low], ?_⟩
  intro between first last holds
  rw [getElem?_of_take_eq same (by omega)] at holds
  exact before between first last holds

theorem opensAt_of_take_eq (low : line < size) (opens : OpensAt lines line above) :
    OpensAt other line above := by
  obtain ⟨order, here, between⟩ := opens
  refine ⟨order, by rwa [getElem?_of_take_eq same (by omega)], ?_⟩
  intro place first last holds
  rw [getElem?_of_take_eq same (by omega)] at holds
  exact between place first last holds

theorem closesAt_of_take_eq (low : found < size) (closes : ClosesAt marks lines start found) :
    ClosesAt marks other start found := by
  obtain ⟨order, inside, zero, open'⟩ := closes
  have depth {stop : Nat} (high : stop ≤ size) :
      depthAt marks other start stop = depthAt marks lines start stop := by
    rw [depthAt, depthAt, ← Nat.min_eq_left high, ← List.take_take, same, List.take_take]
  have long := congrArg List.length same
  rw [List.length_take, List.length_take] at long
  refine ⟨order, by omega, by rwa [depth (by omega)], ?_⟩
  intro early first last
  rw [depth (by omega)]
  exact open' early first last

end Take

/-- Whatever stands behind a record, its room is the same. -/
theorem Roomy.putLines_behind (roomy : extent.Roomy lines id room) (inside : index ≤ lines.length)
    (behind : extent.last < index) : extent.Roomy (putLines index more lines) id room := by
  have size : extent.last + 1 ≤ (lines.take index).length := by
    rw [List.length_take_of_le inside]
    exact behind
  have same : (putLines index more lines).take (extent.last + 1) =
      lines.take (extent.last + 1) := by
    rw [putLines, List.append_assoc, List.take_append_of_le_length size, List.take_take,
      Nat.min_eq_left behind]
  have order := roomy.ordered
  have opening := order.opening_le
  have closing := order.closing_le
  obtain ⟨line, found, opens, window, near⟩ := roomy.named
  exact {
    closes := closesAt_of_take_eq same (Nat.lt_succ_self _) roomy.closes
    reach := roomy.reach
    steps := firstAt_of_take_eq same (by omega) roomy.steps
    within := roomy.within
    near := roomy.near
    ends := closesAt_of_take_eq same (by omega) roomy.ends
    inside := roomy.inside
    short := roomy.short
    named := ⟨line, firstAt_of_take_eq same (by omega) found,
      opensAt_of_take_eq same (by omega) opens, window, near⟩
    record := roomy.record
    array := roomy.array }

end Stagecraft.Extent
