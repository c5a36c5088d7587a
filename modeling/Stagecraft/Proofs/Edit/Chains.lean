import Stagecraft.Proofs.Edit.Embedding
import Stagecraft.Proofs.Edit.Runs

/-!
Entrances and their chains in the parts of a file. Step-level lines are found part by part, with the
depth that the part above leaves; the lines above do not matter to the chains below, and a line that
is no filler parts the chains above it from those below.
-/

namespace Stagecraft

variable {lines top middle front back : List String} {upper : List Nat} {run : List Entrance}
  {runs : List (List Entrance)} {before after : Entrance} {entrances above below : List Entrance}
  {place start count : Nat} {line : String}

/-- The entrance as it stands with more lines above. -/
def Entrance.down (count : Nat) (entrance : Entrance) : Entrance :=
  { entrance with line := entrance.line + count }

/-- The chains of two or more linked entrances. -/
def chainsAmong (lines : List String) (entrances : List Entrance) : List (List Entrance) :=
  (entrances.splitBy (linked lines)).filter (2 ≤ ·.length)

theorem runsAmong_eq_chainsAmong (lines : List String) (levels : List Nat) :
    runsAmong lines levels = chainsAmong lines (levels.filterMap (entranceAt? lines)) := rfl

section Entrances

theorem entranceAt?_below (front back : List String) (number : Nat) :
    entranceAt? (front ++ back) (number + front.length) =
      (entranceAt? back number).map (Entrance.down front.length) := by
  have line : (front ++ back)[number + front.length]? = back[number]? := by
    rw [List.getElem?_append_right (Nat.le_add_left _ _), Nat.add_sub_cancel]
  rw [entranceAt?, entranceAt?, line]
  cases back[number]? with
  | none => rfl
  | some text =>
    simp only [Option.bind_eq_bind, Option.bind_some]
    cases readEntrance? text with
    | none => rfl
    | some call => rfl

theorem entrances_above (low : ∀ number ∈ upper, number < front.length) :
    upper.filterMap (entranceAt? (front ++ back)) = upper.filterMap (entranceAt? front) := by
  apply List.filterMap_congr
  intro number member
  rw [entranceAt?, entranceAt?, List.getElem?_append_left (low number member)]

theorem entrances_below (front back : List String) (numbers : List Nat) :
    (numbers.map (· + front.length)).filterMap (entranceAt? (front ++ back)) =
      (numbers.filterMap (entranceAt? back)).map (Entrance.down front.length) := by
  rw [List.filterMap_map, List.map_filterMap]
  apply List.filterMap_congr
  intro number _
  exact entranceAt?_below front back number

/-- No entrance stands where no line is read as one. -/
theorem entrances_none {numbers : List Nat}
    (idle : ∀ number ∈ numbers, ∀ line, lines[number]? = some line → readEntrance? line = none) :
    numbers.filterMap (entranceAt? lines) = [] := by
  apply List.filterMap_eq_nil_iff.mpr
  intro number member
  rw [entranceAt?]
  cases present : lines[number]? with
  | none => rfl
  | some line =>
    simp only [Option.bind_eq_bind, Option.bind_some, idle number member line present,
      Option.bind_none]

/-- The step-level lines of the first part lie in it. -/
theorem stepLevelLines_above (low : start < top.length) :
    ∃ upper, stepLevelLines top start top.length = .ok upper ∧
      ∀ number ∈ upper, number < top.length := by
  obtain ⟨upper, first⟩ := stepLevelLines_defined low (Nat.le_refl top.length)
  refine ⟨upper, first, ?_⟩
  intro number member
  exact (((stepLevelLines_ok first).2 number).mp member).2.1

/-- Step-level lines part by part: those of the first part, those of the middle and those of the
last, which go by the depth in front of it. -/
theorem stepLevelLines_parts (low : start < top.length) (high : count ≤ back.length)
    (first : stepLevelLines top start top.length = .ok upper) :
    stepLevelLines (top ++ middle ++ back) start ((top ++ middle).length + count) =
      .ok (upper ++ levelOneFrom (totalDelta .square (top.drop start)) top.length middle ++
        (levelOneFrom (totalDelta .square (top.drop start) + totalDelta .square middle) 0
          (back.take count)).map (· + (top ++ middle).length)) := by
  have opening : (top ++ middle ++ back)[start]? = some top[start] := by
    rw [List.append_assoc, List.getElem?_append_left low, List.getElem?_eq_getElem low]
  have inside : (top ++ middle).length + count ≤ (top ++ middle ++ back).length := by
    have size := @List.length_append _ (top ++ middle) back
    omega
  have part : ((top ++ middle ++ back).take ((top ++ middle).length + count)).drop (start + 1) =
      top.drop (start + 1) ++ (middle ++ back.take count) := by
    rw [List.take_length_add_append, List.append_assoc, List.drop_append_of_le_length low]
  have depth : lineDelta .square top[start] + totalDelta .square (top.drop (start + 1)) =
      totalDelta .square (top.drop start) := by
    rw [List.drop_eq_getElem_cons low, totalDelta]
  have place : start + 1 + (top.drop (start + 1)).length = top.length := by
    rw [List.length_drop]
    omega
  have size : top.length + middle.length = 0 + (top ++ middle).length := by
    rw [List.length_append, Nat.zero_add]
  simp only [stepLevelLines, List.getElem?_eq_getElem low, Nat.le_refl, if_true, List.take_length,
    Except.ok.injEq] at first
  simp only [stepLevelLines, opening, inside, if_true]
  rw [part, levelOneFrom_append, levelOneFrom_append, depth, place, first, size, levelOneFrom_add,
    List.append_assoc]

end Entrances

section Links

theorem linked_above (low : after.line ≤ front.length) :
    linked (front ++ back) before after = linked front before after := by
  rw [linked, linked, List.take_append_of_le_length low]

theorem linked_below (front back : List String) (before after : Entrance) :
    linked (front ++ back) (before.down front.length) (after.down front.length) =
      linked back before after := by
  have lower : (before.down front.length).line + 1 = front.length + (before.line + 1) := by
    simp only [Entrance.down]
    omega
  have upper : (after.down front.length).line = front.length + after.line := Nat.add_comm _ _
  rw [linked, linked, upper, lower, List.take_length_add_append, List.drop_length_add_append]
  rfl

/-- A line that is no filler parts the entrances above it from those below. -/
theorem not_linked (low : before.line < place) (high : place < after.line)
    (present : lines[place]? = some line) (ink : isFiller line = false) :
    linked lines before after = false := by
  obtain ⟨inside, rfl⟩ := List.getElem?_eq_some_iff.mp present
  have size : place < (lines.take after.line).length := by
    rw [List.length_take]
    omega
  have between : lines[place] ∈ (lines.take after.line).drop (before.line + 1) := by
    have offset : before.line + 1 + (place - (before.line + 1)) = place := by omega
    refine List.mem_drop_iff_getElem.mpr ⟨place - (before.line + 1), by omega, ?_⟩
    simp only [offset, List.getElem_take]
  rw [linked, Bool.and_eq_false_iff]
  right
  rw [List.all_eq_false]
  exact ⟨_, between, by simp [ink]⟩

end Links

section Chains

theorem chainsAmong_above (low : ∀ entrance ∈ entrances, entrance.line ≤ front.length) :
    chainsAmong (front ++ back) entrances = chainsAmong front entrances := by
  rw [chainsAmong, chainsAmong]
  congr 1
  apply splitBy_congr
  intro _ _ after member
  exact linked_above (low after member)

theorem chainsAmong_below (front back : List String) (entrances : List Entrance) :
    chainsAmong (front ++ back) (entrances.map (Entrance.down front.length)) =
      (chainsAmong back entrances).map (List.map (Entrance.down front.length)) := by
  rw [chainsAmong, splitBy_map (linked_below front back), List.filter_map, chainsAmong]
  congr 2
  funext chain
  simp

theorem chainsAmong_append
    (apart : ∀ before ∈ above, ∀ after ∈ below, linked lines before after = false) :
    chainsAmong lines (above ++ below) = chainsAmong lines above ++ chainsAmong lines below := by
  rw [chainsAmong, List.splitBy_append, List.filter_append]
  · rfl
  · intro before last after first
    exact apart before (List.mem_of_getLast? last) after (List.mem_of_head? first)

theorem splitBy_parts {α : Type} {joins : α → α → Bool} {list : List α}
    {first second : List (List α)} (split : list.splitBy joins = first ++ second) :
    first.flatten.splitBy joins = first ∧ second.flatten.splitBy joins = second := by
  obtain ⟨-, filled, chains, seams⟩ := List.splitBy_eq_iff.mp split
  obtain ⟨seams, seams', -⟩ := List.isChain_append.mp seams
  constructor
  · exact List.splitBy_flatten (fun member => filled (List.mem_append_left _ member))
      (fun chain member => chains chain (List.mem_append_left _ member)) seams
  · exact List.splitBy_flatten (fun member => filled (List.mem_append_right _ member))
      (fun chain member => chains chain (List.mem_append_right _ member)) seams'

/-- Below the last chain none is found. -/
theorem chainsAmong_around (found : chainsAmong lines entrances = runs ++ [run]) :
    ∃ above below, entrances = above ++ run ++ below ∧ chainsAmong lines above = runs ∧
      chainsAmong lines below = [] := by
  obtain ⟨first, second, split, upper, lower⟩ := List.filter_eq_append_iff.mp found
  obtain ⟨short, last, rfl, single, -, rest⟩ := List.filter_eq_cons_iff.mp lower
  have none : short.filter (2 ≤ ·.length) = [] := List.filter_eq_nil_iff.mpr single
  have parts : entrances.splitBy (linked lines) = (first ++ short) ++ ([run] ++ last) := by
    rw [split, List.append_assoc, List.singleton_append]
  obtain ⟨whole, whole'⟩ := splitBy_parts parts
  obtain ⟨-, whole''⟩ := splitBy_parts whole'
  refine ⟨(first ++ short).flatten, last.flatten, ?_, ?_, ?_⟩
  · have all := List.flatten_splitBy (linked lines) entrances
    rw [parts, List.flatten_append, List.flatten_append] at all
    simpa using all.symm
  · rw [chainsAmong, whole, List.filter_append, upper, none, List.append_nil]
  · rw [chainsAmong, whole'', rest]

end Chains

section Bounds

variable {low high : Nat} {within within' above' below' : List Entrance}

/-- Entrances above a line, from there down to another line, and from there on. -/
structure Parted (low high : Nat) (above within below : List Entrance) : Prop where
  order : low ≤ high
  upper : ∀ entrance ∈ above, entrance.line < low
  inner : ∀ entrance ∈ within, low ≤ entrance.line ∧ entrance.line < high
  lower : ∀ entrance ∈ below, high ≤ entrance.line

theorem Parted.filter_above (parted : Parted low high above within below) :
    (above ++ within ++ below).filter (·.line < low) = above := by
  have order := parted.order
  have upper : above.filter (·.line < low) = above := by
    apply List.filter_eq_self.mpr
    intro entrance member
    exact decide_eq_true (parted.upper entrance member)
  have inner : within.filter (·.line < low) = [] := by
    apply List.filter_eq_nil_iff.mpr
    intro entrance member
    simpa using (parted.inner entrance member).1
  have lower : below.filter (·.line < low) = [] := by
    apply List.filter_eq_nil_iff.mpr
    intro entrance member
    simpa using Nat.le_trans order (parted.lower entrance member)
  rw [List.filter_append, List.filter_append, upper, inner, lower, List.append_nil,
    List.append_nil]

theorem Parted.filter_below (parted : Parted low high above within below) :
    (above ++ within ++ below).filter (high ≤ ·.line) = below := by
  have order := parted.order
  have upper : above.filter (high ≤ ·.line) = [] := by
    apply List.filter_eq_nil_iff.mpr
    intro entrance member
    simpa using Nat.lt_of_lt_of_le (parted.upper entrance member) order
  have inner : within.filter (high ≤ ·.line) = [] := by
    apply List.filter_eq_nil_iff.mpr
    intro entrance member
    simpa using (parted.inner entrance member).2
  have lower : below.filter (high ≤ ·.line) = below := by
    apply List.filter_eq_self.mpr
    intro entrance member
    exact decide_eq_true (parted.lower entrance member)
  rw [List.filter_append, List.filter_append, upper, inner, lower, List.append_nil,
    List.nil_append]

/-- Entrances are parted at two lines in one way. -/
theorem Parted.unique (parted : Parted low high above within below)
    (parted' : Parted low high above' within' below')
    (same : above ++ within ++ below = above' ++ within' ++ below') :
    above = above' ∧ below = below' := by
  constructor
  · rw [← parted.filter_above, same, parted'.filter_above]
  · rw [← parted.filter_below, same, parted'.filter_below]

/-- A run parts the entrances from top to bottom into those above its lines and those below. -/
theorem parted_around (filled : run ≠ [])
    (sorted : (above ++ run ++ below).Pairwise (·.line < ·.line)) :
    Parted (startOf run) (stopOf run) above run below := by
  obtain ⟨sorted, -, lower⟩ := List.pairwise_append.mp sorted
  obtain ⟨-, inner, upper⟩ := List.pairwise_append.mp sorted
  have start := startOf_eq_head filled
  have stop := stopOf_eq_getLast filled
  have within : ∀ entrance ∈ run, startOf run ≤ entrance.line ∧ entrance.line < stopOf run := by
    intro entrance member
    rw [start, stop]
    constructor
    · obtain ⟨first, rest, rfl⟩ := List.exists_cons_of_ne_nil filled
      rcases List.mem_cons.mp member with rfl | later
      · exact Nat.le_refl _
      · exact Nat.le_of_lt ((List.pairwise_cons.mp inner).1 entrance later)
    · rw [← List.dropLast_append_getLast filled] at inner member
      rcases List.mem_append.mp member with early | last
      · exact Nat.lt_succ_of_lt
          ((List.pairwise_append.mp inner).2.2 entrance early _ (List.mem_singleton_self _))
      · rw [List.mem_singleton.mp last]
        exact Nat.lt_succ_self _
  refine ⟨?_, ?_, within, ?_⟩
  · obtain ⟨low, high⟩ := within _ (List.head_mem filled)
    omega
  · intro entrance member
    rw [start]
    exact upper entrance member _ (List.head_mem filled)
  · intro entrance member
    rw [stop]
    exact lower _ (List.mem_append_right _ (List.getLast_mem filled)) entrance member

end Bounds

section Exchange

variable {new : List String} {levels : List Nat} {last : String}

theorem entrances_parts (above : ∀ number ∈ upper, number < top.length) (inner lower : List Nat) :
    (upper ++ inner ++ lower.map (· + (top ++ middle).length)).filterMap
        (entranceAt? (top ++ middle ++ back)) =
      upper.filterMap (entranceAt? top) ++ inner.filterMap (entranceAt? (top ++ middle ++ back)) ++
        (lower.filterMap (entranceAt? back)).map (Entrance.down (top ++ middle).length) := by
  have first := @entrances_above top (middle ++ back) upper above
  rw [← List.append_assoc] at first
  rw [List.filterMap_append, List.filterMap_append, entrances_below, first]

/-- The entrances among the levels of three parts, parted at the ends of the middle one. -/
theorem parted_parts (above : ∀ number ∈ upper, number < top.length) (depth : Int)
    (lower : List Nat) :
    Parted top.length (top ++ middle).length (upper.filterMap (entranceAt? top))
      ((levelOneFrom depth top.length middle).filterMap (entranceAt? (top ++ middle ++ back)))
      ((lower.filterMap (entranceAt? back)).map (Entrance.down (top ++ middle).length)) where
  order := by simp
  upper := by
    intro entrance member
    obtain ⟨number, present, read⟩ := List.mem_filterMap.mp member
    rw [(entranceAt?_eq_some.mp read).1]
    exact above number present
  inner := by
    intro entrance member
    obtain ⟨number, present, read⟩ := List.mem_filterMap.mp member
    obtain ⟨offset, inside, rfl, -⟩ := mem_levelOneFrom.mp present
    rw [(entranceAt?_eq_some.mp read).1, List.length_append]
    omega
  lower := by
    intro entrance member
    obtain ⟨other, -, rfl⟩ := List.mem_map.mp member
    exact Nat.le_add_left _ _

/-- Where the middle part ends with a line that is no filler, no chain reaches across it. -/
theorem chainsAmong_apart (low : ∀ entrance ∈ above, entrance.line < top.length)
    (ends : middle.getLast? = some last) (ink : isFiller last = false) :
    chainsAmong (top ++ middle ++ back)
        (above ++ below.map (Entrance.down (top ++ middle).length)) =
      chainsAmong top above ++
        (chainsAmong back below).map (List.map (Entrance.down (top ++ middle).length)) := by
  rw [List.getLast?_eq_getElem?] at ends
  have size := (List.getElem?_eq_some_iff.mp ends).1
  have seam : (top ++ middle ++ back)[top.length + (middle.length - 1)]? = some last := by
    rw [List.append_assoc, List.getElem?_append_right (Nat.le_add_right _ _),
      Nat.add_sub_cancel_left, List.getElem?_append_left size, ends]
  have upper : chainsAmong (top ++ middle ++ back) above = chainsAmong top above := by
    rw [List.append_assoc]
    exact chainsAmong_above fun entrance member => Nat.le_of_lt (low entrance member)
  rw [chainsAmong_append, upper, chainsAmong_below]
  intro before member after member'
  obtain ⟨other, -, rfl⟩ := List.mem_map.mp member'
  have high : (other.down (top ++ middle).length).line =
      other.line + (top.length + middle.length) := by
    rw [Entrance.down, List.length_append]
  have first := low before member
  exact not_linked (by omega) (by omega) seam ink

/-- Where the lines of the last run give place to lines that hold no entrance, count as much and end
with a line that is no filler, the runs above it are found and no other. -/
theorem runsAmong_exchanged (low : start < top.length) (high : count ≤ back.length)
    (filled : run ≠ []) (starts : startOf run = top.length)
    (stops : stopOf run = (top ++ middle).length)
    (flat : totalDelta .square new = totalDelta .square middle)
    (idle : ∀ line ∈ new, readEntrance? line = none)
    (ends : new.getLast? = some last) (ink : isFiller last = false)
    (leveled : stepLevelLines (top ++ middle ++ back) start ((top ++ middle).length + count) =
      .ok levels)
    (found : runsAmong (top ++ middle ++ back) levels = runs ++ [run]) :
    ∃ levels', stepLevelLines (top ++ new ++ back) start ((top ++ new).length + count) =
        .ok levels' ∧ runsAmong (top ++ new ++ back) levels' = runs := by
  have sorted := sorted_entrances (top ++ middle ++ back) (stepLevelLines_ok leveled).1
  obtain ⟨upper, first, above⟩ := stepLevelLines_above low
  rw [stepLevelLines_parts low high first, Except.ok.injEq] at leveled
  subst leveled
  refine ⟨_, stepLevelLines_parts low high first, ?_⟩
  rw [runsAmong_eq_chainsAmong, entrances_parts above] at found
  rw [entrances_parts above] at sorted
  -- The entrances of the middle part are the run, so those around it are those of the other parts.
  obtain ⟨before, behind, whole, found, none⟩ := chainsAmong_around found
  rw [whole] at sorted
  have parted := parted_around filled sorted
  rw [starts, stops] at parted
  obtain ⟨rfl, rfl⟩ := (parted_parts above _ _).unique parted whole
  rw [List.append_assoc, chainsAmong_above fun entrance member =>
    Nat.le_of_lt (parted.upper entrance member)] at found
  rw [chainsAmong_below, List.map_eq_nil_iff] at none
  have empty (depth : Int) : (levelOneFrom depth top.length new).filterMap
      (entranceAt? (top ++ new ++ back)) = [] := by
    apply entrances_none
    intro number member line present
    obtain ⟨offset, inside, rfl, -⟩ := mem_levelOneFrom.mp member
    rw [List.append_assoc, List.getElem?_append_right (Nat.le_add_right _ _),
      Nat.add_sub_cancel_left, List.getElem?_append_left inside] at present
    exact idle line (List.mem_of_getElem? present)
  rw [flat, runsAmong_eq_chainsAmong, entrances_parts above, empty, List.append_nil,
    chainsAmong_apart parted.upper ends ink, found, none]
  exact List.append_nil runs

end Exchange

end Stagecraft
