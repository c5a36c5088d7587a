import Stagecraft.Proofs.Edit.EntranceLines
import Stagecraft.Proofs.Edit.Settling

/-!
The runs of a record are the maximal chains of its entrances. Entrances are the step-level lines
that spell one; two that come one after the other are linked when they are from one side and all
lines between them are blank or comments. A chain of two or more is a run when it cannot be made
longer at either end.
-/

namespace Stagecraft

variable {lines : List String} {levels : List Nat} {opening closing : Nat} {site : Site}
  {before after entrance : Entrance} {entrances run : List Entrance} {runs : List (List Entrance)}

/-- The entrance is spelled by a line that starts a member of the array. -/
def Entrance.StandsIn (lines : List String) (opening closing : Nat) (entrance : Entrance) : Prop :=
  LevelAt lines opening closing entrance.line ∧ ∃ line, lines[entrance.line]? = some line ∧
    SpellsEntrance entrance.side entrance.character entrance.target line.toList

/-- Two entrances from one side, with only blank lines and comments between them. -/
def Linked (lines : List String) (before after : Entrance) : Prop :=
  before.side = after.side ∧ ∀ number line, before.line < number → number < after.line →
    lines[number]? = some line → isFiller line = true

/-- Two or more entrances, one after the other among all of them and each linked to the next, that
are linked to none above and to none below. -/
structure MaximalChain (lines : List String) (entrances chain : List Entrance) : Prop where
  long : 2 ≤ chain.length
  linked : chain.IsChain (Linked lines)
  maximal : ∃ above below, entrances = above ++ chain ++ below ∧
    (∀ last ∈ above.getLast?, ∀ first ∈ chain.head?, ¬ Linked lines last first) ∧
    ∀ last ∈ chain.getLast?, ∀ first ∈ below.head?, ¬ Linked lines last first

section Links

theorem linked_iff : linked lines before after = true ↔ Linked lines before after := by
  rw [linked, Bool.and_eq_true, beq_iff_eq, List.all_eq_true, Linked]
  apply and_congr_right
  intro _
  constructor
  · intro filled number line low high present
    obtain ⟨inside, rfl⟩ := List.getElem?_eq_some_iff.mp present
    have short : number < (lines.take after.line).length := by
      rw [List.length_take]
      omega
    have place : before.line + 1 + (number - (before.line + 1)) = number := by omega
    apply filled
    apply List.mem_drop_iff_getElem.mpr
    exact ⟨number - (before.line + 1), by omega, by simp only [place, List.getElem_take]⟩
  · intro filled line member
    obtain ⟨offset, inside, rfl⟩ := List.mem_drop_iff_getElem.mp member
    rw [List.length_take] at inside
    rw [List.getElem_take]
    exact filled _ _ (by omega) (by omega) (List.getElem?_eq_getElem (by omega))

theorem standsIn_iff (answer : stepLevelLines lines opening closing = .ok levels) :
    entrance ∈ levels.filterMap (entranceAt? lines) ↔
      entrance.StandsIn lines opening closing := by
  rw [List.mem_filterMap, Entrance.StandsIn]
  constructor
  · intro found
    obtain ⟨number, level, read⟩ := found
    obtain ⟨rfl, line, present, read⟩ := entranceAt?_eq_some.mp read
    exact ⟨((stepLevelLines_ok answer).2 _).mp level, line, present, readEntrance?_iff.mp read⟩
  · intro stands
    obtain ⟨level, line, present, spells⟩ := stands
    refine ⟨entrance.line, ((stepLevelLines_ok answer).2 _).mpr level, ?_⟩
    exact entranceAt?_eq_some.mpr ⟨rfl, line, present, readEntrance?_iff.mpr spells⟩

end Links

section Parts

variable {α : Type} {joins : α → α → Bool} {list part : List α}

/-- Parts that do not join where they meet do not join as they are flattened. -/
theorem flatten_apart {front back : List (List α)}
    (apart : ∀ upper ∈ front.getLast?, ∀ lower ∈ back.head?,
      ∃ filled filled', joins (upper.getLast filled) (lower.head filled') = false) :
    ∀ last ∈ front.flatten.getLast?, ∀ first ∈ back.flatten.head?, joins last first = false := by
  intro last ends first starts
  rcases List.eq_nil_or_concat front with rfl | ⟨others, upper, rfl⟩
  · cases ends
  · cases back with
    | nil => cases starts
    | cons lower below =>
      obtain ⟨filled, filled', seam⟩ := apart upper (by simp) lower rfl
      rw [List.concat_eq_append, List.flatten_append, List.flatten_singleton,
        List.getLast?_append_of_ne_nil _ filled, List.getLast?_eq_some_getLast filled] at ends
      rw [List.flatten_cons, List.head?_append_of_ne_nil _ filled',
        List.head?_eq_some_head filled'] at starts
      rwa [← Option.some.inj ends, ← Option.some.inj starts]

/-- A list is split into its longest chains: a part is one just when it joins neither what is above
it nor what is below. -/
theorem mem_splitBy_iff : part ∈ list.splitBy joins ↔
    part ≠ [] ∧ part.IsChain (joins · ·) ∧ ∃ above below, list = above ++ part ++ below ∧
      (∀ last ∈ above.getLast?, ∀ first ∈ part.head?, joins last first = false) ∧
      ∀ last ∈ part.getLast?, ∀ first ∈ below.head?, joins last first = false := by
  constructor
  · intro member
    obtain ⟨front, back, split⟩ := List.append_of_mem member
    have whole := List.flatten_splitBy joins list
    have seams := List.isChain_getLast_head_splitBy joins list
    rw [split] at whole seams
    obtain ⟨-, below, above⟩ := List.isChain_append.mp seams
    refine ⟨List.ne_nil_of_mem_splitBy member, List.isChain_of_mem_splitBy member,
      front.flatten, back.flatten, by simpa using whole.symm, ?_, ?_⟩
    · have apart := @flatten_apart α joins front [part] fun upper last lower first =>
        above upper last lower first
      rwa [List.flatten_singleton] at apart
    · have apart := @flatten_apart α joins [part] back fun upper last lower first => by
        obtain rfl := Option.some.inj last
        exact (List.isChain_cons.mp below).1 lower first
      rwa [List.flatten_singleton] at apart
  · intro parts
    obtain ⟨filled, chain, above, below, rfl, upper, lower⟩ := parts
    rw [List.append_assoc, List.splitBy_append, List.splitBy_append lower,
      List.splitBy_of_isChain filled chain]
    · simp
    · intro last ends first starts
      rw [List.head?_append_of_ne_nil _ filled] at starts
      exact upper last ends first starts

end Parts

section Runs

/-- The chains found among entrances are the maximal ones. -/
theorem mem_chainsAmong_iff : run ∈ chainsAmong lines entrances ↔
    MaximalChain lines entrances run := by
  have unlinked (before after : Entrance) :
      linked lines before after = false ↔ ¬ Linked lines before after := by
    rw [← linked_iff, Bool.not_eq_true]
  have joined : run.IsChain (linked lines · ·) ↔ run.IsChain (Linked lines) := by
    simp only [linked_iff]
  rw [chainsAmong, List.mem_filter, mem_splitBy_iff, decide_eq_true_eq, joined]
  simp only [unlinked]
  constructor
  · intro found
    obtain ⟨⟨-, chain, around⟩, long⟩ := found
    exact ⟨long, chain, around⟩
  · intro chain
    exact ⟨⟨List.ne_nil_of_length_pos (by have long := chain.long; omega), chain.linked,
      chain.maximal⟩, chain.long⟩

/-- Chains of entrances from top to bottom lie one below the other. -/
theorem sorted_chainsAmong (sorted : entrances.Pairwise (·.line < ·.line)) :
    (chainsAmong lines entrances).flatten.Pairwise (·.line < ·.line) := by
  have whole := List.flatten_splitBy (linked lines) entrances
  rw [← whole] at sorted
  exact sorted.sublist (List.filter_sublist.flatten)

/-- The runs found at the steps of a record are just the maximal chains of its entrances, from top
to bottom and each entrance once. -/
theorem entranceRuns_maximal (framed : site.Framed) :
    ∃ entrances runs, entranceRuns site.buffer site.steps = .ok runs ∧
      entrances.Pairwise (·.line < ·.line) ∧
      (∀ entrance, entrance ∈ entrances ↔
        entrance.StandsIn site.buffer.lines site.steps.start (site.steps.stop - 1)) ∧
      (∀ run, run ∈ runs ↔ MaximalChain site.buffer.lines entrances run) ∧
      runs.flatten.Pairwise (·.line < ·.line) := by
  obtain ⟨valid, -, order, below, inside⟩ := framed
  obtain ⟨levels, leveled⟩ := @stepLevelLines_defined site.buffer.lines site.steps.start
    (site.steps.stop - 1) (by omega) (by omega)
  have sorted := sorted_entrances site.buffer.lines (stepLevelLines_ok leveled).1
  refine ⟨levels.filterMap (entranceAt? site.buffer.lines),
    runsAmong site.buffer.lines levels, ?_, sorted, ?_, ?_, ?_⟩
  · apply Except.bind_ran.mpr
    refine ⟨(), liftFault_require_ran.mpr valid.2, ?_⟩
    exact Except.bind_ran.mpr ⟨levels, leveled, rfl⟩
  · intro entrance
    exact standsIn_iff leveled
  · intro run
    rw [runsAmong_eq_chainsAmong]
    exact mem_chainsAmong_iff
  · rw [runsAmong_eq_chainsAmong]
    exact sorted_chainsAmong sorted

/-- Entrances parted by another directive and by the side, and a last one without its comma. -/
def paradeSite : Site := ⟨⟨["const A = \x7b", "id: 'a',", "steps: [", "...ENTER_FROM_LEFT('a'),",
  "  // two", "...ENTER_FROM_LEFT( 'b' , \"cs-x\" ) ,", "...NARRATOR('x'),",
  "...ENTER_FROM_LEFT('c'),", "...ENTER_FROM_RIGHT('d'),", "", "...ENTER_FROM_RIGHT('e')", "],",
  "\x7d;"], []⟩, ⟨0, 13, 0⟩, ⟨2, 12, 0⟩⟩

def paradeRuns : List (List Entrance) :=
  [[⟨3, .left, "a", "cs-left"⟩, ⟨5, .left, "b", "cs-x"⟩],
    [⟨8, .right, "d", "cs-right"⟩, ⟨10, .right, "e", "cs-right"⟩]]

theorem entranceRuns_maximal_parade :
    paradeSite.Framed ∧ entranceRuns paradeSite.buffer paradeSite.steps = .ok paradeRuns ∧
      ∃ entrances : List Entrance, entrances.Pairwise (·.line < ·.line) ∧
        ⟨7, .left, "c", "cs-left"⟩ ∈ entrances ∧
        (∀ run, run ∈ paradeRuns ↔ MaximalChain paradeSite.buffer.lines entrances run) ∧
        ¬ MaximalChain paradeSite.buffer.lines entrances [⟨7, .left, "c", "cs-left"⟩] := by
  have framed : paradeSite.Framed :=
    ⟨⟨Buffer.isValid_of_current rfl, Buffer.isValid_of_current rfl⟩, by decide, by decide,
      by decide, by decide⟩
  have known : entranceRuns paradeSite.buffer paradeSite.steps = .ok paradeRuns := by rfl
  obtain ⟨entrances, runs, found, sorted, stands, maximal, -⟩ := entranceRuns_maximal framed
  obtain rfl : paradeRuns = runs := Except.ok.inj (known.symm.trans found)
  refine ⟨framed, known, entrances, sorted, ?_, maximal, ?_⟩
  · apply (stands _).mpr
    refine ⟨⟨by decide, by decide, by decide⟩, _, rfl, ?_⟩
    exact readEntrance?_iff.mp (by decide)
  · intro chain
    exact absurd chain.long (by decide)

end Runs

end Stagecraft
