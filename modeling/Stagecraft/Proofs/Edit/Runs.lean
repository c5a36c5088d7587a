import Mathlib.Data.List.SplitBy
import Stagecraft.Edit.Entrance
import Stagecraft.Proofs.Edit.Imports
import Stagecraft.Proofs.Edit.Steps
import Stagecraft.Proofs.Record.Level

/-!
Runs of entrances. A run takes up lines of the steps, one below the other, each of which is one of
its entrances or a filler; runs do not overlap. They depend on the lines down to the end of the
steps only.
-/

namespace Stagecraft

variable {lines others : List String} {levels : List Nat} {run : List Entrance}
  {runs : List (List Entrance)} {entrance before : Entrance} {buffer : Buffer} {steps : Span}

def Entrance.call (entrance : Entrance) : Side × String × String :=
  (entrance.side, entrance.character, entrance.target)

/-- The first line of a run. -/
def startOf (run : List Entrance) : Nat := (run.head?.map (·.line)).getD 0

/-- The line behind the last one of a run. -/
def stopOf (run : List Entrance) : Nat := (run.getLast?.map (·.line + 1)).getD 0

def runLines (lines : List String) (run : List Entrance) : List String :=
  (lines.take (stopOf run)).drop (startOf run)

theorem startOf_eq_head (filled : run ≠ []) : startOf run = (run.head filled).line := by
  rw [startOf, List.head?_eq_some_head filled]
  rfl

theorem stopOf_eq_getLast (filled : run ≠ []) : stopOf run = (run.getLast filled).line + 1 := by
  rw [stopOf, List.getLast?_eq_some_getLast filled]
  rfl

/-- Entrances from top to bottom, with nothing but fillers between them. -/
structure IsRun (lines : List String) (run : List Entrance) : Prop where
  filled : run ≠ []
  read : ∀ entrance ∈ run, entranceAt? lines entrance.line = some entrance
  sorted : run.Pairwise (·.line < ·.line)
  chain : run.IsChain (linked lines · ·)

theorem entranceAt?_eq_some {number : Nat} :
    entranceAt? lines number = some entrance ↔ entrance.line = number ∧
      ∃ line, lines[number]? = some line ∧ readEntrance? line = some entrance.call := by
  rw [entranceAt?]
  constructor
  · intro read
    obtain ⟨line, present, read⟩ := Option.bind_eq_some_iff.mp read
    obtain ⟨⟨side, character, target⟩, known, made⟩ := Option.bind_eq_some_iff.mp read
    cases made
    exact ⟨rfl, line, present, known⟩
  · intro both
    obtain ⟨rfl, line, present, known⟩ := both
    rw [present, Option.bind_eq_bind, Option.bind_some, known]
    rfl

namespace IsRun

theorem start_lt_stop (isRun : IsRun lines run) : startOf run < stopOf run := by
  obtain ⟨first, rest, rfl⟩ := List.exists_cons_of_ne_nil isRun.filled
  have least := List.pairwise_cons.mp isRun.sorted
  rw [startOf_eq_head isRun.filled, stopOf_eq_getLast isRun.filled, List.head_cons]
  rcases List.mem_cons.mp (List.getLast_mem isRun.filled) with same | later
  · rw [same]
    exact Nat.lt_succ_self _
  · exact Nat.lt_succ_of_lt (least.1 _ later)

theorem tail {first second : Entrance} {rest : List Entrance}
    (isRun : IsRun lines (first :: second :: rest)) : IsRun lines (second :: rest) := by
  constructor
  · exact List.cons_ne_nil second rest
  · intro entrance member
    exact isRun.read entrance (List.mem_cons_of_mem _ member)
  · exact (List.pairwise_cons.mp isRun.sorted).2
  · exact (List.isChain_cons_cons.mp isRun.chain).2

theorem stop_le (isRun : IsRun lines run) : stopOf run ≤ lines.length := by
  have last := isRun.read _ (List.getLast_mem isRun.filled)
  obtain ⟨-, line, present, -⟩ := entranceAt?_eq_some.mp last
  rw [stopOf_eq_getLast isRun.filled]
  exact (List.getElem?_eq_some_iff.mp present).1

/-- All entrances of a run are from one side. -/
theorem side_eq {first : Entrance} {rest : List Entrance} (isRun : IsRun lines (first :: rest)) :
    ∀ entrance ∈ first :: rest, entrance.side = first.side := by
  induction rest generalizing first with
  | nil =>
    intro entrance member
    rw [List.mem_singleton.mp member]
  | cons second rest ih =>
    have joined := (List.isChain_cons_cons.mp isRun.chain).1
    rw [linked, Bool.and_eq_true, beq_iff_eq] at joined
    intro entrance member
    rcases List.mem_cons.mp member with rfl | later
    · rfl
    · rw [ih isRun.tail entrance later, joined.1]

end IsRun

theorem isComment_starts {line : String} (comment : isComment line = true) :
    ∃ rest, skipBlanks line.toList = '/' :: '/' :: rest := by
  rw [isComment, startsWith, List.isPrefixOf_iff_prefix, strip,
    stripBlanks] at comment
  obtain ⟨rest, split⟩ := comment
  obtain ⟨gone, whole, -⟩ := dropEndBlanks_split (skipBlanks line.toList)
  simp only [String.toList_ofList] at split
  refine ⟨rest ++ gone, ?_⟩
  rw [whole, ← split]
  rfl

theorem readEntrance?_filler {line : String} (filler : isFiller line = true) :
    readEntrance? line = none := by
  have none : afterWord? "...ENTER_FROM_" (skipBlanks line.toList) = none := by
    rw [isFiller, Bool.or_eq_true] at filler
    rcases filler with blank | comment
    · have empty : skipBlanks line.toList = [] := by
        rw [skipBlanks, List.dropWhile_eq_nil_iff]
        exact List.all_eq_true.mp blank
      rw [empty]
      rfl
    · obtain ⟨rest, starts⟩ := isComment_starts comment
      rw [starts]
      exact after?_head_ne (by decide)
  rw [readEntrance?, none]
  rfl

section Lines

variable {first second : Entrance} {rest : List Entrance}

theorem startOf_cons : startOf (first :: rest) = first.line := rfl

theorem stopOf_cons : stopOf (first :: second :: rest) = stopOf (second :: rest) := by
  rw [stopOf, stopOf, List.getLast?_cons_cons]

/-- The line of the first entrance of a run. -/
theorem IsRun.first_line (isRun : IsRun lines (first :: rest)) :
    ∃ line, lines[first.line]? = some line ∧ readEntrance? line = some first.call :=
  (entranceAt?_eq_some.mp (isRun.read first (by simp))).2

theorem mem_runLines {number : Nat} (low : startOf run ≤ number) (high : number < stopOf run)
    (within : number < lines.length) : lines[number] ∈ runLines lines run := by
  have inside : number < (lines.take (stopOf run)).length := by
    rw [List.length_take]
    omega
  have place : startOf run + (number - startOf run) = number := Nat.add_sub_cancel' low
  have here : (lines.take (stopOf run))[number] ∈ runLines lines run :=
    List.mem_drop_iff_getElem.mpr ⟨number - startOf run, by omega, by simp only [place]⟩
  rwa [List.getElem_take] at here

theorem runLines_singleton (isRun : IsRun lines [first]) :
    ∃ line, runLines lines [first] = [line] ∧ readEntrance? line = some first.call := by
  obtain ⟨line, present, read⟩ := isRun.first_line
  obtain ⟨low, rfl⟩ := List.getElem?_eq_some_iff.mp present
  refine ⟨_, ?_, read⟩
  have stop : stopOf [first] = first.line + 1 := rfl
  have front : (lines.take first.line).length = first.line := List.length_take_of_le (by omega)
  rw [runLines, startOf_cons, stop, List.take_succ_eq_append_getElem low, List.drop_left' front]

/-- The lines of a run: its first entrance, fillers, and those of the rest. -/
theorem runLines_cons (isRun : IsRun lines (first :: second :: rest)) :
    ∃ line fillers, runLines lines (first :: second :: rest) =
        line :: (fillers ++ runLines lines (second :: rest)) ∧
      readEntrance? line = some first.call ∧ ∀ filler ∈ fillers, isFiller filler = true := by
  obtain ⟨line, present, read⟩ := isRun.first_line
  obtain ⟨low, rfl⟩ := List.getElem?_eq_some_iff.mp present
  have joined := (List.isChain_cons_cons.mp isRun.chain).1
  rw [linked, Bool.and_eq_true, List.all_eq_true] at joined
  have order : first.line < second.line := (List.pairwise_cons.mp isRun.sorted).1 second (by simp)
  have ends := isRun.tail.start_lt_stop
  rw [startOf_cons] at ends
  refine ⟨_, (lines.take second.line).drop (first.line + 1), ?_, read, joined.2⟩
  have inside : first.line < (lines.take (stopOf (second :: rest))).length := by
    have all := isRun.tail.stop_le
    rw [List.length_take]
    omega
  calc
    runLines lines (first :: second :: rest) =
        (lines.take (stopOf (second :: rest))).drop first.line := by
      rw [runLines, stopOf_cons, startOf_cons]
    _ = lines[first.line] :: (lines.take (stopOf (second :: rest))).drop (first.line + 1) := by
      rw [List.drop_eq_getElem_cons inside, List.getElem_take]
    _ = _ := by
      have parts := List.take_append_drop (second.line - (first.line + 1))
        ((lines.take (stopOf (second :: rest))).drop (first.line + 1))
      rw [← parts, List.drop_drop, List.take_drop, List.take_take, Nat.min_eq_left (by omega),
        show first.line + 1 + (second.line - (first.line + 1)) = second.line by omega, runLines,
        startOf_cons]

end Lines

/-- What the lines of a run hold is the run. -/
theorem IsRun.content (isRun : IsRun lines run) :
    (runLines lines run).filterMap readEntrance? = run.map Entrance.call ∧
      ∀ line ∈ runLines lines run, (readEntrance? line).isSome ∨ isFiller line = true := by
  induction run with
  | nil => exact absurd rfl isRun.filled
  | cons first rest ih =>
    cases rest with
    | nil =>
      obtain ⟨line, whole, read⟩ := runLines_singleton isRun
      rw [whole]
      constructor
      · rw [List.filterMap_cons_some read]
        rfl
      · intro other member
        rw [List.mem_singleton.mp member, read]
        exact .inl rfl
    | cons second rest =>
      obtain ⟨line, fillers, whole, read, between⟩ := runLines_cons isRun
      obtain ⟨others, each⟩ := ih isRun.tail
      have none : fillers.filterMap readEntrance? = [] := by
        apply List.filterMap_eq_nil_iff.mpr
        exact fun filler member => readEntrance?_filler (between filler member)
      rw [whole]
      constructor
      · rw [List.filterMap_cons_some read, List.filterMap_append, none, others]
        rfl
      · intro other member
        rcases List.mem_cons.mp member with rfl | later
        · rw [read]
          exact .inl rfl
        · rcases List.mem_append.mp later with filler | later
          · exact .inr (between other filler)
          · exact each other later

section Found

theorem sorted_entrances (lines : List String) (sorted : levels.Pairwise (· < ·)) :
    (levels.filterMap (entranceAt? lines)).Pairwise (·.line < ·.line) := by
  apply sorted.filterMap
  intro number next order entrance read other read'
  rw [(entranceAt?_eq_some.mp read).1, (entranceAt?_eq_some.mp read').1]
  exact order

/-- The runs among step-level lines are runs, one above the other. -/
theorem isRun_of_runsAmong (lines : List String) (sorted : levels.Pairwise (· < ·)) :
    (∀ run ∈ runsAmong lines levels, 2 ≤ run.length ∧ IsRun lines run ∧
        ∀ entrance ∈ run, entrance.line ∈ levels) ∧
      (runsAmong lines levels).Pairwise fun above below => stopOf above ≤ startOf below := by
  have whole := List.flatten_splitBy (linked lines) (levels.filterMap (entranceAt? lines))
  have order := sorted_entrances lines sorted
  rw [← whole, List.pairwise_flatten] at order
  have filled {part : List Entrance}
      (member : part ∈ (levels.filterMap (entranceAt? lines)).splitBy (linked lines)) : part ≠ [] :=
    List.ne_nil_of_mem_splitBy member
  constructor
  · intro run member
    obtain ⟨part, long⟩ := List.mem_filter.mp member
    have known : ∀ entrance ∈ run, ∃ number ∈ levels,
        entranceAt? lines number = some entrance := by
      intro entrance present
      have among := List.mem_flatten.mpr ⟨run, part, present⟩
      rw [whole] at among
      exact List.mem_filterMap.mp among
    refine ⟨of_decide_eq_true long, ⟨filled part, ?_, order.1 run part, ?_⟩, ?_⟩
    · intro entrance present
      obtain ⟨number, -, read⟩ := known entrance present
      rwa [(entranceAt?_eq_some.mp read).1]
    · exact List.isChain_of_mem_splitBy part
    · intro entrance present
      obtain ⟨number, level, read⟩ := known entrance present
      rwa [(entranceAt?_eq_some.mp read).1]
  · apply List.Pairwise.sublist List.filter_sublist
    apply order.2.imp_of_mem
    intro above below member member' apart
    obtain ⟨first, rest, rfl⟩ := List.exists_cons_of_ne_nil (filled member')
    rw [stopOf_eq_getLast (filled member), startOf_cons]
    exact apart _ (List.getLast_mem (filled member)) first (by simp)

/-- What is found at the steps of a record are runs among their lines. -/
theorem entranceRuns_ok (found : entranceRuns buffer steps = .ok runs) :
    buffer.isValid steps = true ∧ (∀ run ∈ runs, 2 ≤ run.length ∧ IsRun buffer.lines run ∧
        steps.start < startOf run ∧ stopOf run < steps.stop) ∧
      runs.Pairwise fun above below => stopOf above ≤ startOf below := by
  obtain ⟨_, valid, found⟩ := Except.bind_ran.mp found
  obtain ⟨levels, level, made⟩ := Except.bind_ran.mp found
  simp only [pure, Except.pure, Except.ok.injEq] at made
  subst made
  obtain ⟨sorted, member⟩ := stepLevelLines_ok level
  obtain ⟨each, apart⟩ := isRun_of_runsAmong buffer.lines sorted
  refine ⟨liftFault_require_ran.mp valid, ?_, apart⟩
  intro run present
  obtain ⟨long, isRun, inside⟩ := each run present
  have first := (member _).mp (inside _ (List.head_mem isRun.filled))
  have last := (member _).mp (inside _ (List.getLast_mem isRun.filled))
  refine ⟨long, isRun, ?_, ?_⟩
  · rw [startOf_eq_head isRun.filled]
    exact first.1
  · rw [stopOf_eq_getLast isRun.filled]
    have low := last.2.1
    omega

end Found

section Above

variable {place : Nat}

theorem splitBy_congr {α : Type} {r s : α → α → Bool} {list : List α}
    (same : ∀ a ∈ list, ∀ b ∈ list, r a b = s a b) : list.splitBy r = list.splitBy s := by
  have inside {part : List α} (member : part ∈ list.splitBy s) {a : α} (present : a ∈ part) :
      a ∈ list := by
    rw [← List.flatten_splitBy s list]
    exact List.mem_flatten.mpr ⟨part, member, present⟩
  refine List.splitBy_eq_iff.mpr ⟨(List.flatten_splitBy s list).symm,
    List.nil_notMem_splitBy s list, ?_, ?_⟩
  · intro part member
    apply (List.isChain_of_mem_splitBy member).imp_of_mem_imp
    intro a b here there joined
    rwa [same a (inside member here) b (inside member there)]
  · apply (List.isChain_getLast_head_splitBy s list).imp_of_mem_imp
    intro upper lower here there apart
    obtain ⟨filled, filled', parted⟩ := apart
    refine ⟨filled, filled', ?_⟩
    rwa [same _ (inside here (List.getLast_mem filled)) _ (inside there (List.head_mem filled'))]

theorem stepLevelLines_take {opening closing : Nat} (low : opening < place)
    (high : closing ≤ place) :
    stepLevelLines (lines.take place) opening closing = stepLevelLines lines opening closing := by
  have bound : closing ≤ (lines.take place).length ↔ closing ≤ lines.length := by
    rw [List.length_take]
    omega
  rw [stepLevelLines, stepLevelLines, List.getElem?_take_of_lt low, List.take_take,
    Nat.min_eq_left high]
  simp only [bound]

theorem runsAmong_take (above : ∀ level ∈ levels, level < place) :
    runsAmong (lines.take place) levels = runsAmong lines levels := by
  have each : levels.filterMap (entranceAt? (lines.take place)) =
      levels.filterMap (entranceAt? lines) := by
    apply List.filterMap_congr
    intro level member
    rw [entranceAt?, entranceAt?, List.getElem?_take_of_lt (above level member)]
  rw [runsAmong, runsAmong, each]
  congr 1
  apply splitBy_congr
  intro first _ second member
  obtain ⟨level, present, read⟩ := List.mem_filterMap.mp member
  have low : second.line ≤ place := by
    rw [(entranceAt?_eq_some.mp read).1]
    exact Nat.le_of_lt (above level present)
  rw [linked, linked, List.take_take, Nat.min_eq_left low]

/-- Runs depend on the lines down to the end of the steps only. -/
theorem entranceRuns_congr {other : Buffer} (order : steps.start < steps.stop)
    (valid : other.isValid steps = true)
    (same : other.lines.take steps.stop = buffer.lines.take steps.stop)
    (found : entranceRuns buffer steps = .ok runs) : entranceRuns other steps = .ok runs := by
  obtain ⟨_, -, found⟩ := Except.bind_ran.mp found
  obtain ⟨levels, level, made⟩ := Except.bind_ran.mp found
  simp only [pure, Except.pure, Except.ok.injEq] at made
  subst made
  have above : ∀ number ∈ levels, number < steps.stop := by
    intro number member
    have inside := ((stepLevelLines_ok level).2 number).mp member
    exact Nat.lt_of_lt_of_le inside.2.1 (Nat.sub_le _ 1)
  have level' : stepLevelLines other.lines steps.start (steps.stop - 1) = .ok levels := by
    rw [← stepLevelLines_take order (Nat.sub_le _ 1), same,
      stepLevelLines_take order (Nat.sub_le _ 1), level]
  refine Except.bind_ran.mpr ⟨(), liftFault_require_ran.mpr valid, Except.bind_ran.mpr ?_⟩
  refine ⟨levels, level', ?_⟩
  rw [← runsAmong_take above, same, runsAmong_take above]
  rfl

end Above

end Stagecraft
