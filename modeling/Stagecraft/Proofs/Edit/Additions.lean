import Stagecraft.Proofs.Edit.FixedRecords

/-!
Applying rows adds lines and changes none. Every line that goes in is the comment of a block or
speaks for a row, and the report counts those that speak, record by record.
-/

namespace Stagecraft

variable {module : String} {rows : List FixRow} {fixes : SpeechFixes} {row : FixRow}
  {old lines : List String} {site after : Site} {bench last : Bench} {report : SpeechReport}
  {located : List (Location × FixRow)} {counts : List (String × Nat)}

/-- A line that goes in for rows. -/
inductive Addition where
  | comment (indent : String)
  | speech (indent : String) (said : Speech)

namespace Addition

def line : Addition → String
  | comment indent => indent ++ dialogueComment
  | speech indent said => speakLine said indent

def speech? : Addition → Option Speech
  | comment _ => none
  | speech _ said => some said

/-- An indented comment, or indented speech of one of the rows. -/
def Asked (rows : List FixRow) : Addition → Prop
  | comment indent => IsIndent indent
  | speech indent said => IsIndent indent ∧ ∃ row ∈ rows, said ∈ row.fixes.speeches

end Addition

/-- How many of the lines speak. -/
def spoken (added : List Addition) : Nat := (added.filterMap Addition.speech?).length

theorem spoken_append (first second : List Addition) :
    spoken (first ++ second) = spoken first + spoken second := by
  rw [spoken, List.filterMap_append, List.length_append, spoken, spoken]

/-- The lines are the old ones, in their order, with further lines among them. -/
structure Grown (rows : List FixRow) (old : List String) (added : List Addition)
    (lines : List String) : Prop where
  woven : Woven old (added.map Addition.line) lines
  asked : ∀ addition ∈ added, addition.Asked rows

/-- The lines grew by additions of which `count` speak. -/
def GrownBy (rows : List FixRow) (old : List String) (count : Nat) (lines : List String) : Prop :=
  ∃ added, Grown rows old added lines ∧ spoken added = count

namespace GrownBy

theorem refl (rows : List FixRow) (old : List String) : GrownBy rows old 0 old := by
  refine ⟨[], ⟨Woven.refl old, ?_⟩, rfl⟩
  intro addition absent
  cases absent

/-- Additions may go in anywhere, also among earlier ones. -/
theorem put {count : Nat} {new : List Addition} (grown : GrownBy rows old count lines) (index : Nat)
    (asked : ∀ addition ∈ new, addition.Asked rows) :
    GrownBy rows old (count + spoken new) (putLines index (new.map Addition.line) lines) := by
  obtain ⟨added, ⟨woven, known⟩, counted⟩ := grown
  rw [← List.take_append_drop index lines] at woven
  obtain ⟨before, behind, split, woven'⟩ := woven.put (new.map Addition.line)
  obtain ⟨front, back, parts, named, named'⟩ := List.map_eq_append_iff.mp split
  rw [← named, ← named', ← List.map_append, ← List.map_append] at woven'
  refine ⟨front ++ new ++ back, ⟨woven', ?_⟩, ?_⟩
  · intro addition member
    rw [List.append_assoc, List.mem_append, List.mem_append] at member
    rcases member with early | fresh | late
    · exact known addition (by rw [parts]; exact List.mem_append_left back early)
    · exact asked addition fresh
    · exact known addition (by rw [parts]; exact List.mem_append_right front late)
  · rw [parts, spoken_append] at counted
    rw [spoken_append, spoken_append]
    omega

end GrownBy

section Steps

variable {count total : Nat}

/-- The block of dialogue is a comment and a line for each speech. -/
theorem dialogueBlock_eq (missing : List Speech) (indent : String) :
    dialogueBlock missing indent =
      (.comment indent :: missing.map (Addition.speech indent)).map Addition.line := by
  rw [dialogueBlock, List.map_cons, List.map_map]
  rfl

theorem spoken_block (missing : List Speech) (indent : String) :
    spoken (.comment indent :: missing.map (Addition.speech indent)) = missing.length := by
  have each : Addition.speech? ∘ Addition.speech indent = some := rfl
  rw [spoken, List.filterMap_cons, Addition.speech?, List.filterMap_map, each,
    List.filterMap_some]

theorem insertDialogue_grows (member : row ∈ rows)
    (ran : insertDialogue row.fixes site = .ok count after)
    (grown : GrownBy rows old total site.buffer.lines) :
    GrownBy rows old (total + count) after.buffer.lines := by
  obtain ⟨point, indent, missing, -, blank, sought, counted, moved⟩ := insertDialogue_ran ran
  rw [moved, counted]
  split
  · next none =>
    rw [none]
    exact grown
  · have fresh : ∀ addition ∈ Addition.comment indent :: missing.map (Addition.speech indent),
        addition.Asked rows := by
      intro addition there
      rcases List.mem_cons.mp there with rfl | there
      · exact blank
      · obtain ⟨speech, silent, rfl⟩ := List.mem_map.mp there
        have given := (missingSpeeches_sublist sought).subset silent
        exact ⟨blank, row, member, List.mem_append_left _ given⟩
    have more := grown.put point fresh
    rw [← dialogueBlock_eq, spoken_block] at more
    exact more

theorem insertOpening_grows {opening : Speech} (member : row ∈ rows)
    (given : row.fixes.opening = some opening)
    (ran : insertOpening opening site = .ok count after)
    (grown : GrownBy rows old total site.buffer.lines) :
    GrownBy rows old (total + count) after.buffer.lines := by
  obtain ⟨answer, -, ⟨rfl, rfl, -⟩ | ⟨rfl, below, indent, -, blank, -, rfl⟩⟩ :=
    insertOpening_ran ran
  · exact grown
  · have fresh : ∀ addition ∈ [Addition.speech indent opening], addition.Asked rows := by
      intro addition there
      rw [List.mem_singleton.mp there]
      refine ⟨blank, row, member, List.mem_append_right _ ?_⟩
      rw [given]
      exact List.mem_singleton_self opening
    exact grown.put below fresh

theorem applyRow_grows (member : row ∈ rows) (ran : applyRow row.fixes site = .ok count after)
    (grown : GrownBy rows old total site.buffer.lines) :
    GrownBy rows old (total + count) after.buffer.lines := by
  obtain ⟨dialogue, middle, first, rest⟩ := applyRow_ran ran
  have block := insertDialogue_grows member first grown
  rcases rest with ⟨-, rfl, rfl⟩ | ⟨opening, more, given, second, rfl⟩
  · exact block
  · rw [← Nat.add_assoc]
    exact insertOpening_grows member given second block

/-- A run over rows grows the lines by as much as it counts. -/
theorem applyRows_grows (members : ∀ pair ∈ located, pair.2 ∈ rows)
    (ran : applyRows located bench = .ok counts last)
    (grown : GrownBy rows old total bench.buffer.lines) :
    GrownBy rows old (total + sumOf (·.2) counts) last.buffer.lines := by
  induction located generalizing bench counts total with
  | nil =>
    obtain ⟨rfl, rfl⟩ := pure_ran.mp ran
    exact grown
  | cons first rest ih =>
    obtain ⟨location, row⟩ := first
    obtain ⟨_, _, count, place, others, -, -, worked, ⟨log, later⟩, same⟩ := applyRows_cons_ran ran
    have here := applyRow_grows (members _ (List.mem_cons_self ..)) worked grown
    have whole := ih (fun pair member => members pair (List.mem_cons_of_mem _ member)) later here
    have sum : sumOf (·.2) counts = count + sumOf (·.2) others := by
      rw [same]
      split
      · rfl
      · next zero => omega
    rw [sum, ← Nat.add_assoc]
    exact whole

/-- A run that counts nothing leaves the buffer. -/
theorem applyRows_silent (ran : applyRows located bench = .ok counts last)
    (none : sumOf (·.2) counts = 0) : last.buffer = bench.buffer := by
  induction located generalizing bench counts with
  | nil =>
    obtain ⟨-, rfl⟩ := pure_ran.mp ran
    rfl
  | cons first rest ih =>
    obtain ⟨location, row⟩ := first
    obtain ⟨_, _, count, place, others, -, -, worked, ⟨log, later⟩, same⟩ := applyRows_cons_ran ran
    have zero : count = 0 := by
      by_contra positive
      rw [same, if_pos positive, sumOf] at none
      omega
    subst zero
    obtain ⟨-, rfl⟩ := applyRow_silent worked
    rw [same] at none
    have left : last.buffer = (Bench.mk bench.buffer log).buffer := ih later none
    exact left

end Steps

section Totals

/-- The first record has all that is counted for it, and the others are counted without it. -/
theorem countByRecord_cons (id : String) (count : Nat) (rest : List (String × Nat)) :
    countByRecord ((id, count) :: rest) =
      (id, count + sumOf (·.2) (rest.filter (·.1 == id))) ::
        countByRecord (rest.filter (!·.1 == id)) := by
  rw [countByRecord, List.map_cons, List.eraseDups_cons, List.map_cons, countByRecord]
  congr 1
  · rw [List.filter_cons]
    simp [sumOf]
  · rw [List.filter_map]
    apply List.map_congr_left
    intro other member
    have foreign : other ≠ id := by
      rw [List.mem_eraseDups, List.mem_map] at member
      obtain ⟨entry, kept, rfl⟩ := member
      simpa using (List.mem_filter.mp kept).2
    have passed : (id == other) = false := beq_eq_false_iff_ne.mpr (Ne.symm foreign)
    have same : rest.filter (·.1 == other) =
        (rest.filter (!·.1 == id)).filter (·.1 == other) := by
      rw [List.filter_filter]
      apply List.filter_congr
      intro entry _
      by_cases named : entry.1 = other
      · simp [named, foreign]
      · simp [named]
    rw [List.filter_cons, passed, if_neg (by decide), same]

/-- The totals of the records add up to that of the run. -/
theorem sumOf_countByRecord (counts : List (String × Nat)) :
    sumOf (·.2) (countByRecord counts) = sumOf (·.2) counts := by
  induction size : counts.length using Nat.strongRecOn generalizing counts with
  | _ size' ih =>
    cases counts with
    | nil => rfl
    | cons first rest =>
      have fewer : (rest.filter (!·.1 == first.1)).length < size' := by
        have kept := List.length_filter_le (!·.1 == first.1) rest
        rw [← size, List.length_cons]
        omega
      have parts := List.filter_append_perm (·.1 == first.1) rest
      have others := ih _ fewer _ rfl
      rw [countByRecord_cons, sumOf, others, sumOf, ← sumOf_perm parts, sumOf_append]
      omega

end Totals

theorem importAdded_of_silent (ran : applyFixes module rows bench = .ok report last)
    (none : report.inserted = 0) : report.importAdded = false := by
  simp only [applyFixes, get_bind_ran] at ran
  obtain ⟨counts, middle, -, ran⟩ := bind_ran.mp ran
  by_cases zero : sumOf (·.2) counts = 0
  · simp only [zero, ne_eq, not_true_eq_false, if_false] at ran
    cases ran
    rfl
  · simp only [zero, ne_eq, not_false_eq_true, if_true] at ran
    cases ran
    exact absurd none zero

/-- Applying rows only inserts, and the report counts what was inserted. The import is left to the
end, and is there only if anything went in. -/
theorem applyFixes_adds (ran : applyFixes module rows bench = .ok report last) :
    ∃ counts middle added,
      applyRows (bottomUp (locateRows bench.buffer rows).1) bench = .ok counts middle ∧
      Grown rows bench.buffer.lines added middle.buffer.lines ∧
      spoken added = report.inserted ∧ sumOf (·.2) report.records = report.inserted ∧
      (report.inserted ≠ 0 →
        last.buffer = (ensureImport middle.buffer speakDirective module).1) ∧
      (report.inserted = 0 → last.buffer = bench.buffer ∧ report.importAdded = false) := by
  obtain ⟨counts, middle, worked, total, records, same⟩ := applyFixes_ran ran
  have members : ∀ pair ∈ bottomUp (locateRows bench.buffer rows).1, pair.2 ∈ rows :=
    fun pair member => (mem_locateRows.mp (mem_bottomUp.mp member)).1
  obtain ⟨added, grown, counted⟩ := applyRows_grows members worked (.refl rows _)
  rw [Nat.zero_add, ← total] at counted
  refine ⟨counts, middle, added, worked, grown, counted, ?_, ?_, ?_⟩
  · rw [records, sumOf_countByRecord, total]
  · intro some'
    rw [same, if_neg (by rwa [← total])]
  · intro none
    rw [total] at none
    rw [same, if_pos none]
    exact ⟨applyRows_silent worked none, importAdded_of_silent ran (total.trans none)⟩

theorem applyFixes_adds_scene : ∃ report last counts middle added,
    applyFixes templateModule [queenRow] ⟨scene, []⟩ = .ok report last ∧
      applyRows (bottomUp (locateRows scene [queenRow]).1) ⟨scene, []⟩ = .ok counts middle ∧
      Grown [queenRow] scene.lines added middle.buffer.lines ∧ spoken added = 2 ∧
      report.records = [("a", 2)] ∧ sumOf (·.2) report.records = report.inserted ∧
      last.buffer = (ensureImport middle.buffer speakDirective templateModule).1 := by
  have answer : (fixed? [queenRow] scene).map (fun left => (left.1, left.2.1)) =
      some ([("a", 2)], true) := by decide +kernel
  obtain ⟨⟨records, clean, left⟩, fixed, same⟩ := Option.map_eq_some_iff.mp answer
  obtain ⟨report, last, ran, counted, -, -⟩ := fixed?_eq_some fixed
  obtain ⟨rfl, rfl⟩ := Prod.mk.inj same
  obtain ⟨counts, middle, added, worked, grown, spoke, total, imported, -⟩ := applyFixes_adds ran
  have two : report.inserted = 2 := by
    rw [← total, counted]
    rfl
  exact ⟨report, last, counts, middle, added, ran, worked, grown, spoke.trans two, counted, total,
    imported (by rw [two]; decide)⟩

end Stagecraft
