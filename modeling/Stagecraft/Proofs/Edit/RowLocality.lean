import Stagecraft.Proofs.Edit.Inset
import Stagecraft.Proofs.Edit.Locality

/-!
Rows are local to their records. Where the records of a sheet's rows are apart, each of them is left
as its row leaves it when it stands alone, no record has to be located again, and the order of the
rows makes no difference.
-/

namespace Stagecraft

variable {module : String} {buffer first : Buffer} {bench : Bench} {rows order : List FixRow}
  {pair : Location × FixRow} {todo done located : List (Location × FixRow)} {steps : Span}
  {location : Location} {id : String} {bound low : Nat}

/-- A row at its record in a buffer that holds nothing else. -/
def rowAlone (buffer : Buffer) (pair : Location × FixRow) :
    EStateM.Result Fault Bench (Location × Nat) :=
  Job.site pair.1.rebased (applyRow pair.2.fixes) ⟨⟨buffer.spanLines pair.1.record, []⟩, []⟩

/-- How many lines of speech the row puts in there. -/
def countAlone (buffer : Buffer) (pair : Location × FixRow) : Nat :=
  match rowAlone buffer pair with
  | .ok (_, count) _ => count
  | .error _ _ => 0

/-- What the row makes of the record. -/
def linesAlone (buffer : Buffer) (pair : Location × FixRow) : List String :=
  match rowAlone buffer pair with
  | .ok _ last => last.buffer.lines
  | .error _ last => last.buffer.lines

/-- The row goes in at the record alone. -/
def GoesAlone (buffer : Buffer) (pair : Location × FixRow) : Prop :=
  ∃ location last, rowAlone buffer pair = .ok (location, countAlone buffer pair) last ∧
    last.buffer.lines = linesAlone buffer pair

section Patches

theorem take_append_slice {lines : List String} {start stop : Nat} (order : start ≤ stop) :
    lines.take start ++ (lines.take stop).drop start = lines.take stop :=
  drop_take_append (Nat.zero_le start) order

/-- The records with what their rows make of them. -/
def patches (first : Buffer) (done : List (Location × FixRow)) : List (Span × List String) :=
  done.map fun pair => (pair.1.record, linesAlone first pair)

theorem replaceSpans_lower {lines : List String} {start middle stop : Nat}
    {spans : List (Span × List String)} (order : start ≤ middle) (inside : middle ≤ stop)
    (below : ∀ one ∈ spans, middle ≤ one.1.start) :
    replaceSpans lines start stop spans =
      (lines.take middle).drop start ++ replaceSpans lines middle stop spans := by
  cases spans with
  | nil => exact (drop_take_append order inside).symm
  | cons one rest =>
    have cut := below one (List.mem_cons_self ..)
    rw [replaceSpans, replaceSpans, ← drop_take_append order cut]
    simp only [List.append_assoc]

/-- How far a run has come: the records that are done lie below a line, all that was edited lies
there too, and above it the lines are as they were. -/
structure Patchwork (first : Buffer) (bound : Nat) (done : List (Location × FixRow))
    (buffer : Buffer) : Prop where
  inside : bound ≤ first.lines.length
  below : ∀ pair ∈ done, bound ≤ pair.1.record.start
  lines : buffer.lines = first.lines.take bound ++
    replaceSpans first.lines bound first.lines.length (patches first done)
  edits : ∃ new, buffer.edits = first.edits ++ new ∧ ∀ line ∈ new, bound ≤ line

namespace Patchwork

theorem begin (first : Buffer) : Patchwork first first.lines.length [] first where
  inside := Nat.le_refl _
  below := List.forall_mem_nil _
  lines := by simp [patches, replaceSpans]
  edits := ⟨[], by simp, List.forall_mem_nil _⟩

theorem below_patches (patchwork : Patchwork first bound done buffer) :
    ∀ one ∈ patches first done, bound ≤ one.1.start := by
  intro one member
  obtain ⟨pair, present, rfl⟩ := List.mem_map.mp member
  exact patchwork.below pair present

theorem lower (patchwork : Patchwork first bound done buffer) (less : low ≤ bound) :
    Patchwork first low done buffer where
  inside := Nat.le_trans less patchwork.inside
  below := fun pair member => Nat.le_trans less (patchwork.below pair member)
  lines := by
    rw [patchwork.lines, replaceSpans_lower less patchwork.inside patchwork.below_patches,
      ← List.append_assoc, take_append_slice less]
  edits := by
    obtain ⟨new, edits, behind⟩ := patchwork.edits
    exact ⟨new, edits, fun line member => Nat.le_trans less (behind line member)⟩

/-- A record above all that was edited is still good. -/
theorem isValid (patchwork : Patchwork first bound done buffer) (sited : Sited first location steps)
    (above : location.record.stop ≤ bound) : buffer.isValid location.record = true := by
  obtain ⟨new, edits, behind⟩ := patchwork.edits
  rw [Buffer.isValid, edits, sited.current, Buffer.revision, List.drop_left, List.all_eq_true]
  intro line member
  exact decide_eq_true (Nat.le_trans above (behind line member))

/-- A record above stands by itself among the lines above it as they were and all that is below. -/
theorem inset (patchwork : Patchwork first bound done buffer) (sited : Sited first location steps)
    (above : location.record.stop ≤ bound) :
    Inset (first.lines.take location.record.start)
      (replaceSpans first.lines location.record.stop first.lines.length (patches first done))
      first.edits ⟨buffer, location.record, steps⟩
      ⟨⟨first.spanLines location.record, []⟩, location.rebased.record,
        steps.rebased location.record.start⟩ := by
  obtain ⟨start, order, stop, ends⟩ := sited.order
  have valid := sited.siteValid (patchwork.isValid sited above)
  have front : (first.lines.take location.record.start).length = location.record.start :=
    List.length_take_of_le (by omega)
  have size := length_spanLines ends
  have lines := (patchwork.lower above).lines
  rw [← take_append_slice (show location.record.start ≤ location.record.stop by omega)] at lines
  have low : location.record.start ≤ bound := by omega
  refine {
    lines, valid, start := ?_, stop := ?_, order := ?_, inside := ?_, first := ?_, last := ?_
    within := ?_, good := ⟨Buffer.isValid_of_current rfl, Buffer.isValid_of_current rfl⟩
    edits := by rw [front]; exact (patchwork.lower low).edits }
  all_goals simp only [Location.rebased, Span.rebased, front, size]
  all_goals omega

/-- The record of a row above is left as the row leaves it alone, and all the rest as it is. -/
theorem visit (patchwork : Patchwork first bound done buffer) (sited : Sited first pair.1 steps)
    (above : pair.1.record.stop ≤ bound) :
    ∃ place, applyRow pair.2.fixes ⟨buffer, pair.1.record, steps⟩ =
        .ok (countAlone first pair) place ∧ GoesAlone first pair ∧
      Patchwork first pair.1.record.start (pair :: done) place.buffer := by
  obtain ⟨start, order, stop, ends⟩ := sited.order
  obtain ⟨count, place, last, ran, ran', inset⟩ :=
    (patchwork.inset sited above).applyRow pair.2.fixes
  have alone : rowAlone first pair = .ok (⟨pair.1.rebased.id, pair.1.rebased.idLine, last.record,
      some last.steps⟩, count) ⟨last.buffer, []⟩ := by
    have stepped : pair.1.rebased.steps = some (steps.rebased pair.1.record.start) := by
      rw [Location.rebased, sited.stepped, Option.map_some]
    simp only [rowAlone, Job.site, stepped, ran']
  have counted : countAlone first pair = count := by rw [countAlone, alone]
  have left : linesAlone first pair = last.buffer.lines := by rw [linesAlone, alone]
  have front : (first.lines.take pair.1.record.start).length = pair.1.record.start :=
    List.length_take_of_le (by omega)
  refine ⟨place, by rw [counted, ran], ⟨_, _, by rw [alone, counted], left.symm⟩, ?_⟩
  refine ⟨by omega, ?_, ?_, ?_⟩
  · intro other member
    rcases List.mem_cons.mp member with rfl | early
    · exact Nat.le_refl _
    · have below := patchwork.below other early
      omega
  · have none : (first.lines.take pair.1.record.start).drop pair.1.record.start = [] :=
      List.drop_eq_nil_of_le (Nat.le_of_eq front)
    have patched : patches first (pair :: done) =
        (pair.1.record, last.buffer.lines) :: patches first done := by
      rw [patches, List.map_cons, left, patches]
    rw [inset.lines, patched, replaceSpans, none, List.nil_append, List.append_assoc]
  · have edits := inset.edits
    rwa [front] at edits

end Patchwork

end Patches

section Run

variable {counts : List (String × Nat)} {last : Bench}

/-- Rows of records further and further up all go in where they were located, each as it does alone. -/
theorem applyRows_local (sited : ∀ pair ∈ todo, ∃ steps, Sited first pair.1 steps)
    (sorted : todo.Pairwise fun lower upper => upper.1.record.stop ≤ lower.1.record.start)
    (above : ∀ pair ∈ todo, pair.1.record.stop ≤ bound)
    (patchwork : Patchwork first bound done bench.buffer) :
    ∃ counts last, applyRows todo bench = .ok counts last ∧
      sumOf (·.2) counts = sumOf (countAlone first) todo ∧
      (∀ pair ∈ todo, GoesAlone first pair) ∧
      ∀ low ≤ bound, (∀ pair ∈ todo, low ≤ pair.1.record.start) →
        Patchwork first low (todo.reverse ++ done) last.buffer := by
  -- The patchwork carries the induction: its line goes up to the start of the record just done,
  -- and the next record lies above it.
  induction todo generalizing bound done bench with
  | nil => exact ⟨[], bench, rfl, rfl, List.forall_mem_nil _, fun low less _ => patchwork.lower less⟩
  | cons pair todo ih =>
    obtain ⟨location, row⟩ := pair
    obtain ⟨upper, sorted⟩ := List.pairwise_cons.mp sorted
    obtain ⟨steps, here⟩ := sited _ (List.mem_cons_self ..)
    have high := above _ (List.mem_cons_self ..)
    obtain ⟨place, worked, alone, next⟩ := patchwork.visit here high
    have known : refreshed bench.buffer location row.id = .ok location :=
      refreshed_of_valid (patchwork.isValid here high)
    let log := talliedLog row.id (countAlone first (location, row)) bench.log
    obtain ⟨counts, last, ran, total, others, rest⟩ := @ih ⟨place.buffer, log⟩ _ _
      (fun other member => sited other (List.mem_cons_of_mem _ member)) sorted upper next
    have whole : applyRows ((location, row) :: todo) bench = _ :=
      (applyRows_cons_eq known here.stepped worked).trans (bind_pure_ran.mpr ⟨counts, ran, rfl⟩)
    refine ⟨_, last, whole, ?_, List.forall_mem_cons.mpr ⟨alone, others⟩, ?_⟩
    · rw [sumOf, ← total]
      split
      · rfl
      · next none => rw [Decidable.not_not.mp none, Nat.zero_add]
    · intro low _ lower
      obtain ⟨own, later⟩ := List.forall_mem_cons.mp lower
      rw [List.reverse_cons, List.append_assoc, List.singleton_append]
      exact rest low own later

end Run

section Order

theorem bottomUp_perm : (bottomUp located).Perm located :=
  List.mergeSort_perm _ _

theorem sited_of_located (member : pair ∈ (locateRows buffer rows).1) :
    ∃ steps, Sited buffer pair.1 steps := by
  obtain ⟨found, stepped⟩ := fresh_bottomUp buffer rows pair (mem_bottomUp.mpr member)
  obtain ⟨steps, known⟩ := Option.isSome_iff_exists.mp stepped
  exact ⟨steps, sited_of_locate found known⟩

/-- Records that are apart are worked on strictly from the bottom up. -/
theorem sorted_of_disjoint (disjoint : Disjoint ((locateRows buffer rows).1.map (·.1))) :
    (bottomUp (locateRows buffer rows).1).Pairwise fun lower upper =>
      upper.1.record.stop ≤ lower.1.record.start := by
  have apart := List.pairwise_map.mp disjoint
  have apart' := (bottomUp_perm.pairwise_iff fun free => free.symm).mpr apart
  refine (apart'.and (sorted_bottomUp _)).imp_of_mem ?_
  rintro lower upper member - ⟨free, order⟩
  obtain ⟨steps, sited⟩ := sited_of_located (mem_bottomUp.mp member)
  have spans := sited.order
  omega

/-- The order of the work does not depend on the order of the rows. -/
theorem bottomUp_of_perm (disjoint : Disjoint ((locateRows buffer rows).1.map (·.1)))
    (same : order.Perm rows) :
    bottomUp (locateRows buffer order).1 = bottomUp (locateRows buffer rows).1 := by
  have located : (locateRows buffer order).1.Perm (locateRows buffer rows).1 := by
    rw [locateRows_eq, locateRows_eq]
    exact same.filterMap _
  have disjoint' : Disjoint ((locateRows buffer order).1.map (·.1)) :=
    ((located.map _).pairwise_iff fun free => free.symm).mpr disjoint
  have sorted := bottomUp_perm.trans (located.trans bottomUp_perm.symm)
  -- No record is empty, so no two of them come each before the other.
  refine sorted.eq_of_pairwise ?_ (sorted_of_disjoint disjoint') (sorted_of_disjoint disjoint)
  intro one other member member' above below
  obtain ⟨_, sited⟩ := sited_of_located (mem_bottomUp.mp member)
  obtain ⟨_, sited'⟩ := sited_of_located (mem_bottomUp.mp member')
  have spans := sited.order
  have spans' := sited'.order
  omega

end Order

section Whole

variable {issues : List Issue} {counts : List (String × Nat)} {report : SpeechReport}
  {last middle : Bench}

/-- The buffer with the speaking directive imported if any speech went in, and whether a line was
added for it. -/
def imported (module : String) (inserted : Nat) (buffer : Buffer) : Buffer × Bool :=
  if inserted = 0 then (buffer, false)
  else
    let (buffer, outcome) := ensureImport buffer speakDirective module
    (buffer, outcome = .added)

theorem reportOn_ran (told : reportOn module issues counts middle = .ok report last) :
    report.inserted = sumOf (·.2) counts ∧
      (last.buffer, report.importAdded) = imported module report.inserted middle.buffer := by
  by_cases none : sumOf (·.2) counts = 0
  · simp only [reportOn, none, ne_eq, not_true_eq_false, if_false] at told
    cases told
    exact ⟨none.symm, rfl⟩
  · simp only [reportOn, none, ne_eq, not_false_eq_true, if_true] at told
    cases told
    exact ⟨rfl, (if_neg none).symm⟩

/-- The end of a run is made from its counts and its buffer. -/
theorem applyFixes_of_counts
    (worked : applyRows (bottomUp (locateRows bench.buffer rows).1) bench = .ok counts middle) :
    ∃ report last, applyFixes module rows bench = .ok report last ∧
      report.inserted = sumOf (·.2) counts ∧
      (last.buffer, report.importAdded) = imported module report.inserted middle.buffer := by
  obtain ⟨report, last, told, -⟩ :=
    reportOn_defined module (locateRows bench.buffer rows).2 counts middle
  refine ⟨report, last, ?_, reportOn_ran told⟩
  rw [applyFixes_eq]
  exact bind_ran.mpr ⟨counts, middle, worked, told⟩

/-- Rows of disjoint records are local to them. No record has to be located again, each has its
lines replaced by what its row makes of it alone, what is inserted is the sum of what goes in at each
alone, and only then comes the import. Any other order of the rows comes to the same. -/
theorem applyFixes_local
    (disjoint : Disjoint ((locateRows bench.buffer rows).1.map (·.1))) :
    (∀ earlier pair later counts place,
      bottomUp (locateRows bench.buffer rows).1 = earlier ++ pair :: later →
        applyRows earlier bench = .ok counts place →
          place.buffer.isValid pair.1.record = true) ∧
      (∀ pair ∈ (locateRows bench.buffer rows).1, GoesAlone bench.buffer pair) ∧
      ∃ counts middle report last,
        applyRows (bottomUp (locateRows bench.buffer rows).1) bench = .ok counts middle ∧
        middle.buffer.lines = replaceSpans bench.buffer.lines 0 bench.buffer.lines.length
          (patches bench.buffer (bottomUp (locateRows bench.buffer rows).1).reverse) ∧
        applyFixes module rows bench = .ok report last ∧
        report.inserted = sumOf (countAlone bench.buffer) (locateRows bench.buffer rows).1 ∧
        (last.buffer, report.importAdded) = imported module report.inserted middle.buffer ∧
        ∀ order, order.Perm rows → ∃ others after,
          applyFixes module order bench = .ok others after ∧ after.buffer = last.buffer ∧
            others.inserted = report.inserted ∧ others.importAdded = report.importAdded := by
  have sorted := sorted_of_disjoint disjoint
  have sited : ∀ pair ∈ bottomUp (locateRows bench.buffer rows).1,
      ∃ steps, Sited bench.buffer pair.1 steps :=
    fun pair member => sited_of_located (mem_bottomUp.mp member)
  have inside : ∀ pair ∈ bottomUp (locateRows bench.buffer rows).1,
      pair.1.record.stop ≤ bench.buffer.lines.length := by
    intro pair member
    obtain ⟨steps, here⟩ := sited pair member
    have spans := here.order
    omega
  refine ⟨?_, ?_⟩
  · intro earlier pair later counts place whole ran
    -- What comes earlier lies below, so the line may be drawn at the end of the record.
    rw [whole] at sorted sited inside
    obtain ⟨upper, -, below⟩ := List.pairwise_append.mp sorted
    obtain ⟨steps, here⟩ := sited pair (by simp)
    obtain ⟨_, last, ran', -, -, rest⟩ := applyRows_local
      (fun other member => sited other (List.mem_append_left _ member)) upper
      (fun other member => inside other (List.mem_append_left _ member))
      (Patchwork.begin bench.buffer)
    rw [ran'] at ran
    cases ran
    refine (rest pair.1.record.stop (inside pair (by simp)) ?_).isValid here (Nat.le_refl _)
    exact fun other member => below other member pair (List.mem_cons_self ..)
  · obtain ⟨counts, middle, worked, total, alone, rest⟩ :=
      applyRows_local sited sorted inside (Patchwork.begin bench.buffer)
    have lines := (rest 0 (Nat.zero_le _) fun _ _ => Nat.zero_le _).lines
    rw [List.take_zero, List.nil_append, List.append_nil] at lines
    obtain ⟨report, last, ran, inserted, ends⟩ := @applyFixes_of_counts module _ _ _ _ worked
    refine ⟨fun pair member => alone pair (mem_bottomUp.mpr member), counts, middle, report, last,
      worked, lines, ran, ?_, ends, ?_⟩
    · rw [inserted, total, sumOf_perm bottomUp_perm]
    · intro order same
      rw [← bottomUp_of_perm disjoint same] at worked
      obtain ⟨others, after, ran', inserted', ends'⟩ :=
        @applyFixes_of_counts module _ _ _ _ worked
      have counted := inserted'.trans inserted.symm
      rw [counted, ← ends, Prod.mk.injEq] at ends'
      exact ⟨others, after, ran', ends'.1, counted, ends'.2⟩

def courtScene : Buffer := ⟨scene.lines ++ ["const B = \x7b", "  id: 'b',", "  steps: [",
  "    ...ENTER_FROM_LEFT('duke'),", "  ],", "\x7d;"], []⟩

def courtRows : List FixRow := [castRow "queen", { castRow "jester" with id := "b" }]

/-- Two lines go in at each of two records, whichever row comes first. -/
theorem applyFixes_local_courts :
    Disjoint ((locateRows courtScene courtRows).1.map (·.1)) ∧
      (locateRows courtScene courtRows).1.length = 2 ∧ ∃ report last others after,
        applyFixes templateModule courtRows ⟨courtScene, []⟩ = .ok report last ∧
        report.inserted = 4 ∧
        applyFixes templateModule courtRows.reverse ⟨courtScene, []⟩ = .ok others after ∧
        after.buffer = last.buffer ∧ others.inserted = 4 := by
  have records : (locateRows courtScene courtRows).1.map (·.1) =
      [⟨"a", 2, ⟨1, 8, 0⟩, some ⟨3, 7, 0⟩⟩, ⟨"b", 9, ⟨8, 14, 0⟩, some ⟨10, 13, 0⟩⟩] := by
    decide +kernel
  have disjoint : Disjoint ((locateRows courtScene courtRows).1.map (·.1)) := by
    rw [records, Disjoint]
    decide
  have four : sumOf (countAlone courtScene) (locateRows courtScene courtRows).1 = 4 := by
    decide +kernel
  obtain ⟨-, -, _, _, report, last, -, -, ran, inserted, -, orders⟩ :=
    @applyFixes_local templateModule ⟨courtScene, []⟩ courtRows disjoint
  obtain ⟨others, after, ran', same, inserted', -⟩ := orders _ (List.reverse_perm _)
  have two : (locateRows courtScene courtRows).1.length = 2 := by
    rw [← List.length_map, records]
    rfl
  have total := inserted.trans four
  exact ⟨disjoint, two, report, last, others, after, ran, total, ran', same, inserted'.trans total⟩

end Whole

end Stagecraft
