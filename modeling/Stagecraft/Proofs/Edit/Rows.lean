import Stagecraft.Proofs.Edit.Voice

/-!
Runs over the rows of a sheet. A row that is voiced puts nothing in and leaves its record alone; a
run over rows that are all voiced ends where it began, and a run that puts nothing in went over
such rows only.
-/

namespace Stagecraft

variable {buffer : Buffer} {fixes : SpeechFixes} {site after : Site} {count : Nat}
  {bench last : Bench} {rows : List FixRow} {row : FixRow} {location : Location}
  {located : List (Location × FixRow)}

/-- The record speaks for every character of the row, and so does the line below the first entrance
for the character that opens the scene. -/
def VoicedAt (buffer : Buffer) (record steps : Span) (fixes : SpeechFixes) : Prop :=
  (∀ speech ∈ fixes.dialogue ++ fixes.closing.toList,
      (buffer.spanLines record).any (speaksFor speech.character)) ∧
    ∀ opening ∈ fixes.opening, ∀ below, entranceLine buffer steps = .ok (some below) →
      (buffer.line? below).any (speaksFor opening.character)

def Voiced (buffer : Buffer) (row : FixRow) : Prop :=
  ∀ location steps, locate buffer row.id = .ok (some location) → location.steps = some steps →
    VoicedAt buffer location.record steps row.fixes

/-- The lines that go in as one block. -/
def dialogueBlock (missing : List Speech) (indent : String) : List String :=
  (indent ++ dialogueComment) :: missing.map (speakLine · indent)

theorem insertDialogue_ran (ran : insertDialogue fixes site = .ok count after) :
    ∃ point indent missing, insertionPoint site.buffer site.steps = .ok point ∧
      IsIndent indent ∧ missingSpeeches site.buffer site.record []
        (fixes.dialogue ++ fixes.closing.toList) = .ok missing ∧ count = missing.length ∧
      after = if missing = [] then site else site.put point (dialogueBlock missing indent) := by
  simp only [insertDialogue, get_bind_ran, Work.ofExcept_bind_ran] at ran
  obtain ⟨point, pointed, indent, indented, missing, sought, ran⟩ := ran
  refine ⟨point, indent, missing, pointed, stepIndent_isIndent indented, sought, ?_⟩
  cases missing with
  | nil =>
    obtain ⟨rfl, rfl⟩ := pure_ran.mp ran
    exact ⟨rfl, rfl⟩
  | cons first rest =>
    obtain ⟨_, _, put, done⟩ := bind_ran.mp ran
    obtain ⟨rfl, rfl⟩ := pure_ran.mp done
    obtain ⟨-, rfl⟩ := Work.insert_ran.mp put
    exact ⟨rfl, rfl⟩

theorem insertOpening_ran {opening : Speech}
    (ran : insertOpening opening site = .ok count after) :
    ∃ answer, entranceLine site.buffer site.steps = .ok answer ∧
      (count = 0 ∧ after = site ∧ (∀ below ∈ answer,
          (site.buffer.line? below).any (speaksFor opening.character)) ∨
        count = 1 ∧ ∃ below indent, answer = some below ∧ IsIndent indent ∧
          ¬ (site.buffer.line? below).any (speaksFor opening.character) ∧
          after = site.put below [speakLine opening indent]) := by
  simp only [insertOpening, get_bind_ran, Work.ofExcept_bind_ran] at ran
  obtain ⟨answer, entered, ran⟩ := ran
  refine ⟨answer, entered, ?_⟩
  cases answer with
  | none =>
    obtain ⟨rfl, rfl⟩ := pure_ran.mp ran
    exact .inl ⟨rfl, rfl, by simp⟩
  | some below =>
    simp only at ran
    split at ran
    · next spoken =>
      obtain ⟨rfl, rfl⟩ := pure_ran.mp ran
      exact .inl ⟨rfl, rfl, by simpa using spoken⟩
    · next silent =>
      rw [Work.ofExcept_bind_ran] at ran
      obtain ⟨indent, indented, ran⟩ := ran
      obtain ⟨_, _, put, done⟩ := bind_ran.mp ran
      obtain ⟨rfl, rfl⟩ := pure_ran.mp done
      obtain ⟨-, rfl⟩ := Work.insert_ran.mp put
      exact .inr ⟨rfl, below, indent, rfl, stepIndent_isIndent indented, silent, rfl⟩

/-- Dialogue first, then the opening. -/
theorem applyRow_ran (ran : applyRow fixes site = .ok count after) :
    ∃ dialogue middle, insertDialogue fixes site = .ok dialogue middle ∧
      (fixes.opening = none ∧ count = dialogue ∧ after = middle ∨
        ∃ opening more, fixes.opening = some opening ∧
          insertOpening opening middle = .ok more after ∧ count = dialogue + more) := by
  rw [applyRow, bind_ran] at ran
  obtain ⟨dialogue, middle, first, ran⟩ := ran
  refine ⟨dialogue, middle, first, ?_⟩
  cases opens : fixes.opening with
  | none =>
    rw [opens] at ran
    obtain ⟨rfl, rfl⟩ := pure_ran.mp ran
    exact .inl ⟨rfl, rfl, rfl⟩
  | some opening =>
    rw [opens] at ran
    obtain ⟨more, _, second, done⟩ := bind_ran.mp ran
    obtain ⟨rfl, rfl⟩ := pure_ran.mp done
    exact .inr ⟨opening, more, rfl, second, rfl⟩

theorem applyRow_silent (ran : applyRow fixes site = .ok 0 after) :
    VoicedAt site.buffer site.record site.steps fixes ∧ after = site := by
  obtain ⟨dialogue, middle, first, rest⟩ := applyRow_ran ran
  obtain ⟨point, indent, missing, -, -, sought, rfl, rfl⟩ := insertDialogue_ran first
  have empty : missing = [] := by
    apply List.eq_nil_of_length_eq_zero
    rcases rest with ⟨-, same, -⟩ | ⟨-, more, -, -, same⟩ <;> omega
  have spoken := (missingSpeeches_eq_nil_iff sought).mp empty
  rw [if_pos empty] at rest
  rcases rest with ⟨none, -, rfl⟩ | ⟨opening, more, some', second, same⟩
  · exact ⟨⟨spoken, by simp [none]⟩, rfl⟩
  · obtain ⟨answer, entered, ⟨-, rfl, heard⟩ | ⟨one, -⟩⟩ := insertOpening_ran second
    · refine ⟨⟨spoken, ?_⟩, rfl⟩
      intro other member below found
      rw [entered] at found
      obtain rfl := Option.some.inj (some'.symm.trans member)
      exact heard below (Except.ok.inj found)
    · omega

theorem applyRow_of_voiced (valid : site.Valid)
    (inside : site.steps.start < site.buffer.lines.length)
    (within : site.steps.stop - 1 ≤ site.buffer.lines.length)
    (voiced : VoicedAt site.buffer site.record site.steps fixes) :
    applyRow fixes site = .ok 0 site := by
  obtain ⟨point, pointed⟩ := insertionPoint_defined valid.2 inside within
  obtain ⟨indent, indented⟩ := stepIndent_defined inside within point
  obtain ⟨missing, sought⟩ : ∃ missing, missingSpeeches site.buffer site.record []
      (fixes.dialogue ++ fixes.closing.toList) = .ok missing := missingSpeeches_defined valid.1
  have empty := (missingSpeeches_eq_nil_iff sought).mpr voiced.1
  subst empty
  have first : insertDialogue fixes site = .ok 0 site := by
    simp only [insertDialogue, get_bind_ran, Work.ofExcept_bind_ran]
    exact ⟨point, pointed, indent, indented, [], sought, rfl⟩
  rw [applyRow]
  refine bind_ran.mpr ⟨0, site, first, ?_⟩
  cases opens : fixes.opening with
  | none => rfl
  | some opening =>
    obtain ⟨answer, entered⟩ := entranceLine_defined valid.2 inside within
    have second : insertOpening opening site = .ok 0 site := by
      simp only [insertOpening, get_bind_ran, Work.ofExcept_bind_ran]
      refine ⟨answer, entered, ?_⟩
      cases answer with
      | none => rfl
      | some below =>
        have heard := voiced.2 opening opens below entered
        simp only [heard, if_true]
        rfl
    exact bind_ran.mpr ⟨0, site, second, rfl⟩

/-- A row at its record, if that is found and has steps. -/
def located? (buffer : Buffer) (row : FixRow) : Option (Location × FixRow) :=
  match locate buffer row.id with
  | .ok (some location) => if location.steps.isSome then some (location, row) else none
  | _ => none

/-- What keeps a row from being located. -/
def missed? (buffer : Buffer) (row : FixRow) : Option Issue :=
  match locate buffer row.id with
  | .error fault => some (.malformed row.id fault)
  | .ok none => some (.notFound row.id)
  | .ok (some location) => if location.steps.isSome then none else some (.withoutSteps row.id)

/-- Each row is located, or has the issue that it is not. -/
theorem locateRows_eq : locateRows buffer rows =
    (rows.filterMap (located? buffer), rows.filterMap (missed? buffer)) := by
  induction rows with
  | nil => rfl
  | cons row rows ih =>
    rw [locateRows, ih, List.filterMap_cons, List.filterMap_cons, located?, missed?]
    cases locate buffer row.id with
    | error fault => rfl
    | ok place =>
      cases place with
      | none => rfl
      | some location => by_cases stepped : location.steps.isSome <;> simp [stepped]

theorem located?_eq_some_iff {pair : Location × FixRow} : located? buffer row = some pair ↔
    pair.2 = row ∧ locate buffer row.id = .ok (some pair.1) ∧ pair.1.steps.isSome := by
  obtain ⟨location, other⟩ := pair
  rw [located?]
  split
  · next place found =>
    rw [found]
    by_cases stepped : place.steps.isSome
    · rw [if_pos stepped, Option.some.injEq, Prod.mk.injEq]
      constructor
      · rintro ⟨rfl, rfl⟩
        exact ⟨rfl, rfl, stepped⟩
      · rintro ⟨rfl, same, -⟩
        exact ⟨Option.some.inj (Except.ok.inj same), rfl⟩
    · rw [if_neg stepped]
      refine iff_of_false (by simp) ?_
      rintro ⟨-, same, some'⟩
      obtain rfl := Option.some.inj (Except.ok.inj same)
      exact stepped some'
  · next lost => exact iff_of_false (by simp) fun ⟨_, found, _⟩ => lost _ found

theorem mem_locateRows : (location, row) ∈ (locateRows buffer rows).1 ↔
    row ∈ rows ∧ locate buffer row.id = .ok (some location) ∧ location.steps.isSome := by
  rw [locateRows_eq, List.mem_filterMap]
  constructor
  · rintro ⟨_, member, found⟩
    obtain ⟨rfl, placed⟩ := located?_eq_some_iff.mp found
    exact ⟨member, placed⟩
  · rintro ⟨member, placed⟩
    exact ⟨row, member, located?_eq_some_iff.mpr ⟨rfl, placed⟩⟩

theorem mem_bottomUp {pair : Location × FixRow} : pair ∈ bottomUp located ↔ pair ∈ located :=
  List.mem_mergeSort

/-- The locations are those that a search in the buffer gives. -/
def Fresh (buffer : Buffer) (located : List (Location × FixRow)) : Prop :=
  ∀ pair ∈ located, locate buffer pair.2.id = .ok (some pair.1) ∧ pair.1.steps.isSome

theorem fresh_bottomUp (buffer : Buffer) (rows : List FixRow) :
    Fresh buffer (bottomUp (locateRows buffer rows).1) := by
  intro pair member
  exact (mem_locateRows.mp (mem_bottomUp.mp member)).2

theorem isValid_of_locate {steps : Span} (found : locate buffer row.id = .ok (some location))
    (stepped : location.steps = some steps) :
    Site.Valid ⟨buffer, location.record, steps⟩ ∧ steps.start < buffer.lines.length ∧
      steps.stop - 1 ≤ buffer.lines.length := by
  obtain ⟨extent, stands, record, rfl⟩ := Extent.stands_of_locate found stepped
  refine ⟨⟨?_, Buffer.isValid_of_current rfl⟩, stands.opening_lt, ?_⟩
  · exact Buffer.isValid_of_current (by rw [record]; rfl)
  · exact Nat.le_of_lt stands.ends.2.1

theorem applyRows_cons_ran {counts : List (String × Nat)}
    (ran : applyRows ((location, row) :: located) bench = .ok counts last) :
    ∃ current steps count place others, refreshed bench.buffer location row.id = .ok current ∧
      current.steps = some steps ∧
      applyRow row.fixes ⟨bench.buffer, current.record, steps⟩ = .ok count place ∧
      (∃ log, applyRows located ⟨place.buffer, log⟩ = .ok others last) ∧
      counts = if count ≠ 0 then (row.id, count) :: others else others := by
  rw [applyRows] at ran
  simp only [get_bind_ran, Job.ofExcept_bind_ran] at ran
  obtain ⟨current, known, ran⟩ := ran
  obtain ⟨⟨moved, count⟩, _, worked, ran⟩ := bind_ran.mp ran
  obtain ⟨steps, place, stepped, applied, -, rfl⟩ := Job.site_ran.mp worked
  refine ⟨current, steps, count, place, ?_⟩
  by_cases zero : count = 0
  · simp only [zero, ne_eq, not_true_eq_false, if_false] at ran
    obtain ⟨others, _, rest, done⟩ := bind_ran.mp ran
    obtain ⟨rfl, rfl⟩ := pure_ran.mp done
    exact ⟨_, known, stepped, applied, ⟨_, rest⟩, by simp [zero]⟩
  · simp only [zero, ne_eq, not_false_eq_true, if_true, Job.note_bind_ran] at ran
    obtain ⟨others, _, rest, done⟩ := bind_ran.mp ran
    obtain ⟨rfl, rfl⟩ := pure_ran.mp done
    exact ⟨others, known, stepped, applied, ⟨_, rest⟩, by simp [zero]⟩

theorem refreshed_of_valid {id : String} (valid : buffer.isValid location.record = true) :
    refreshed buffer location id = .ok location := by
  rw [refreshed, if_pos valid]

theorem locate_of_refreshed {current : Location} {id : String}
    (invalid : ¬ buffer.isValid location.record = true)
    (found : refreshed buffer location id = .ok current) :
    locate buffer id = .ok (some current) := by
  rw [refreshed, if_neg invalid] at found
  cases again : locate buffer id with
  | error fault =>
    rw [again] at found
    cases found
  | ok place =>
    rw [again] at found
    cases place with
    | none => cases found
    | some other => rw [Except.ok.inj found]

theorem applyRows_of_voiced (fresh : Fresh bench.buffer located)
    (voiced : ∀ pair ∈ located, Voiced bench.buffer pair.2) :
    applyRows located bench = .ok [] bench := by
  induction located with
  | nil => rfl
  | cons first rest ih =>
    obtain ⟨location, row⟩ := first
    obtain ⟨found, stepped⟩ := fresh _ (List.mem_cons_self ..)
    obtain ⟨steps, stepped⟩ := Option.isSome_iff_exists.mp stepped
    obtain ⟨valid, inside, within⟩ := isValid_of_locate found stepped
    have silent := applyRow_of_voiced valid inside within
      (voiced _ (List.mem_cons_self ..) location steps found stepped)
    have others := ih (fun pair member => fresh pair (List.mem_cons_of_mem _ member))
      fun pair member => voiced pair (List.mem_cons_of_mem _ member)
    rw [applyRows]
    simp only [get_bind_ran, Job.ofExcept_bind_ran]
    refine ⟨location, refreshed_of_valid valid.1, ?_⟩
    refine bind_ran.mpr ⟨(location, 0), bench,
      Job.site_ran.mpr ⟨steps, _, stepped, silent, ?_, rfl⟩, ?_⟩
    · rw [← stepped]
    · exact bind_ran.mpr ⟨[], bench, others, rfl⟩

theorem voiced_of_applyRows {counts : List (String × Nat)} (fresh : Fresh bench.buffer located)
    (ran : applyRows located bench = .ok counts last) (none : sumOf (·.2) counts = 0) :
    ∀ pair ∈ located, Voiced bench.buffer pair.2 := by
  induction located generalizing bench counts with
  | nil =>
    intro pair member
    cases member
  | cons first rest ih =>
    obtain ⟨location, row⟩ := first
    obtain ⟨found, stepped⟩ := fresh _ (List.mem_cons_self ..)
    obtain ⟨steps, stepped⟩ := Option.isSome_iff_exists.mp stepped
    obtain ⟨valid, -, -⟩ := isValid_of_locate found stepped
    obtain ⟨current, steps', count, place, others, known, stepped', worked, ⟨log, later⟩, rfl⟩ :=
      applyRows_cons_ran ran
    rw [refreshed_of_valid valid.1] at known
    obtain rfl := Except.ok.inj known
    have zero : count = 0 := by
      by_contra positive
      rw [if_pos positive, sumOf] at none
      omega
    subst zero
    obtain ⟨spoken, rfl⟩ := applyRow_silent worked
    simp only [ne_eq, not_true_eq_false, if_false] at none
    have fresh' : Fresh (Bench.mk bench.buffer log).buffer rest :=
      fun pair member => fresh pair (List.mem_cons_of_mem _ member)
    have rest' := ih fresh' later none
    intro pair member
    rcases List.mem_cons.mp member with rfl | member
    · intro other steps'' answer some'
      rw [found] at answer
      obtain rfl := Option.some.inj (Except.ok.inj answer)
      rw [stepped'] at some'
      obtain rfl := Option.some.inj some'
      exact spoken
    · exact rest' pair member

/-- The rows first, then the import if anything went in. -/
theorem applyFixes_ran {module : String} {report : SpeechReport}
    (ran : applyFixes module rows bench = .ok report last) :
    ∃ counts middle, applyRows (bottomUp (locateRows bench.buffer rows).1) bench =
        .ok counts middle ∧ report.inserted = sumOf (·.2) counts ∧
      report.records = countByRecord counts ∧
      last.buffer = if sumOf (·.2) counts = 0 then middle.buffer
        else (ensureImport middle.buffer speakDirective module).1 := by
  simp only [applyFixes, get_bind_ran] at ran
  obtain ⟨counts, middle, worked, ran⟩ := bind_ran.mp ran
  refine ⟨counts, middle, worked, ?_⟩
  by_cases none : sumOf (·.2) counts = 0
  · simp only [none, ne_eq, not_true_eq_false, if_false] at ran
    cases ran
    exact ⟨none.symm, rfl, by simp [none]⟩
  · simp only [none, ne_eq, not_false_eq_true, if_true] at ran
    cases ran
    rw [if_neg none]
    exact ⟨rfl, rfl, rfl⟩

/-- Rows put nothing in just when they are all voiced. -/
theorem applyFixes_silent_iff {module : String} :
    (∃ report last, applyFixes module rows bench = .ok report last ∧ report.inserted = 0 ∧
        last.buffer = bench.buffer) ↔ ∀ row ∈ rows, Voiced bench.buffer row := by
  constructor
  · rintro ⟨report, last, ran, none, -⟩ row member location steps found stepped
    obtain ⟨counts, middle, worked, total, -, -⟩ := applyFixes_ran ran
    have there : (location, row) ∈ bottomUp (locateRows bench.buffer rows).1 :=
      mem_bottomUp.mpr (mem_locateRows.mpr ⟨member, found, by simp [stepped]⟩)
    have voiced := voiced_of_applyRows (fresh_bottomUp bench.buffer rows) worked
      (by rw [← total, none]) _ there
    exact voiced location steps found stepped
  · intro voiced
    have silent : applyRows (bottomUp (locateRows bench.buffer rows).1) bench = .ok [] bench := by
      apply applyRows_of_voiced (fresh_bottomUp bench.buffer rows)
      intro pair member
      exact voiced pair.2 (mem_locateRows.mp (mem_bottomUp.mp member)).1
    have whole : ∃ report last, applyFixes module rows bench = .ok report last := by
      exact ⟨_, _, bind_ran.mpr ⟨bench, bench, rfl, bind_ran.mpr ⟨[], bench, silent, rfl⟩⟩⟩
    obtain ⟨report, last, ran⟩ := whole
    obtain ⟨counts, middle, worked, total, -, same⟩ := applyFixes_ran ran
    rw [silent] at worked
    cases worked
    exact ⟨report, last, ran, total, same⟩

end Stagecraft
