import Stagecraft.Proofs.Edit.FixedRecords
import Stagecraft.Proofs.Edit.Stale

/-!
When every row of a sheet gets its turn. A row is applied where its record stands by then, and a row
at its record always goes in; so a run gets through just when each row still finds its record when
the rows before it are done. Rows of other records further down do not get in its way, and those of
its own record do not as long as there is room for their speech and no search stops at it.
-/

namespace Stagecraft

variable {module id : String} {fixes : SpeechFixes} {site after : Site} {count room index : Nat}
  {bench last : Bench} {rows : List FixRow} {row : FixRow} {extent : Extent} {buffer : Buffer}
  {todo : List (Location × FixRow)} {location : Location} {record steps : Span}

theorem Site.Spanned.put (spanned : site.Spanned) (index : Nat) (lines : List String) :
    (site.put index lines).Spanned := by
  obtain ⟨order, inside⟩ := spanned
  have size : (site.put index lines).buffer.lines.length =
      site.buffer.lines.length + lines.length := length_putLines ..
  constructor
  · simp only [Site.put, Span.afterInsert]
    split <;> split <;> omega
  · rw [size]
    simp only [Site.put, Span.afterInsert]
    split <;> omega

section Defined

theorem insertDialogue_eq {point : Nat} {indent : String} {missing : List Speech}
    (valid : site.Valid) (pointed : insertionPoint site.buffer site.steps = .ok point)
    (indented : stepIndent site.buffer site.steps point = .ok indent)
    (sought : missingSpeeches site.buffer site.record []
      (fixes.dialogue ++ fixes.closing.toList) = .ok missing) :
    insertDialogue fixes site = .ok missing.length
      (if missing = [] then site else site.put point (dialogueBlock missing indent)) := by
  simp only [insertDialogue, get_bind_ran, Work.ofExcept_bind_ran]
  refine ⟨point, pointed, indent, indented, missing, sought, ?_⟩
  cases missing with
  | nil => rfl
  | cons first rest => exact bind_ran.mpr ⟨(), _, Work.insert_ran.mpr ⟨valid, rfl⟩, rfl⟩

theorem insertDialogue_defined (valid : site.Valid) (spanned : site.Spanned) :
    ∃ count after, insertDialogue fixes site = .ok count after ∧ after.Valid ∧ after.Spanned := by
  obtain ⟨order, inside⟩ := spanned
  have low : site.steps.start < site.buffer.lines.length := by omega
  have high : site.steps.stop - 1 ≤ site.buffer.lines.length := by omega
  obtain ⟨point, pointed⟩ := insertionPoint_defined valid.2 low high
  obtain ⟨indent, indented⟩ := stepIndent_defined low high point
  obtain ⟨missing, sought⟩ : ∃ missing, missingSpeeches site.buffer site.record []
      (fixes.dialogue ++ fixes.closing.toList) = .ok missing := missingSpeeches_defined valid.1
  refine ⟨_, _, insertDialogue_eq valid pointed indented sought, ?_⟩
  split
  · exact ⟨valid, order, inside⟩
  · exact ⟨.put .., .put ⟨order, inside⟩ ..⟩

theorem insertOpening_absent {opening : Speech}
    (entered : entranceLine site.buffer site.steps = .ok none) :
    insertOpening opening site = .ok 0 site := by
  simp only [insertOpening, get_bind_ran, Work.ofExcept_bind_ran]
  exact ⟨none, entered, rfl⟩

theorem insertOpening_eq {opening : Speech} {below : Nat} {indent : String} (valid : site.Valid)
    (entered : entranceLine site.buffer site.steps = .ok (some below))
    (indented : stepIndent site.buffer site.steps (below - 1) = .ok indent) :
    insertOpening opening site =
      if (site.buffer.line? below).any (speaksFor opening.character) then .ok 0 site
      else .ok 1 (site.put below [speakLine opening indent]) := by
  by_cases spoken : (site.buffer.line? below).any (speaksFor opening.character)
  · rw [if_pos spoken]
    simp only [insertOpening, get_bind_ran, Work.ofExcept_bind_ran]
    exact ⟨some below, entered, by simp only [spoken, if_true]; rfl⟩
  · rw [if_neg spoken]
    simp only [insertOpening, get_bind_ran, Work.ofExcept_bind_ran]
    refine ⟨some below, entered, ?_⟩
    simp only [spoken, Bool.false_eq_true, if_false]
    refine Work.ofExcept_bind_ran.mpr ⟨indent, indented, ?_⟩
    exact bind_ran.mpr ⟨(), _, Work.insert_ran.mpr ⟨valid, rfl⟩, rfl⟩

theorem insertOpening_defined {opening : Speech} (valid : site.Valid) (spanned : site.Spanned) :
    ∃ count after, insertOpening opening site = .ok count after := by
  obtain ⟨order, inside⟩ := spanned
  have low : site.steps.start < site.buffer.lines.length := by omega
  have high : site.steps.stop - 1 ≤ site.buffer.lines.length := by omega
  obtain ⟨answer, entered⟩ := entranceLine_defined valid.2 low high
  cases answer with
  | none => exact ⟨0, site, insertOpening_absent entered⟩
  | some below =>
    obtain ⟨indent, indented⟩ := stepIndent_defined low high (below - 1)
    rw [insertOpening_eq valid entered indented]
    split
    · exact ⟨0, _, rfl⟩
    · exact ⟨1, _, rfl⟩

/-- A row always goes in at a record that stands where its spans say. -/
theorem applyRow_defined (valid : site.Valid) (spanned : site.Spanned) :
    ∃ count after, applyRow fixes site = .ok count after := by
  obtain ⟨dialogue, middle, first, valid', spanned'⟩ :=
    @insertDialogue_defined fixes site valid spanned
  cases opens : fixes.opening with
  | none =>
    refine ⟨dialogue, middle, ?_⟩
    rw [applyRow]
    exact bind_ran.mpr ⟨dialogue, middle, first, by rw [opens]; rfl⟩
  | some opening =>
    obtain ⟨more, after, second⟩ := @insertOpening_defined middle opening valid' spanned'
    refine ⟨dialogue + more, after, ?_⟩
    rw [applyRow]
    refine bind_ran.mpr ⟨dialogue, middle, first, ?_⟩
    rw [opens]
    exact bind_ran.mpr ⟨more, after, second, rfl⟩

end Defined

/-- A line that speech goes in above. -/
def Cue (site : Site) (index : Nat) : Prop :=
  insertionPoint site.buffer site.steps = .ok index ∨
    entranceLine site.buffer site.steps = .ok (some index)

theorem Cue.entry (marks : extent.Marks site.record site.steps) (cue : Cue site index) :
    Entry site.buffer.lines extent index := by
  rcases cue with pointed | entered
  · exact entry_of_insertionPoint marks pointed
  · obtain ⟨line, rfl, entrance⟩ := (entranceLine_ok entered index).mp rfl
    rw [marks.opening, marks.closing, Nat.add_sub_cancel] at entrance
    exact entry_of_entranceAt entrance

/-- What each splice keeps, a row keeps. The splices of a row are its speech and a comment. -/
theorem applyRow_keeps (kept : Nat → Site → Prop)
    (lessen : ∀ {room less site}, less ≤ room → kept room site → kept less site)
    (put : ∀ {room site index} {insertion : Insertion},
      kept (insertion.lines.length + room) site → Cue site index → IsIndent insertion.indent →
        (∀ speech ∈ insertion.speeches, speech ∈ fixes.speeches) →
          kept room (site.put index insertion.lines))
    (held : kept (fixes.speeches.length + 1 + room) site)
    (ran : applyRow fixes site = .ok count after) : kept room after := by
  obtain ⟨dialogue, middle, first, rest⟩ := applyRow_ran ran
  obtain ⟨point, indent, missing, pointed, blank, sought, -, same⟩ := insertDialogue_ran first
  have size : fixes.speeches.length = (fixes.dialogue ++ fixes.closing.toList).length +
      fixes.opening.toList.length := List.length_append
  have fewer := missingSpeeches_sublist sought
  have short := fewer.length_le
  have between : kept (fixes.opening.toList.length + room) middle := by
    by_cases empty : missing = []
    · rw [same, if_pos empty]
      exact lessen (by omega) held
    · rw [same, if_neg empty]
      let block : Insertion := ⟨indent, true, missing⟩
      have lines : dialogueBlock missing indent = block.lines := rfl
      have long : block.lines.length = missing.length + 1 := by
        rw [← lines, dialogueBlock, List.length_cons, List.length_map]
      exact @put _ _ _ block (lessen (by omega) held) (.inl pointed) blank
        fun speech there => List.mem_append_left _ (fewer.subset there)
  rcases rest with ⟨-, -, rfl⟩ | ⟨opening, more, opens, second, -⟩
  · exact lessen (by omega) between
  · obtain ⟨answer, entered, ⟨-, rfl, -⟩ | ⟨-, below, indent, found, blank, -, rfl⟩⟩ :=
      insertOpening_ran second
    · exact lessen (by omega) between
    · rw [opens, Option.toList_some, List.length_singleton] at between
      rw [found] at entered
      refine @put _ _ _ ⟨indent, false, [opening]⟩ between (.inr entered) blank ?_
      intro speech there
      rw [List.mem_singleton.mp there]
      exact List.mem_append_right _ (by simp [opens])

section Rows

variable {pair : Location × FixRow} {earlier later : List (Location × FixRow)} {size : Nat}
  {counts : List (String × Nat)} {place : Site} {current : Location} {fault : Fault}

def talliedLog (id : String) (count : Nat) (log : List String) : List String :=
  if count ≠ 0 then log ++ [s!"apply-fixes: {id} +{count} {speakDirective}"] else log

/-- What is left of a run when its first row has put in so many lines. -/
def restAfter (row : FixRow) (todo : List (Location × FixRow)) (count : Nat) :
    Job (List (String × Nat)) := do
  if count ≠ 0 then Job.note s!"apply-fixes: {row.id} +{count} {speakDirective}"
  let others ← applyRows todo
  return if count ≠ 0 then (row.id, count) :: others else others

theorem applyRows_cons : applyRows ((location, row) :: todo) bench =
    (Job.ofExcept (refreshed bench.buffer location row.id) >>= fun current =>
      Job.site current (applyRow row.fixes) >>= fun worked => restAfter row todo worked.2) bench :=
  rfl

theorem restAfter_eq : restAfter row todo count bench =
    (applyRows todo >>= fun others =>
      pure (if count ≠ 0 then (row.id, count) :: others else others))
      ⟨bench.buffer, talliedLog row.id count bench.log⟩ := by
  rw [restAfter, talliedLog]
  by_cases none : count = 0
  · simp only [none, ne_eq, not_true_eq_false, if_false]
  · simp only [none, ne_eq, not_false_eq_true, if_true]
    rfl

/-- A row that goes in leaves the rest of the run to the others. -/
theorem applyRows_cons_eq (known : refreshed bench.buffer location row.id = .ok current)
    (stepped : current.steps = some steps)
    (worked : applyRow row.fixes ⟨bench.buffer, current.record, steps⟩ = .ok count place) :
    applyRows ((location, row) :: todo) bench =
      (applyRows todo >>= fun others =>
        pure (if count ≠ 0 then (row.id, count) :: others else others))
        ⟨place.buffer, talliedLog row.id count bench.log⟩ := by
  have went : Job.site current (applyRow row.fixes) bench =
      .ok (⟨current.id, current.idLine, place.record, some place.steps⟩, count)
        ⟨place.buffer, bench.log⟩ := by
    simp only [Job.site, stepped, worked]
  calc applyRows ((location, row) :: todo) bench
      = restAfter row todo count ⟨place.buffer, bench.log⟩ := by
        rw [applyRows_cons, known]
        change EStateM.bind (Job.site current (applyRow row.fixes)) _ bench = _
        rw [EStateM.bind, went]
    _ = _ := restAfter_eq

/-- A row has a record to go to: it stands where it did, or it is found again with its steps. -/
def AtHand (buffer : Buffer) (pair : Location × FixRow) : Prop :=
  buffer.isValid pair.1.record = true ∨
    ∃ location, locate buffer pair.2.id = .ok (some location) ∧ location.steps.isSome

/-- The steps of the location are among so many lines, and end no later than its record. -/
def Seated (size : Nat) (location : Location) : Prop :=
  location.Nested ∧ ∃ steps, location.steps = some steps ∧ steps.start < steps.stop ∧
    steps.stop ≤ size

theorem Seated.mono {more : Nat} (seated : Seated size location) (larger : size ≤ more) :
    Seated more location := by
  obtain ⟨nested, steps, stepped, order, inside⟩ := seated
  exact ⟨nested, steps, stepped, order, Nat.le_trans inside larger⟩

theorem seated_of_locate (located : locate buffer id = .ok (some location))
    (stepped : location.steps.isSome) : Seated buffer.lines.length location := by
  obtain ⟨steps, stepped⟩ := Option.isSome_iff_exists.mp stepped
  obtain ⟨extent, stands, record, rfl⟩ := Extent.stands_of_locate located stepped
  have ends := stands.ends.2.1
  have order := stands.opening_le
  refine ⟨?_, _, stepped, Nat.lt_succ_of_le order, ends⟩
  intro other stepped'
  obtain rfl := Option.some.inj (stepped.symm.trans stepped')
  rw [record]
  exact ⟨rfl, Nat.succ_le_succ stands.inside⟩

theorem atHand_of_refreshed (known : refreshed buffer pair.1 pair.2.id = .ok current)
    (stepped : current.steps = some steps) : AtHand buffer pair := by
  by_cases valid : buffer.isValid pair.1.record = true
  · exact .inl valid
  · exact .inr ⟨current, locate_of_refreshed valid known, by rw [stepped]; rfl⟩

theorem sited_of_atHand (hand : AtHand buffer pair) (seated : Seated buffer.lines.length pair.1) :
    ∃ current steps, refreshed buffer pair.1 pair.2.id = .ok current ∧
      current.steps = some steps ∧ Site.Valid ⟨buffer, current.record, steps⟩ ∧
      Site.Spanned ⟨buffer, current.record, steps⟩ := by
  by_cases valid : buffer.isValid pair.1.record = true
  · obtain ⟨nested, steps, stepped, order, inside⟩ := seated
    exact ⟨pair.1, steps, refreshed_of_valid valid, stepped, nested.valid stepped valid,
      order, inside⟩
  · obtain ⟨location, located, stepped⟩ := hand.resolve_left valid
    obtain ⟨nested, steps, stepped, order, inside⟩ := seated_of_locate located stepped
    refine ⟨location, steps, ?_, stepped, ?_, order, inside⟩
    · rw [refreshed, if_neg valid, located]
    · exact (@isValid_of_locate _ pair.2 _ _ located stepped).1

theorem length_le_of_applyRow (ran : applyRow fixes site = .ok count after) :
    site.buffer.lines.length ≤ after.buffer.lines.length := by
  refine @applyRow_keeps fixes site after count 0
    (fun _ place => site.buffer.lines.length ≤ place.buffer.lines.length)
    (fun _ held => held) ?_ (Nat.le_refl _) ran
  intro _ place index insertion held _ _ _
  have size : (place.put index insertion.lines).buffer.lines.length =
      place.buffer.lines.length + insertion.lines.length := length_putLines ..
  omega

/-- A row at hand goes in, and the others go on from there. -/
theorem applyRows_of_atHand (hand : AtHand bench.buffer pair)
    (seated : Seated bench.buffer.lines.length pair.1) :
    ∃ count middle, bench.buffer.lines.length ≤ middle.buffer.lines.length ∧
      ∀ todo, applyRows (pair :: todo) bench = (applyRows todo >>= fun others =>
        pure (if count ≠ 0 then (pair.2.id, count) :: others else others)) middle := by
  obtain ⟨current, steps, known, stepped, valid, spanned⟩ := sited_of_atHand hand seated
  obtain ⟨count, after, worked⟩ := @applyRow_defined pair.2.fixes _ valid spanned
  exact ⟨count, ⟨after.buffer, _⟩, length_le_of_applyRow worked,
    fun todo => applyRows_cons_eq known stepped worked⟩

theorem applyRows_append_ran (ran : applyRows (earlier ++ later) bench = .ok counts last) :
    ∃ early middle late, applyRows earlier bench = .ok early middle ∧
      applyRows later middle = .ok late last := by
  induction earlier generalizing bench counts with
  | nil => exact ⟨[], bench, counts, rfl, ran⟩
  | cons pair earlier ih =>
    obtain ⟨current, steps, count, place, -, known, stepped, worked, -, -⟩ :=
      applyRows_cons_ran ran
    rw [List.cons_append, applyRows_cons_eq known stepped worked, bind_pure_ran] at ran
    obtain ⟨others, ran, -⟩ := ran
    obtain ⟨early, middle, late, first, rest⟩ := ih ran
    have whole : applyRows (pair :: earlier) bench = _ :=
      (applyRows_cons_eq known stepped worked).trans (bind_pure_ran.mpr ⟨early, first, rfl⟩)
    exact ⟨_, middle, late, whole, rest⟩

/-- All rows go in just when each is at hand once those before it are in. -/
theorem applyRows_through_iff
    (seated : ∀ pair ∈ todo, Seated bench.buffer.lines.length pair.1) :
    (∃ counts last, applyRows todo bench = .ok counts last) ↔
      ∀ earlier pair later counts middle, todo = earlier ++ pair :: later →
        applyRows earlier bench = .ok counts middle → AtHand middle.buffer pair := by
  constructor
  · rintro ⟨counts, last, ran⟩ earlier pair later early middle rfl first
    obtain ⟨_, middle', late, first', rest⟩ := applyRows_append_ran ran
    rw [first] at first'
    cases first'
    obtain ⟨current, steps, -, -, -, known, stepped, -⟩ := applyRows_cons_ran rest
    exact atHand_of_refreshed known stepped
  · intro each
    induction todo generalizing bench with
    | nil => exact ⟨[], bench, rfl⟩
    | cons pair todo ih =>
      have hand : AtHand bench.buffer pair := each [] pair todo [] bench rfl rfl
      obtain ⟨count, middle, larger, goes⟩ :=
        applyRows_of_atHand hand (seated pair (List.mem_cons_self ..))
      have others : ∃ counts last, applyRows todo middle = .ok counts last := by
        apply ih
        · intro other member
          exact (seated other (List.mem_cons_of_mem _ member)).mono larger
        · rintro earlier other later counts final rfl ran
          exact each (pair :: earlier) other later _ final rfl
            (by rw [goes earlier]; exact bind_pure_ran.mpr ⟨counts, ran, rfl⟩)
      obtain ⟨counts, last, ran⟩ := others
      exact ⟨_, last, by rw [goes todo]; exact bind_pure_ran.mpr ⟨counts, ran, rfl⟩⟩

theorem refreshed_fault (failed : refreshed buffer location id = .error fault) :
    (∃ nesting, fault = .nesting nesting) ∨ fault = .misuse .missingPart := by
  rw [refreshed] at failed
  split at failed
  · cases failed
  · cases answer : locate buffer id with
    | error nesting =>
      rw [answer] at failed
      cases failed
      exact .inl ⟨nesting, rfl⟩
    | ok place =>
      rw [answer] at failed
      cases place with
      | none =>
        cases failed
        exact .inr rfl
      | some found => cases failed

/-- A run stops at a row whose record cannot be bounded any more, or is not there. -/
theorem applyRows_fault (seated : ∀ pair ∈ todo, Seated bench.buffer.lines.length pair.1)
    (failed : applyRows todo bench = .error fault last) :
    (∃ nesting, fault = .nesting nesting) ∨ fault = .misuse .missingPart := by
  induction todo generalizing bench with
  | nil => cases failed
  | cons pair todo ih =>
    by_cases hand : AtHand bench.buffer pair
    · obtain ⟨count, middle, larger, goes⟩ :=
        applyRows_of_atHand hand (seated pair (List.mem_cons_self ..))
      rw [goes todo, bind_pure_failed] at failed
      exact ih (fun other member =>
        (seated other (List.mem_cons_of_mem _ member)).mono larger) failed
    · obtain ⟨location, row⟩ := pair
      rw [applyRows_cons] at failed
      cases known : refreshed bench.buffer location row.id with
      | error other =>
        rw [known] at failed
        cases failed
        exact refreshed_fault known
      | ok current =>
        have stepless : current.steps = none := by
          cases stepped : current.steps with
          | none => rfl
          | some steps => exact absurd (atHand_of_refreshed known stepped) hand
        rw [known, bind_failed_of_ok (show Job.ofExcept (.ok current) bench = _ from rfl),
          bind_failed] at failed
        rcases failed with stops | ⟨_, _, worked, -⟩
        · rw [Job.site, stepless] at stops
          cases stops
          exact .inr rfl
        · rw [Job.site, stepless] at worked
          cases worked

end Rows

section Order

variable {shared : String → Prop} {pair turn : Location × FixRow} {own : Extent}
  {counts : List (String × Nat)} {more : List String}

/-- No search for the id stops at the line of the speech, and no depth changes behind it. -/
structure Speech.Still (id : String) (speech : Speech) : Prop where
  square : lineDelta .square (speakLine speech "") = 0
  curly : lineDelta .curly (speakLine speech "") = 0
  unnamed : hasId id (speakLine speech "") = false

theorem Insertion.still {insertion : Insertion} (blank : IsIndent insertion.indent)
    (still : ∀ speech ∈ insertion.speeches, speech.Still id) :
    ∀ line ∈ insertion.lines, Quiet line ∧ hasId id line = false := by
  intro line member
  rcases mem_lines member with rfl | ⟨speech, there, rfl⟩
  · exact ⟨quiet_comment blank, hasId_comment blank⟩
  · obtain ⟨square, curly, unnamed⟩ := still speech there
    refine ⟨quiet_speakLine blank square curly, ?_⟩
    rw [speakLine_eq, hasId_indent blank]
    exact unnamed

/-- A row still to do, and where its record is. Unless the id is shared with other rows, nothing has
gone in at the record; if it is, there is room for what these rows may put in. -/
structure Waits (shared : String → Prop) (todo : List (Location × FixRow)) (buffer : Buffer)
    (pair : Location × FixRow) (extent : Extent) : Prop where
  ordered : extent.Ordered buffer.lines.length
  first : extent.first = pair.1.record.start
  elsewhere : ∀ other ∈ todo, other.2.id ≠ pair.2.id →
    extent.last < other.1.record.start ∨ other.1.record.start < extent.first
  known : pair.1.record.revision ≤ buffer.revision
  marks : buffer.isValid pair.1.record = true → ∃ steps, pair.1.steps = some steps ∧
    extent.Marks pair.1.record steps
  live : buffer.isValid pair.1.record = true ∨ shared pair.2.id
  roomy : shared pair.2.id → extent.opening < extent.closing ∧
    extent.Roomy buffer.lines pair.2.id (roomFor pair.2.id (todo.map (·.2)))

theorem Waits.put_behind (waits : Waits shared todo buffer pair extent)
    (inside : index ≤ buffer.lines.length) (behind : extent.last < index) :
    Waits shared todo (buffer.insertLines index more) pair extent where
  ordered := by
    have larger : extent.Ordered (buffer.lines.length + more.length) := by
      rw [← waits.ordered.push_of_lt behind]
      exact waits.ordered.push
    change extent.Ordered (putLines index more buffer.lines).length
    rwa [length_putLines]
  first := waits.first
  elsewhere := waits.elsewhere
  known := by
    have known := waits.known
    simp only [Buffer.revision_insertLines]
    omega
  marks := fun valid => waits.marks ((Buffer.isValid_insertLines waits.known).mp valid).1
  live := by
    rcases waits.live with valid | shares
    · obtain ⟨steps, -, marks⟩ := waits.marks valid
      refine .inl ((Buffer.isValid_insertLines waits.known).mpr ⟨valid, ?_⟩)
      rw [marks.last]
      exact behind
    · exact .inr shares
  roomy := fun shares => (waits.roomy shares).imp_right fun roomy =>
    roomy.putLines_behind inside behind

/-- A row at work: its record is at the site, rows of the same id wait for it to be done, and the
records of the others end above. -/
structure Working (shared : String → Prop) (turn : Location × FixRow)
    (todo : List (Location × FixRow)) (room : Nat) (site : Site) (own : Extent) : Prop where
  marks : own.Marks site.record site.steps
  ordered : own.Ordered site.buffer.lines.length
  first : turn.1.record.start ≤ own.first
  roomy : shared turn.2.id → own.first = turn.1.record.start ∧ own.opening < own.closing ∧
    own.Roomy site.buffer.lines turn.2.id (room + roomFor turn.2.id (todo.map (·.2)))
  mine : ∀ pair ∈ todo, pair.2.id = turn.2.id → pair.1.record.revision ≤ site.buffer.revision ∧
    (site.buffer.isValid pair.1.record = true → ∃ steps, pair.1.steps = some steps ∧
      own.Marks pair.1.record steps)
  others : ∀ pair ∈ todo, pair.2.id ≠ turn.2.id → ∃ extent : Extent,
    extent.last < turn.1.record.start ∧ Waits shared todo site.buffer pair extent

theorem Working.mono {less : Nat} (working : Working shared turn todo room site own)
    (smaller : less ≤ room) : Working shared turn todo less site own :=
  { working with
    roomy := by
      intro shares
      obtain ⟨first, opens, roomy⟩ := working.roomy shares
      exact ⟨first, opens, roomy.mono (by omega)⟩ }

theorem Working.put {insertion : Insertion}
    (working : Working shared turn todo (insertion.lines.length + room) site own)
    (still : shared turn.2.id → ∀ speech ∈ insertion.speeches, speech.Still turn.2.id)
    (cue : Cue site index) (blank : IsIndent insertion.indent) :
    Working shared turn todo room (site.put index insertion.lines)
      (own.push index insertion.lines.length) := by
  obtain ⟨low, high, -⟩ := cue.entry working.marks
  obtain ⟨first, opening, closing, last⟩ := working.ordered
  have top := working.first
  have inside : index ≤ site.buffer.lines.length := by omega
  have size : (site.put index insertion.lines).buffer.lines.length =
      site.buffer.lines.length + insertion.lines.length := length_putLines ..
  refine {
    marks := working.marks.afterInsert
    ordered := by rw [size]; exact working.ordered.push
    first := Nat.le_trans working.first le_pushDown
    roomy := ?_, mine := ?_, others := ?_ }
  · intro shares
    obtain ⟨start, opens, roomy⟩ := working.roomy shares
    have lines := Insertion.still blank (still shares)
    have below : own.opening < index := by omega
    refine ⟨?_, pushDown_lt_iff.mpr opens, ?_⟩
    · rw [← start]
      exact pushDown_of_lt (by omega)
    · exact (roomy.mono (by omega)).putLines_inside inside (fun line there => (lines line there).2)
        (fun line there => (lines line there).1) below
  · intro pair member same
    obtain ⟨known, marks⟩ := working.mine pair member same
    refine ⟨by simp only [Site.put, Buffer.revision_insertLines]; omega, ?_⟩
    intro valid
    -- what goes in at the record makes its span out of date
    obtain ⟨valid, behind⟩ := (Buffer.isValid_insertLines known).mp valid
    obtain ⟨steps, -, marks⟩ := marks valid
    rw [marks.last] at behind
    omega
  · intro pair member other
    obtain ⟨extent, above, waits⟩ := working.others pair member other
    exact ⟨extent, above, waits.put_behind inside (by omega)⟩

/-- Rows of one record next to each other, records from the bottom of the file up; the speech of
rows that share a record gets in no search's way. -/
structure Lined (shared : String → Prop) (todo : List (Location × FixRow)) : Prop where
  order : todo.Pairwise fun upper lower =>
    upper.2.id = lower.2.id ∧ shared upper.2.id ∧ upper.1 = lower.1 ∨
      upper.2.id ≠ lower.2.id ∧ lower.1.record.start < upper.1.record.start
  nested : ∀ pair ∈ todo, pair.1.Nested
  still : ∀ pair ∈ todo, shared pair.2.id → ∀ speech ∈ pair.2.fixes.speeches,
    speech.Still pair.2.id

theorem Lined.tail (lined : Lined shared (turn :: todo)) : Lined shared todo where
  order := (List.pairwise_cons.mp lined.order).2
  nested := fun pair member => lined.nested pair (List.mem_cons_of_mem _ member)
  still := fun pair member => lined.still pair (List.mem_cons_of_mem _ member)

/-- A row that waits has a record to go to. -/
theorem Waits.atHand (waits : Waits shared todo buffer pair own) (nested : pair.1.Nested) :
    ∃ current steps, refreshed buffer pair.1 pair.2.id = .ok current ∧
      current.steps = some steps ∧ own.Marks current.record steps ∧
      Site.Valid ⟨buffer, current.record, steps⟩ := by
  by_cases valid : buffer.isValid pair.1.record = true
  · obtain ⟨steps, stepped, marks⟩ := waits.marks valid
    exact ⟨pair.1, steps, refreshed_of_valid valid, stepped, marks, nested.valid stepped valid⟩
  · obtain ⟨-, roomy⟩ := waits.roomy (waits.live.resolve_left valid)
    obtain ⟨line, located⟩ := Extent.locate_of_stands roomy.stands
    have known : refreshed buffer pair.1 pair.2.id =
        .ok ⟨pair.2.id, line, buffer.span own.first (own.last + 1),
          some (buffer.span own.opening (own.closing + 1))⟩ := by
      rw [refreshed, if_neg valid, located]
    exact ⟨_, _, known, rfl, ⟨rfl, rfl, rfl, rfl⟩, Buffer.isValid_of_current rfl,
      Buffer.isValid_of_current rfl⟩

theorem roomFor_cons (id : String) (turn : FixRow) (rows : List FixRow) :
    roomFor id (turn :: rows) = share id turn.id (turn.fixes.speeches.length + 1) +
      roomFor id rows := rfl

theorem Waits.working (lined : Lined shared (turn :: todo))
    (waits : ∀ pair ∈ turn :: todo, ∃ extent, Waits shared (turn :: todo) buffer pair extent)
    (own' : Waits shared (turn :: todo) buffer turn own) (marks : own.Marks record steps) :
    Working shared turn todo (turn.2.fixes.speeches.length + 1) ⟨buffer, record, steps⟩ own := by
  have order := (List.pairwise_cons.mp lined.order).1
  refine {
    marks, ordered := own'.ordered
    first := Nat.le_of_eq own'.first.symm
    roomy := ?_, mine := ?_, others := ?_ }
  · intro shares
    obtain ⟨opens, roomy⟩ := own'.roomy shares
    rw [List.map_cons, roomFor_cons, share, if_pos rfl] at roomy
    exact ⟨own'.first, opens, roomy⟩
  · intro pair member same
    obtain ⟨-, -, here⟩ := (order pair member).resolve_right fun other => other.1 same.symm
    rw [← here]
    exact ⟨own'.known, own'.marks⟩
  · intro pair member other
    obtain ⟨extent, pending⟩ := waits pair (List.mem_cons_of_mem _ member)
    obtain ⟨-, start⟩ := (order pair member).resolve_left fun same => other same.1.symm
    have first := pending.first
    have apart := pending.elsewhere turn (List.mem_cons_self ..) (Ne.symm other)
    refine ⟨extent, by omega, { pending with elsewhere := ?_, roomy := ?_ }⟩
    · exact fun lower there => pending.elsewhere lower (List.mem_cons_of_mem _ there)
    · intro shares
      obtain ⟨opens, roomy⟩ := pending.roomy shares
      exact ⟨opens, roomy.mono (by rw [List.map_cons, roomFor_cons]; omega)⟩

/-- When a row is done the others wait as before, those of its own record for the room that is
left. -/
theorem Working.waits (lined : Lined shared (turn :: todo))
    (working : Working shared turn todo 0 site own) :
    ∀ pair ∈ todo, ∃ extent, Waits shared todo site.buffer pair extent := by
  have order := (List.pairwise_cons.mp lined.order).1
  intro pair member
  by_cases same : pair.2.id = turn.2.id
  · obtain ⟨-, shares, here⟩ := (order pair member).resolve_right fun other => other.1 same.symm
    obtain ⟨first, opens, roomy⟩ := working.roomy shares
    obtain ⟨known, marks⟩ := working.mine pair member same
    refine ⟨own, working.ordered, by rw [first, here], ?_, known, marks, ?_, ?_⟩
    · intro other there foreign
      rw [same] at foreign
      obtain ⟨-, above⟩ := (order other there).resolve_left fun same => foreign same.1.symm
      exact .inr (by omega)
    · exact .inr (same ▸ shares)
    · intro _
      rw [same]
      rw [Nat.zero_add] at roomy
      exact ⟨opens, roomy⟩
  · obtain ⟨extent, -, waits⟩ := working.others pair member same
    exact ⟨extent, waits⟩

theorem applyRows_of_waits (lined : Lined shared todo)
    (waits : ∀ pair ∈ todo, ∃ extent, Waits shared todo bench.buffer pair extent) :
    ∃ counts last, applyRows todo bench = .ok counts last := by
  induction todo generalizing bench with
  | nil => exact ⟨[], bench, rfl⟩
  | cons turn todo ih =>
    obtain ⟨own, mine⟩ := waits turn (List.mem_cons_self ..)
    obtain ⟨current, steps, known, stepped, marks, valid⟩ :=
      mine.atHand (lined.nested turn (List.mem_cons_self ..))
    have working := Waits.working lined waits mine marks
    have spanned : Site.Spanned ⟨bench.buffer, current.record, steps⟩ := by
      obtain ⟨-, opening, closing, last⟩ := mine.ordered
      have start := marks.opening
      have stop := marks.closing
      constructor
      · simp only
        omega
      · simp only
        omega
    obtain ⟨count, place, worked⟩ := @applyRow_defined turn.2.fixes _ valid spanned
    have left : ∃ own, Working shared turn todo 0 place own := by
      refine applyRow_keeps (fun room site => ∃ own, Working shared turn todo room site own)
        ?_ ?_ ⟨own, working⟩ worked
      · rintro room less site smaller ⟨own, working⟩
        exact ⟨own, working.mono smaller⟩
      · rintro room site index insertion ⟨own, working⟩ cue blank among
        refine ⟨_, working.put ?_ cue blank⟩
        intro shares speech there
        exact lined.still turn (List.mem_cons_self ..) shares speech (among speech there)
    obtain ⟨own, done⟩ := left
    obtain ⟨others, last, ran⟩ := @ih ⟨place.buffer, _⟩ lined.tail (done.waits lined)
    exact ⟨_, last, by
      rw [applyRows_cons_eq known stepped worked]
      exact bind_pure_ran.mpr ⟨others, ran, rfl⟩⟩

end Order

section Whole

variable {report : SpeechReport} {fault : Fault}

/-- Room in the record of the id for the speech of all its rows, which gets in no search's way. -/
structure Ample (rows : List FixRow) (id : String) (lines : List String) (extent : Extent) :
    Prop where
  opens : extent.opening < extent.closing
  roomy : extent.Roomy lines id (roomFor id rows)
  still : ∀ row ∈ rows, row.id = id → ∀ speech ∈ row.fixes.speeches, speech.Still id

/-- Two rows of one record with room for both, or of two records that lie apart. -/
def Yields (buffer : Buffer) (rows : List FixRow) (one other : Location × FixRow) : Prop :=
  if one.2.id = other.2.id then ∃ extent, Ample rows one.2.id buffer.lines extent
  else one.1.record.stop ≤ other.1.record.start ∨ other.1.record.stop ≤ one.1.record.start

theorem Yields.symm {one other : Location × FixRow} (yields : Yields buffer rows one other) :
    Yields buffer rows other one := by
  rw [Yields] at yields ⊢
  split at yields
  · next same => rwa [if_pos same.symm, ← same]
  · next foreign =>
    rw [if_neg (Ne.symm foreign)]
    exact yields.symm

instance : Std.Symm (Yields buffer rows) := ⟨fun _ _ yields => yields.symm⟩

theorem sorted_bottomUp (located : List (Location × FixRow)) :
    (bottomUp located).Pairwise fun lower upper =>
      upper.1.record.start ≤ lower.1.record.start := by
  have sorted := @List.pairwise_mergeSort (Location × FixRow)
    (fun a b => decide (b.1.record.start ≤ a.1.record.start))
    (by simp only [decide_eq_true_eq]; omega)
    (by simp only [Bool.or_eq_true, decide_eq_true_eq]; omega) located
  exact sorted.imp fun order => of_decide_eq_true order

theorem lined_of_yields (yields : (locateRows buffer rows).1.Pairwise (Yields buffer rows)) :
    Lined (fun id => ∃ extent, Ample rows id buffer.lines extent)
      (bottomUp (locateRows buffer rows).1) where
  order := by
    have yields' : (bottomUp (locateRows buffer rows).1).Pairwise (Yields buffer rows) :=
      ((List.mergeSort_perm _ _).pairwise_iff fun yields => yields.symm).mpr yields
    refine (yields'.and (sorted_bottomUp _)).imp_of_mem ?_
    rintro lower upper member member' ⟨yields, order⟩
    rw [Yields] at yields
    split at yields
    · next same =>
      obtain ⟨located, -⟩ := fresh_bottomUp buffer rows lower member
      obtain ⟨located', -⟩ := fresh_bottomUp buffer rows upper member'
      rw [same, located'] at located
      exact .inl ⟨same, yields, (Option.some.inj (Except.ok.inj located)).symm⟩
    · next foreign =>
      refine .inr ⟨foreign, ?_⟩
      obtain ⟨-, -, own, _, stands, -, marks⟩ := marks_of_located member
      obtain ⟨-, -, other, _, stands', -, marks'⟩ := marks_of_located member'
      have one := stands.closes.1
      have two := stands'.closes.1
      have first := marks.first
      have last := marks.last
      have first' := marks'.first
      have last' := marks'.last
      omega
  nested := by
    intro pair member
    obtain ⟨located, stepped⟩ := fresh_bottomUp buffer rows pair member
    exact (seated_of_locate located stepped).1
  still := by
    rintro pair member ⟨extent, ample⟩
    exact ample.still pair.2 (marks_of_located member).1 rfl

theorem waits_of_yields (yields : (locateRows buffer rows).1.Pairwise (Yields buffer rows)) :
    ∀ pair ∈ bottomUp (locateRows buffer rows).1, ∃ extent,
      Waits (fun id => ∃ extent, Ample rows id buffer.lines extent)
        (bottomUp (locateRows buffer rows).1) buffer pair extent := by
  intro pair member
  obtain ⟨-, known, own, steps, stands, stepped, marks⟩ := marks_of_located member
  obtain ⟨located, there⟩ := fresh_bottomUp buffer rows pair member
  have valid : buffer.isValid pair.1.record = true :=
    (@isValid_of_locate _ pair.2 _ _ located stepped).1.1
  refine ⟨own, stands.toFrames.ordered, marks.first.symm, ?_, known,
    fun _ => ⟨steps, stepped, marks⟩, .inl valid, ?_⟩
  · intro other member' foreign
    have yields := yields.forall (mem_bottomUp.mp member) (mem_bottomUp.mp member')
      fun same => foreign (by rw [same])
    rw [Yields, if_neg (Ne.symm foreign)] at yields
    obtain ⟨-, -, extent, _, stands', -, marks'⟩ := marks_of_located member'
    have order := stands'.closes.1
    have first := marks.first
    have last := marks.last
    have first' := marks'.first
    have last' := marks'.last
    omega
  · rintro ⟨extent, ample⟩
    rw [← (show extent.Stands buffer.lines pair.2.id from ample.roomy.stands).unique stands]
    exact ⟨ample.opens, ample.roomy.mono roomFor_located⟩

theorem seated_bottomUp :
    ∀ pair ∈ bottomUp (locateRows buffer rows).1, Seated buffer.lines.length pair.1 := by
  intro pair member
  obtain ⟨located, stepped⟩ := fresh_bottomUp buffer rows pair member
  exact seated_of_locate located stepped

/-- What a run does once its rows are in. -/
def reportOn (module : String) (issues : List Issue) (counts : List (String × Nat)) :
    Job SpeechReport := do
  let inserted := sumOf (·.2) counts
  let (added, more) ← if inserted ≠ 0 then importSpeech module else pure (false, [])
  let all := issues ++ more
  Job.noteAll (all.map fun issue => "apply-fixes: " ++ issue.text)
  return ⟨inserted, countByRecord counts, added, all⟩

theorem applyFixes_eq : applyFixes module rows bench =
    (applyRows (bottomUp (locateRows bench.buffer rows).1) >>=
      reportOn module (locateRows bench.buffer rows).2) bench := rfl

theorem reportOn_defined (module : String) (issues : List Issue) (counts : List (String × Nat))
    (bench : Bench) : ∃ report after, reportOn module issues counts bench = .ok report after ∧
      (report.issues = issues ∨ report.issues = issues ++ [.missingImport module]) := by
  cases ran : reportOn module issues counts bench with
  | error fault after =>
    by_cases none : sumOf (·.2) counts = 0
    · simp only [reportOn, none, ne_eq, not_true_eq_false, if_false] at ran
      cases ran
    · simp only [reportOn, none, ne_eq, not_false_eq_true, if_true] at ran
      cases ran
  | ok report after =>
    refine ⟨report, after, rfl, ?_⟩
    by_cases none : sumOf (·.2) counts = 0
    · simp only [reportOn, none, ne_eq, not_true_eq_false, if_false] at ran
      cases ran
      exact .inl (List.append_nil _)
    · simp only [reportOn, none, ne_eq, not_false_eq_true, if_true] at ran
      cases ran
      by_cases nameless : (ensureImport bench.buffer speakDirective module).2 = .withoutNames
      · exact .inr (congrArg (issues ++ ·) (if_pos nameless))
      · exact .inl ((congrArg (issues ++ ·) (if_neg nameless)).trans (List.append_nil _))

theorem applyFixes_of_applyRows {counts : List (String × Nat)}
    (ran : applyRows (bottomUp (locateRows bench.buffer rows).1) bench = .ok counts last) :
    ∃ report after, applyFixes module rows bench = .ok report after := by
  obtain ⟨report, after, told, -⟩ :=
    reportOn_defined module (locateRows bench.buffer rows).2 counts last
  rw [applyFixes_eq]
  exact ⟨report, after, bind_ran.mpr ⟨counts, last, ran, told⟩⟩

theorem applyRows_of_applyFixes_failed (failed : applyFixes module rows bench = .error fault last) :
    applyRows (bottomUp (locateRows bench.buffer rows).1) bench = .error fault last := by
  rw [applyFixes_eq] at failed
  rcases bind_failed.mp failed with stops | ⟨counts, middle, -, told⟩
  · exact stops
  · obtain ⟨report, after, told', -⟩ :=
      reportOn_defined module (locateRows bench.buffer rows).2 counts middle
    rw [told] at told'
    cases told'

theorem applyFixes_issues (ran : applyFixes module rows bench = .ok report last) :
    report.issues = rows.filterMap (missed? bench.buffer) ∨
      report.issues = rows.filterMap (missed? bench.buffer) ++ [.missingImport module] := by
  rw [applyFixes_eq] at ran
  obtain ⟨counts, middle, -, told⟩ := bind_ran.mp ran
  obtain ⟨report', after, told', issues⟩ :=
    reportOn_defined module (locateRows bench.buffer rows).2 counts middle
  rw [told] at told'
  cases told'
  rwa [locateRows_eq] at issues

/-- A run gets through just when each row that was located is at hand once those before it are in;
else it stops at the first row that is not. When it gets through, the rows that were not located
are reported, and no others. It does when rows of one record have room for all their speech, which
gets in no search's way, and records of different ids lie apart. -/
theorem applyFixes_through_iff :
    ((∃ report last, applyFixes module rows bench = .ok report last) ↔
        ∀ earlier pair later counts middle,
          bottomUp (locateRows bench.buffer rows).1 = earlier ++ pair :: later →
            applyRows earlier bench = .ok counts middle → AtHand middle.buffer pair) ∧
      (∀ fault last, applyFixes module rows bench = .error fault last →
        (∃ nesting, fault = .nesting nesting) ∨ fault = .misuse .missingPart) ∧
      (∀ report last, applyFixes module rows bench = .ok report last →
        report.issues = rows.filterMap (missed? bench.buffer) ∨
          report.issues = rows.filterMap (missed? bench.buffer) ++ [.missingImport module]) ∧
      ((locateRows bench.buffer rows).1.Pairwise (Yields bench.buffer rows) →
        ∃ report last, applyFixes module rows bench = .ok report last) := by
  refine ⟨?_, ?_, fun report last ran => applyFixes_issues ran, ?_⟩
  · rw [← applyRows_through_iff seated_bottomUp]
    constructor
    · rintro ⟨report, last, ran⟩
      obtain ⟨counts, middle, worked, -⟩ := applyFixes_ran ran
      exact ⟨counts, middle, worked⟩
    · rintro ⟨counts, last, ran⟩
      exact applyFixes_of_applyRows ran
  · intro fault last failed
    exact applyRows_fault seated_bottomUp (applyRows_of_applyFixes_failed failed)
  · intro yields
    obtain ⟨counts, last, ran⟩ :=
      applyRows_of_waits (lined_of_yields yields) (waits_of_yields yields)
    exact applyFixes_of_applyRows ran

def pairRows : List FixRow := [castRow "queen", castRow "jester"]

theorem ample_scene : Ample pairRows "a" scene.lines ⟨1, 7, 3, 6⟩ where
  opens := by decide
  roomy := by
    have located : locate scene "a" = .ok (some sceneLocation) := by decide +kernel
    obtain ⟨stands, -⟩ := @stands_of_extent? _ ⟨1, 7, 3, 6⟩ _ _ located rfl
    obtain ⟨line, found, opens, window⟩ := stands.named
    obtain rfl := found.unique (firstAt_idLine located)
    exact { stands with
      named := ⟨_, found, opens, window, .inl (by decide)⟩
      record := by decide +kernel
      array := by decide +kernel }
  still := by
    have still : ∀ row ∈ pairRows, ∀ speech ∈ row.fixes.speeches,
        lineDelta .square (speakLine speech "") = 0 ∧ lineDelta .curly (speakLine speech "") = 0 ∧
          hasId "a" (speakLine speech "") = false := by decide +kernel
    intro row member _ speech there
    obtain ⟨square, curly, unnamed⟩ := still row member speech there
    exact ⟨square, curly, unnamed⟩

theorem applyFixes_through_pair : ∃ report last,
    applyFixes templateModule pairRows ⟨scene, []⟩ = .ok report last ∧
      (report.issues = pairRows.filterMap (missed? scene) ∨
        report.issues = pairRows.filterMap (missed? scene) ++ [.missingImport templateModule]) := by
  obtain ⟨-, -, issues, through⟩ := @applyFixes_through_iff templateModule ⟨scene, []⟩ pairRows
  have located : (locateRows scene pairRows).1 =
      [(sceneLocation, castRow "queen"), (sceneLocation, castRow "jester")] := by decide +kernel
  have yields : (locateRows scene pairRows).1.Pairwise (Yields scene pairRows) := by
    rw [located]
    refine List.pairwise_pair.mpr ?_
    have same : (castRow "queen").id = (castRow "jester").id := rfl
    simp only [Yields, same, if_true]
    exact ⟨_, ample_scene⟩
  obtain ⟨report, last, ran⟩ := through yields
  exact ⟨report, last, ran, issues report last ran⟩

/-- The fault that ends the run over rows in order. -/
def stopsWith (located : List (Location × FixRow)) (buffer : Buffer) : Option Nesting :=
  match applyRows located ⟨buffer, []⟩ with
  | .error (.nesting nesting) _ => some nesting
  | _ => none

theorem applyFixes_of_stopsWith {nesting : Nesting}
    (sorted : (locateRows buffer rows).1.Pairwise fun a b =>
      decide (b.1.record.start ≤ a.1.record.start) = true)
    (stops : stopsWith (locateRows buffer rows).1 buffer = some nesting) :
    ∃ last, applyFixes module rows ⟨buffer, []⟩ = .error (.nesting nesting) last := by
  rw [stopsWith] at stops
  split at stops
  · next found last failed =>
    cases stops
    refine ⟨last, ?_⟩
    rw [applyFixes_eq, bottomUp, List.mergeSort_of_pairwise sorted]
    exact bind_failed.mpr (.inl failed)
  · cases stops

def braceRow : FixRow := ⟨"zone", "a", "NEEDS_FIXES", .parseColumn
  "Add dialogue for king: \x7b action: 'emote', character: 'king', emoji: 'happy', text: 'Hi \x7b' \x7d"⟩

/-- The record is not found again behind a line with one brace more. -/
theorem applyFixes_stops_brace : ∃ last, applyFixes templateModule [braceRow, braceRow]
    ⟨scene, []⟩ = .error (.nesting (.neverCloses "a" 1)) last :=
  applyFixes_of_stopsWith (by decide +kernel) (by decide +kernel)

end Whole

end Stagecraft
