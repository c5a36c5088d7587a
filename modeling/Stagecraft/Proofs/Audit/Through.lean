import Stagecraft.Proofs.Audit.Findings
import Stagecraft.Proofs.Edit.Stale
import Stagecraft.Proofs.Vignette.Playable

/-!
When an audit gets through. It passes over a record whose text is no literal, and gets through any
other just when each element of its steps can be read and each action can be scored, told and
listed. Then it has one row or one issue for every record, in order.
-/

namespace Stagecraft

variable {buffer : Buffer} {chooser : Chooser} {zone : String} {bench after : Bench} {audit : Audit}
  {location : Location} {locations : List Location} {vignette : Vignette} {survey : Survey}
  {fault : Fault} {lines : List String}

/-- The text of the record is no literal, or nothing in it stops the audit. -/
def Auditable (buffer : Buffer) (location : Location) : Prop :=
  (∃ error, readRecord buffer location = .error (.unreadable error)) ∨
    ∃ value, RecordReads buffer location value ∧
      (∀ element ∈ elementsOf (fieldsOf value), element.Expands) ∧
      ∀ reading, Value.readElements (elementsOf (fieldsOf value)) = .ok reading →
        ∀ action ∈ reading.steps.flatMap (·.actions), Action.Plays action

/-- A record that a survey found stands where its location says. -/
structure Current (buffer : Buffer) (location : Location) : Prop where
  valid : buffer.isValid location.record = true
  inside : location.idLine < buffer.lines.length

theorem current_of_findAll (surveyed : findAll buffer = .ok survey)
    (member : location ∈ survey.found) : Current buffer location := by
  obtain ⟨located, held⟩ := found_of_findAll surveyed member
  obtain ⟨current, ends, -⟩ := locateAt_spans located
  exact ⟨Buffer.isValid_of_current current, Nat.lt_of_lt_of_le held ends⟩

theorem liftFault_failed {α ε : Type} {wrap : ε → Fault} {answer : Except ε α} :
    liftFault wrap answer = .error fault ↔ ∃ cause, answer = .error cause ∧ wrap cause = fault := by
  cases answer <;> simp [liftFault]

theorem auditVignette_ran_iff :
    (∃ row, auditVignette zone chooser lines location vignette = .ok row) ↔
    location.idLine < lines.length ∧ ∀ action ∈ vignette.actions, action.Plays := by
  rw [← @plays_iff chooser]
  constructor
  · rintro ⟨row, ran⟩
    obtain ⟨report, scored, ran⟩ := Except.bind_ran.mp ran
    obtain ⟨stage, placed, ran⟩ := Except.bind_ran.mp ran
    obtain ⟨summary, told, ran⟩ := Except.bind_ran.mp ran
    obtain ⟨actions, listed, -⟩ := Except.bind_ran.mp ran
    refine ⟨?_, ⟨_, liftFault_ran.mp scored⟩, ⟨_, liftFault_ran.mp told⟩, _,
      liftFault_ran.mp listed⟩
    rw [stageFor] at placed
    split at placed
    · assumption
    · cases placed
  · rintro ⟨inside, ⟨report, scored⟩, ⟨summary, told⟩, actions, listed⟩
    have placed : stageFor lines location.idLine = .ok (stageAbove lines location.idLine) :=
      if_pos inside
    exact ⟨_, Except.bind_ran.mpr ⟨report, liftFault_ran.mpr scored, Except.bind_ran.mpr ⟨_, placed,
      Except.bind_ran.mpr ⟨summary, liftFault_ran.mpr told, Except.bind_ran.mpr ⟨actions,
        liftFault_ran.mpr listed, rfl⟩⟩⟩⟩⟩

theorem noteUnresolved_defined (zone : String) (vignette : Vignette) (bench : Bench) :
    ∃ after, noteUnresolved zone vignette bench = .ok () after := by
  rw [noteUnresolved]
  split
  · exact ⟨bench, rfl⟩
  · exact ⟨_, rfl⟩

/-- A record gets through as unreadable, or with its row. -/
theorem auditRecord_ran_iff :
    (∃ audit after, auditRecord zone chooser location bench = .ok audit after) ↔
    (∃ error, readRecord bench.buffer location = .error (.unreadable error)) ∨
      ∃ vignette row, readRecord bench.buffer location = .ok vignette ∧
        auditVignette zone chooser bench.buffer.lines location vignette = .ok row := by
  simp only [auditRecord, get_bind_ran]
  cases read : readRecord bench.buffer location with
  | error fault =>
    cases fault with
    | unreadable error =>
      exact iff_of_true ⟨_, _, rfl⟩ (.inl ⟨error, rfl⟩)
    | _ =>
      refine iff_of_false ?_ (by simp)
      rintro ⟨_, _, ⟨⟩⟩
  | ok vignette =>
    constructor
    · rintro ⟨audit, after, ran⟩
      obtain ⟨_, noted, -, ran⟩ := bind_ran.mp ran
      obtain ⟨row, listed, -⟩ := Job.ofExcept_bind_ran.mp ran
      exact .inr ⟨vignette, row, rfl, listed⟩
    · rintro (⟨error, ⟨⟩⟩ | ⟨_, row, ⟨⟩, listed⟩)
      obtain ⟨noted, quiet⟩ := noteUnresolved_defined zone vignette bench
      exact ⟨_, _, bind_ran.mpr ⟨_, noted, quiet,
        Job.ofExcept_bind_ran.mpr ⟨row, listed, rfl⟩⟩⟩

theorem auditRecord_ran_iff_auditable (current : Current bench.buffer location) :
    (∃ audit after, auditRecord zone chooser location bench = .ok audit after) ↔
      Auditable bench.buffer location := by
  rw [auditRecord_ran_iff, Auditable]
  refine or_congr_right ?_
  constructor
  · rintro ⟨vignette, row, read, listed⟩
    obtain ⟨value, reads, made⟩ := readRecord_iff.mp read
    obtain ⟨-, plays⟩ := auditVignette_ran_iff.mp ⟨row, listed⟩
    obtain ⟨reading, known, rfl⟩ := ofFields_iff.mp made
    refine ⟨value, reads, readElements_defined_iff.mp ⟨reading, known⟩, ?_⟩
    intro other known' action member
    obtain rfl := Except.ok.inj (known.symm.trans known')
    exact plays action member
  · rintro ⟨value, reads, expands, plays⟩
    obtain ⟨reading, known⟩ := readElements_defined_iff.mpr expands
    obtain ⟨vignette, made, steps⟩ : ∃ vignette, Vignette.ofFields (fieldsOf value) = .ok vignette ∧
        vignette.steps = reading.steps := ⟨_, ofFields_iff.mpr ⟨reading, known, rfl⟩, rfl⟩
    have plays' : ∀ action ∈ vignette.actions, action.Plays := by
      rw [Vignette.actions, steps]
      exact plays reading known
    obtain ⟨row, listed⟩ := auditVignette_ran_iff.mpr ⟨current.inside, plays'⟩
    exact ⟨vignette, row, readRecord_iff.mpr ⟨value, reads, made⟩, listed⟩

theorem auditRecords_ran_iff (current : ∀ location ∈ locations, Current bench.buffer location) :
    (∃ audit after, auditRecords zone chooser locations bench = .ok audit after) ↔
      ∀ location ∈ locations, Auditable bench.buffer location := by
  induction locations generalizing bench with
  | nil => exact iff_of_true ⟨_, _, rfl⟩ (by simp)
  | cons location rest ih =>
    have here := @auditRecord_ran_iff_auditable chooser zone bench location
      (current location (List.mem_cons_self ..))
    rw [List.forall_mem_cons, ← here]
    constructor
    · rintro ⟨audit, after, ran⟩
      obtain ⟨first, middle, ran, below⟩ := bind_ran.mp ran
      obtain ⟨others, last, later, -⟩ := bind_ran.mp below
      have kept := (auditRecord_listed ran).1
      refine ⟨⟨_, _, ran⟩, ?_⟩
      rw [← kept]
      refine (ih ?_).mp ⟨_, _, later⟩
      rw [kept]
      exact fun other member => current other (List.mem_cons_of_mem _ member)
    · rintro ⟨⟨first, middle, ran⟩, rest'⟩
      have kept := (auditRecord_listed ran).1
      rw [← kept] at rest' current
      obtain ⟨others, last, later⟩ :=
        (ih fun other member => current other (List.mem_cons_of_mem _ member)).mpr rest'
      exact ⟨_, _, bind_ran.mpr ⟨first, middle, ran, bind_ran.mpr ⟨others, last, later, rfl⟩⟩⟩

/-- What an audit has for a record: that it cannot be read, or its row. -/
inductive Answers (buffer : Buffer) (chooser : Chooser) (zone : String) (location : Location) :
    Audit → Prop where
  | unreadable {error : SyntaxError}
      (unread : readRecord buffer location = .error (.unreadable error)) :
      Answers buffer chooser zone location ⟨[], [.unreadable location.id]⟩
  | row {finding : Finding buffer chooser} {row : AuditRow}
      (found : Finding.at? buffer chooser location = some finding)
      (listed : finding.Listed zone row) :
      Answers buffer chooser zone location ⟨[row], []⟩

theorem auditRecord_answers (ran : auditRecord zone chooser location bench = .ok audit after) :
    Answers bench.buffer chooser zone location audit := by
  rw [auditRecord, get_bind_ran] at ran
  cases read : readRecord bench.buffer location with
  | error fault =>
    rw [read] at ran
    cases fault with
    | unreadable error =>
      obtain ⟨_, noted, -, ran⟩ := bind_ran.mp ran
      obtain ⟨rfl, -⟩ := pure_ran.mp ran
      exact .unreadable read
    | _ => cases ran
  | ok vignette =>
    rw [read] at ran
    obtain ⟨_, noted, -, ran⟩ := bind_ran.mp ran
    obtain ⟨row, listed, ran⟩ := Job.ofExcept_bind_ran.mp ran
    obtain ⟨rfl, -⟩ := pure_ran.mp ran
    obtain ⟨finding, found, listed⟩ := auditVignette_listed read listed
    exact .row found listed

theorem auditRecords_answers (ran : auditRecords zone chooser locations bench = .ok audit after) :
    ∃ parts, List.Forall₂ (Answers bench.buffer chooser zone) locations parts ∧
      audit.rows = parts.flatMap (·.rows) ∧ audit.issues = parts.flatMap (·.issues) := by
  induction locations generalizing bench audit after with
  | nil =>
    obtain ⟨rfl, -⟩ := pure_ran.mp ran
    exact ⟨[], .nil, rfl, rfl⟩
  | cons location rest ih =>
    obtain ⟨first, middle, here, below⟩ := bind_ran.mp ran
    obtain ⟨others, last, later, ends⟩ := bind_ran.mp below
    obtain ⟨rfl, -⟩ := pure_ran.mp ends
    obtain ⟨parts, answers, rows, issues⟩ := ih later
    rw [(auditRecord_listed here).1] at answers
    exact ⟨first :: parts, .cons (auditRecord_answers here) answers,
      by simp only [rows, List.flatMap_cons], by simp only [issues, List.flatMap_cons]⟩

theorem readRecord_fault (valid : buffer.isValid location.record = true)
    (failed : readRecord buffer location = .error fault) :
    (∃ error, fault = .unreadable error) ∨ (∃ cause, fault = .misuse cause) ∨
      ∃ limit, fault = .beyond limit := by
  rw [readRecord, Except.bind_failed_of_ok (liftFault_require_ran.mpr valid),
    Except.bind_failed] at failed
  rcases failed with unread | ⟨value, -, unmade⟩
  · obtain ⟨cause, -, rfl⟩ := liftFault_failed.mp unread
    cases cause with
    | malformed error => exact .inl ⟨error, rfl⟩
    | beyond limit => exact .inr (.inr ⟨limit, rfl⟩)
  · have misused : ∃ cause, Fault.misuse cause = fault := by
      cases value <;> exact (liftFault_failed.mp unmade).imp fun _ both => both.2
    obtain ⟨cause, rfl⟩ := misused
    exact .inr (.inl ⟨cause, rfl⟩)

theorem auditVignette_fault
    (failed : auditVignette zone chooser lines location vignette = .error fault) :
    ∃ cause, fault = .misuse cause := by
  rcases Except.bind_failed.mp failed with unscored | ⟨report, -, failed⟩
  · obtain ⟨cause, -, rfl⟩ := liftFault_failed.mp unscored
    exact ⟨cause, rfl⟩
  rcases Except.bind_failed.mp failed with outside | ⟨stage, -, failed⟩
  · rw [stageFor] at outside
    split at outside
    · cases outside
    · exact ⟨_, (Except.error.inj outside).symm⟩
  rcases Except.bind_failed.mp failed with untold | ⟨summary, -, failed⟩
  · obtain ⟨cause, -, rfl⟩ := liftFault_failed.mp untold
    exact ⟨cause, rfl⟩
  rcases Except.bind_failed.mp failed with unlisted | ⟨actions, -, failed⟩
  · obtain ⟨cause, -, rfl⟩ := liftFault_failed.mp unlisted
    exact ⟨cause, rfl⟩
  · cases failed

/-- What stops an audit at a record. -/
theorem auditRecord_fault (current : Current bench.buffer location)
    (failed : auditRecord zone chooser location bench = .error fault after) :
    (∃ cause, fault = .misuse cause) ∨ ∃ limit, fault = .beyond limit := by
  simp only [auditRecord] at failed
  rw [bind_failed_of_ok (show (get : Job Bench) bench = .ok bench bench from rfl)] at failed
  cases read : readRecord bench.buffer location with
  | error other =>
    rw [read] at failed
    rcases readRecord_fault current.valid read with ⟨error, rfl⟩ | misused | beyond
    · cases failed
    · obtain ⟨cause, rfl⟩ := misused
      cases failed
      exact .inl ⟨cause, rfl⟩
    · obtain ⟨limit, rfl⟩ := beyond
      cases failed
      exact .inr ⟨limit, rfl⟩
  | ok vignette =>
    rw [read] at failed
    obtain ⟨noted, quiet⟩ := noteUnresolved_defined zone vignette bench
    rw [bind_failed_of_ok quiet] at failed
    rcases bind_failed.mp failed with stops | ⟨row, _, -, ends⟩
    · cases listed : auditVignette zone chooser bench.buffer.lines location vignette with
      | ok row =>
        rw [listed] at stops
        cases stops
      | error other =>
        rw [listed] at stops
        cases stops
        exact .inl (auditVignette_fault listed)
    · cases ends

theorem auditRecords_fault (current : ∀ location ∈ locations, Current bench.buffer location)
    (failed : auditRecords zone chooser locations bench = .error fault after) :
    (∃ cause, fault = .misuse cause) ∨ ∃ limit, fault = .beyond limit := by
  induction locations generalizing bench with
  | nil => cases failed
  | cons location rest ih =>
    rcases bind_failed.mp failed with stops | ⟨first, middle, ran, below⟩
    · exact auditRecord_fault (current location (List.mem_cons_self ..)) stops
    · rw [← (auditRecord_listed ran).1] at current
      apply ih fun other member => current other (List.mem_cons_of_mem _ member)
      exact bind_pure_failed.mp below

/-- An audit gets through just when no record stops it. A record stops it by a value that cannot
stand where it does, or by a text beyond a limit of the reader. When the audit gets through, it has
one row for each record listed, or the issue that the record cannot be read. -/
theorem auditBuffer_through_iff (surveyed : findAll bench.buffer = .ok survey) :
    ((∃ audit after, auditBuffer zone chooser bench = .ok audit after) ↔
        ∀ location ∈ survey.found, Auditable bench.buffer location) ∧
      (∀ fault after, auditBuffer zone chooser bench = .error fault after →
        (∃ cause, fault = .misuse cause) ∨ ∃ limit, fault = .beyond limit) ∧
      ∀ audit after, auditBuffer zone chooser bench = .ok audit after →
        ∃ parts, List.Forall₂ (Answers bench.buffer chooser zone) survey.found parts ∧
          audit.rows = parts.flatMap (·.rows) ∧
          audit.issues = survey.issues ++ parts.flatMap (·.issues) := by
  have current : ∀ location ∈ survey.found, Current bench.buffer location :=
    fun location member => current_of_findAll surveyed member
  rw [auditBuffer_surveyed surveyed]
  refine ⟨?_, ?_, ?_⟩
  · rw [← @auditRecords_ran_iff chooser zone _ _ current]
    constructor
    · rintro ⟨audit, after, ran⟩
      obtain ⟨records, ran, -⟩ := bind_pure_ran.mp ran
      exact ⟨records, after, ran⟩
    · rintro ⟨records, after, ran⟩
      exact ⟨_, after, bind_pure_ran.mpr ⟨records, ran, rfl⟩⟩
  · intro fault after failed
    exact auditRecords_fault current (bind_pure_failed.mp failed)
  · intro audit after ran
    obtain ⟨records, worked, rfl⟩ := bind_pure_ran.mp ran
    obtain ⟨parts, answers, rows, issues⟩ := auditRecords_answers worked
    exact ⟨parts, answers, rows, congrArg (survey.issues ++ ·) issues⟩

/-- The second record is no literal. -/
def mixedScene : Buffer := ⟨["const A = \x7b", "id: 'a',", "steps: [", "...NARRATOR('Once.'),",
  "],", "\x7d;", "const B = \x7b", "id: 'b',", "steps: [", "@", "],", "\x7d;"], []⟩

def mixedLocations : List Location :=
  [⟨"a", 1, ⟨0, 6, 0⟩, some ⟨2, 5, 0⟩⟩, ⟨"b", 7, ⟨6, 12, 0⟩, some ⟨8, 11, 0⟩⟩]

def audits (buffer : Buffer) (location : Location) : Bool :=
  match auditRecord "zone" (.at 0) location ⟨buffer, []⟩ with
  | .ok _ _ => true
  | .error _ _ => false

theorem auditable_of_audits (current : Current buffer location)
    (done : audits buffer location = true) : Auditable buffer location := by
  rw [audits] at done
  split at done
  · next audit after ran =>
    exact (@auditRecord_ran_iff_auditable _ _ ⟨buffer, []⟩ _ current).mp ⟨audit, after, ran⟩
  · cases done

theorem auditBuffer_through_mixed : ∃ survey audit after, findAll mixedScene = .ok survey ∧
    survey.found = mixedLocations ∧
    auditBuffer "zone" (.at 0) ⟨mixedScene, []⟩ = .ok audit after ∧
    ∃ parts, List.Forall₂ (Answers mixedScene (.at 0) "zone") survey.found parts ∧
      audit.rows = parts.flatMap (·.rows) ∧
      audit.issues = survey.issues ++ parts.flatMap (·.issues) := by
  have found : foundIn mixedScene = mixedLocations := by decide +kernel
  obtain ⟨survey, surveyed, listed⟩ := foundIn_eq found (by simp [mixedLocations])
  obtain ⟨through, -, answers⟩ :=
    @auditBuffer_through_iff (.at 0) "zone" ⟨mixedScene, []⟩ survey surveyed
  have done : ∀ location ∈ mixedLocations, audits mixedScene location = true := by decide +kernel
  have each : ∀ location ∈ survey.found, Auditable mixedScene location := by
    intro location member
    apply auditable_of_audits (current_of_findAll surveyed member)
    exact done location (listed ▸ member)
  obtain ⟨audit, after, ran⟩ := through.mpr each
  exact ⟨survey, audit, after, surveyed, listed, ran, answers audit after ran⟩

def scatterScene : Buffer := ⟨["const A = \x7b", "id: 'a',", "steps: [", "...SCATTER(['a'], []),",
  "],", "\x7d;"], []⟩

/-- The misuse that stops the audit of a scene. -/
def stoppedBy (buffer : Buffer) : Option Misuse :=
  match auditBuffer "zone" (.at 0) ⟨buffer, []⟩ with
  | .error (.misuse cause) _ => some cause
  | _ => none

theorem stoppedBy_eq_some {cause : Misuse} (stopped : stoppedBy buffer = some cause) :
    ∃ last, auditBuffer "zone" (.at 0) ⟨buffer, []⟩ = .error (.misuse cause) last := by
  rw [stoppedBy] at stopped
  split at stopped
  · next found last failed =>
    cases stopped
    exact ⟨last, failed⟩
  · cases stopped

/-- No place is left to send a character to. -/
theorem auditBuffer_stops_scatter : ∃ survey last, findAll scatterScene = .ok survey ∧
    survey.found = [⟨"a", 1, ⟨0, 6, 0⟩, some ⟨2, 5, 0⟩⟩] ∧
    auditBuffer "zone" (.at 0) ⟨scatterScene, []⟩ = .error (.misuse .zeroDivisor) last := by
  have found : foundIn scatterScene = [⟨"a", 1, ⟨0, 6, 0⟩, some ⟨2, 5, 0⟩⟩] := by decide +kernel
  obtain ⟨survey, surveyed, listed⟩ := foundIn_eq found (by simp)
  obtain ⟨last, failed⟩ := stoppedBy_eq_some (show stoppedBy scatterScene = some .zeroDivisor by
    decide +kernel)
  exact ⟨survey, last, surveyed, listed, failed⟩

/-- A list cannot be told from other names. -/
example : stoppedBy ⟨["const A = \x7b", "id: 'a',", "steps: [",
    "\x7b parallel: [\x7b action: 'emote', character: ['a'] \x7d] \x7d,", "],", "\x7d;"], []⟩ =
    some .wrongKind := by decide +kernel

end Stagecraft
