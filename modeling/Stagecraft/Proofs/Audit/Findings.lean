import Mathlib.Data.List.Forall2
import Stagecraft.Audit
import Stagecraft.Proofs.Edit.Steps
import Stagecraft.Proofs.Vignette.Elements

/-!
What an audit finds: one row for each record that can be read, with the bucket and the fixes of the
report on it.
-/

namespace Stagecraft

/-- A record that can be read, with the report on it. -/
structure Finding (buffer : Buffer) (chooser : Chooser) where
  location : Location
  vignette : Vignette
  report : Report
  read : readRecord buffer location = .ok vignette
  scored : evaluate rules chooser vignette = .ok report

namespace Finding

variable {buffer : Buffer} {chooser : Chooser} {location : Location} {vignette : Vignette}
  {report : Report}

/-- The id of a record is its own unless that is empty. -/
def id (finding : Finding buffer chooser) : String :=
  if finding.vignette.id = "" then finding.location.id else finding.vignette.id

def at? (buffer : Buffer) (chooser : Chooser) (location : Location) :
    Option (Finding buffer chooser) :=
  match read : readRecord buffer location with
  | .error _ => none
  | .ok vignette =>
    match scored : evaluate rules chooser vignette with
    | .error _ => none
    | .ok report => some ⟨location, vignette, report, read, scored⟩

/-- The records of a buffer from top to bottom. -/
def all (buffer : Buffer) (chooser : Chooser) : List (Finding buffer chooser) :=
  match findAll buffer with
  | .error _ => []
  | .ok survey => survey.found.filterMap (at? buffer chooser)

theorem at?_unread {fault : Fault} (unread : readRecord buffer location = .error fault) :
    at? buffer chooser location = none := by
  rw [at?]
  split
  · rfl
  · next read =>
    rw [unread] at read
    cases read

theorem at?_read (read : readRecord buffer location = .ok vignette)
    (scored : evaluate rules chooser vignette = .ok report) :
    at? buffer chooser location = some ⟨location, vignette, report, read, scored⟩ := by
  rw [at?]
  split
  · next unread =>
    rw [read] at unread
    cases unread
  · next other read' =>
    rw [read] at read'
    cases read'
    split
    · next unscored =>
      rw [scored] at unscored
      cases unscored
    · next found =>
      rw [scored] at found
      cases found
      rfl

/-- A record that can be read from the characters of its lines, with the report on it. -/
def known? (buffer : Buffer) (chooser : Chooser) (location : Location) :
    Option (Location × Vignette × Report) := do
  let vignette ← (recordValue buffer location >>= describedBy).toOption
  let report ← (evaluate rules chooser vignette).toOption
  return (location, vignette, report)

theorem map_at? : (at? buffer chooser location).map
    (fun finding => (finding.location, finding.vignette, finding.report)) =
      known? buffer chooser location := by
  rw [at?, known?, ← readRecord_eq]
  split
  · next unread => simp [unread, Except.toOption]
  · next vignette read =>
    split
    · next unscored => simp [read, unscored, Except.toOption]
    · next report scored => simp [read, scored, Except.toOption]

/-- What is found in a buffer, by what is known of each record that a survey finds. -/
theorem map_all {α : Type} {survey : Survey} (f : Location × Vignette × Report → α)
    (surveyed : findAll buffer = .ok survey) :
    (all buffer chooser).map
        (fun finding => f (finding.location, finding.vignette, finding.report)) =
      (survey.found.filterMap (known? buffer chooser)).map f := by
  rw [all, surveyed]
  simp only [List.map_filterMap, ← map_at?, Option.map_map]
  rfl

/-- The row of a sheet for a record. -/
structure Listed (zone : String) (finding : Finding buffer chooser) (row : AuditRow) : Prop where
  zone : row.zone = zone
  id : row.id = finding.id
  bucket : row.bucket = finding.report.bucket
  changes : row.changes = renderFixes finding.report.fixes

end Finding

variable {chooser : Chooser} {zone : String} {bench after : Bench} {audit : Audit}
  {location : Location} {locations : List Location} {vignette : Vignette} {row : AuditRow}

theorem noteUnresolved_buffer {u : Unit} (ran : noteUnresolved zone vignette bench = .ok u after) :
    after.buffer = bench.buffer := by
  rw [noteUnresolved] at ran
  split at ran
  · rw [(pure_ran.mp ran).2]
  · rw [modify_ran.mp ran]

theorem auditVignette_listed {buffer : Buffer} {lines : List String}
    (read : readRecord buffer location = .ok vignette)
    (ran : auditVignette zone chooser lines location vignette = .ok row) :
    ∃ finding, Finding.at? buffer chooser location = some finding ∧ finding.Listed zone row := by
  obtain ⟨report, scored, ran⟩ := Except.bind_ran.mp ran
  obtain ⟨stage, -, ran⟩ := Except.bind_ran.mp ran
  obtain ⟨summary, -, ran⟩ := Except.bind_ran.mp ran
  obtain ⟨actions, -, ran⟩ := Except.bind_ran.mp ran
  cases ran
  have scored' : evaluate rules chooser vignette = .ok report := by
    cases known : evaluate rules chooser vignette with
    | error cause =>
      rw [known] at scored
      cases scored
    | ok other =>
      rw [known] at scored
      cases scored
      rfl
  exact ⟨_, Finding.at?_read read scored', ⟨rfl, rfl, rfl, rfl⟩⟩

theorem auditRecord_listed (ran : auditRecord zone chooser location bench = .ok audit after) :
    after.buffer = bench.buffer ∧ List.Forall₂ (Finding.Listed zone)
      (Finding.at? bench.buffer chooser location).toList audit.rows := by
  rw [auditRecord, get_bind_ran] at ran
  cases read : readRecord bench.buffer location with
  | error fault =>
    rw [Finding.at?_unread read]
    rw [read] at ran
    cases fault with
    | unreadable error =>
      obtain ⟨_, noted, quiet, ran⟩ := bind_ran.mp ran
      obtain ⟨rfl, rfl⟩ := pure_ran.mp ran
      rw [modify_ran.mp quiet]
      exact ⟨rfl, .nil⟩
    | _ => cases ran
  | ok vignette =>
    rw [read] at ran
    obtain ⟨_, noted, quiet, ran⟩ := bind_ran.mp ran
    obtain ⟨row, listed, ran⟩ := Job.ofExcept_bind_ran.mp ran
    obtain ⟨rfl, rfl⟩ := pure_ran.mp ran
    obtain ⟨finding, found, listed⟩ := auditVignette_listed read listed
    rw [found]
    exact ⟨noteUnresolved_buffer quiet, .cons listed .nil⟩

theorem auditRecords_single :
    auditRecords zone chooser [location] = auditRecord zone chooser location := by
  simp [auditRecords]

theorem auditRecords_listed (ran : auditRecords zone chooser locations bench = .ok audit after) :
    after.buffer = bench.buffer ∧ List.Forall₂ (Finding.Listed zone)
      (locations.filterMap (Finding.at? bench.buffer chooser)) audit.rows := by
  induction locations generalizing bench audit with
  | nil =>
    obtain ⟨rfl, rfl⟩ := pure_ran.mp ran
    exact ⟨rfl, .nil⟩
  | cons location rest ih =>
    obtain ⟨first, middle, here, below⟩ := bind_ran.mp ran
    obtain ⟨others, last, later, ends⟩ := bind_ran.mp below
    obtain ⟨rfl, rfl⟩ := pure_ran.mp ends
    obtain ⟨kept, listed⟩ := auditRecord_listed here
    obtain ⟨kept', listed'⟩ := ih later
    rw [kept] at kept' listed'
    have parts : (location :: rest).filterMap (Finding.at? bench.buffer chooser) =
        (Finding.at? bench.buffer chooser location).toList ++
          rest.filterMap (Finding.at? bench.buffer chooser) := by
      rw [List.filterMap_cons]
      cases Finding.at? bench.buffer chooser location <;> rfl
    rw [parts]
    exact ⟨kept', List.rel_append listed listed'⟩

/-- A file is audited by the records that a survey finds in it. -/
theorem auditBuffer_surveyed {survey : Survey} (surveyed : findAll bench.buffer = .ok survey) :
    auditBuffer zone chooser bench =
      (auditRecords zone chooser survey.found >>= fun audit =>
        pure { audit with issues := survey.issues ++ audit.issues }) bench := by
  rw [auditBuffer]
  change (Job.ofExcept (findAll bench.buffer) >>= _) bench = _
  rw [surveyed]
  rfl

/-- The rows of an audit are the records that can be read, in order. -/
theorem auditBuffer_listed (ran : auditBuffer zone chooser bench = .ok audit after) :
    List.Forall₂ (Finding.Listed zone) (Finding.all bench.buffer chooser) audit.rows := by
  rw [auditBuffer, get_bind_ran] at ran
  obtain ⟨survey, found, ran⟩ := Job.ofExcept_bind_ran.mp ran
  obtain ⟨rows, last, ran, rest⟩ := bind_ran.mp ran
  obtain ⟨rfl, rfl⟩ := pure_ran.mp rest
  rw [Finding.all, found]
  exact (auditRecords_listed ran).2

end Stagecraft
