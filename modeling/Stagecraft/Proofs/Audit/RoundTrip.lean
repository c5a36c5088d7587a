import Stagecraft.Proofs.Audit.Findings
import Stagecraft.Proofs.Audit.Sheet
import Stagecraft.Proofs.Quality.Suggestions
import Stagecraft.Proofs.Record.Survey

/-!
From an audit to its sheet and back.
-/

namespace Stagecraft

namespace Finding

variable {buffer : Buffer} {chooser : Chooser} {finding : Finding buffer chooser}
  {zone : String} {row : AuditRow}

/-- A record in a fixable bucket with a speech to give. -/
def speaks (finding : Finding buffer chooser) : Bool :=
  finding.report.bucket.isFixable && finding.report.fixes.any Fix.isSpeech

/-- The row of fixes for a record holds every speech suggested for it. -/
structure Asked (zone : String) (finding : Finding buffer chooser) (row : FixRow) : Prop where
  zone : row.zone = zone
  id : row.id = finding.id
  score : row.score = finding.report.bucket.label
  dialogue : row.fixes.dialogue = finding.report.fixes.filterMap Fix.line?
  opening : ∀ speech, row.fixes.opening = some speech ↔ .opening speech ∈ finding.report.fixes
  closing : ∀ speech, row.fixes.closing = some speech ↔ .closing speech ∈ finding.report.fixes

/-- Its fixes come back from a sheet, should they be read. -/
def Legible (finding : Finding buffer chooser) : Prop :=
  finding.report.bucket.isFixable = true → ∀ fix ∈ finding.report.fixes, fix.Legible

theorem Listed.fixRow?_speaks (listed : finding.Listed zone row) (legible : finding.Legible)
    (speaks : finding.speaks = true) :
    ∃ fixRow, row.fixRow? = some fixRow ∧ finding.Asked zone fixRow := by
  obtain ⟨speeches, notes, arranged⟩ := evaluate_arranged finding.scored
  obtain ⟨fixable, speech⟩ := Bool.and_eq_true_iff.mp speaks
  have column : SpeechFixes.parseColumn row.changes = speeches := by
    rw [listed.changes, arranged.parseColumn_eq (legible fixable)]
  have filled : (row.bucket.isFixable && !speeches.isEmpty) = true := by
    rw [listed.bucket, fixable, ← arranged.any_isSpeech, speech]
    rfl
  refine ⟨⟨row.zone, row.id, row.bucket.label, speeches⟩, ?_, ?_⟩
  · rw [AuditRow.fixRow?]
    simp only [column, filled, if_true]
  · exact {
      zone := listed.zone
      id := listed.id
      score := by rw [listed.bucket]
      dialogue := arranged.filterMap_line?.symm
      opening := fun _ => arranged.mem_opening.symm
      closing := fun _ => arranged.mem_closing.symm }

theorem Listed.fixRow?_silent (listed : finding.Listed zone row) (legible : finding.Legible)
    (silent : finding.speaks = false) : row.fixRow? = none := by
  obtain ⟨speeches, notes, arranged⟩ := evaluate_arranged finding.scored
  rw [AuditRow.fixRow?, listed.bucket]
  rw [speaks] at silent
  cases fixable : finding.report.bucket.isFixable with
  | false => simp
  | true =>
    have column : SpeechFixes.parseColumn row.changes = speeches := by
      rw [listed.changes, arranged.parseColumn_eq (legible fixable)]
    rw [fixable, arranged.any_isSpeech] at silent
    simp [column, silent]

theorem asked_of_listed {findings : List (Finding buffer chooser)} {rows : List AuditRow}
    (listed : List.Forall₂ (Listed zone) findings rows)
    (legible : ∀ finding ∈ findings, finding.Legible) :
    List.Forall₂ (Asked zone) (findings.filter speaks) (rows.filterMap AuditRow.fixRow?) := by
  induction listed with
  | nil => exact .nil
  | @cons finding row findings rows first others ih =>
    have here := legible finding List.mem_cons_self
    have later := ih fun other member => legible other (List.mem_cons_of_mem _ member)
    cases speaks : finding.speaks with
    | true =>
      obtain ⟨fixRow, read, asked⟩ := first.fixRow?_speaks here speaks
      rw [List.filter_cons_of_pos speaks, List.filterMap_cons_some read]
      exact .cons asked later
    | false =>
      have dropped := first.fixRow?_silent here speaks
      rw [List.filter_cons_of_neg (by simp [speaks]), List.filterMap_cons_none dropped]
      exact later

end Finding

variable {chooser : Chooser} {zone path : String} {bench after : Bench} {audit : Audit}
  {actionColumns : Nat} {world later : World} {u : Unit}

/-- The sheet of an audit, once written, gives back the suggested speeches of each record in a
fixable bucket, in order. -/
theorem auditBuffer_speeches (audited : auditBuffer zone chooser bench = .ok audit after)
    (legible : ∀ finding ∈ Finding.all bench.buffer chooser, finding.Legible)
    (sound : Sound (auditRows actionColumns audit.rows))
    (wrote : (writeSheet path (auditRows actionColumns audit.rows)).on world = (.ok u, later)) :
    List.Forall₂ (Finding.Listed zone) (Finding.all bench.buffer chooser) audit.rows ∧
      ∃ text rows, later.disk.read path = .ok text ∧ readFixSheet path text = .ok rows ∧
        List.Forall₂ (Finding.Asked zone)
          ((Finding.all bench.buffer chooser).filter Finding.speaks) rows := by
  have listed := auditBuffer_listed audited
  have there := read_of_writeSheet_on wrote
  have read : readFixSheet path (auditSheet actionColumns audit.rows) =
      .ok (audit.rows.filterMap AuditRow.fixRow?) := readFixSheet_auditSheet sound
  exact ⟨listed, _, _, there, read, Finding.asked_of_listed listed legible⟩

/-- A scene in which a character comes on and things happen, but nobody says a word. -/
def silentScene (name : String) : Buffer :=
  let step (action : String) := "\x7bparallel:[\x7b" ++ action ++ "\x7d]\x7d,"
  ⟨["\x7b", "id:'a',", "steps:[", step ("action:'spawn_character',character:'" ++ name ++ "'"),
    step "", step "anim:1", step "", step "anim:1", step "", "]\x7d"], []⟩

/-- The line that is suggested for it. -/
def silentLine (name : String) : Speech := ⟨name, "excited", "Let's do this!"⟩

def silentFindings (name : String) : List (Finding (silentScene name) (.at 0)) :=
  Finding.all (silentScene name) (.at 0)

def silentLocation : Location := ⟨"a", 1, ⟨0, 10, 0⟩, some ⟨2, 10, 0⟩⟩

theorem silentFindings_eq {name : String}
    (surveyed : findAll (silentScene name) = .ok ⟨[silentLocation], []⟩) :
    (silentFindings name).map (fun finding => (finding.report.bucket, finding.report.fixes)) =
      ([silentLocation].filterMap (Finding.known? (silentScene name) (.at 0))).map
        fun (_, _, report) => (report.bucket, report.fixes) :=
  Finding.map_all (fun (_, _, report) => (report.bucket, report.fixes)) surveyed

theorem surveyed_king : findAll (silentScene "king") = .ok ⟨[silentLocation], []⟩ :=
  findAll_of_quiet (by decide +kernel)

theorem silentFindings_king :
    (silentFindings "king").map (fun finding => (finding.report.bucket, finding.report.fixes)) =
      [(.needsFixes, [.dialogue (silentLine "king")])] := by
  rw [silentFindings_eq surveyed_king]
  decide +kernel

/-- The rows of the audit of a scene, should its sheet be readable. -/
def soundRows? (buffer : Buffer) : Option (List AuditRow) :=
  match auditBuffer "zone" (.at 0) ⟨buffer, []⟩ with
  | .error _ _ => none
  | .ok audit _ =>
    if Sound (auditRows 0 audit.rows) ∧ isWritable (auditRows 0 audit.rows) = true then
      some audit.rows
    else none

theorem soundRows?_eq {buffer : Buffer} {locations : List Location}
    (surveyed : findAll buffer = .ok ⟨locations, []⟩) :
    soundRows? buffer = match auditRecords "zone" (.at 0) locations ⟨buffer, []⟩ with
      | .error _ _ => none
      | .ok audit _ =>
        if Sound (auditRows 0 audit.rows) ∧ ((auditRows 0 audit.rows).all fun row =>
          !(codes (Csv.writeRow row)).any isSurrogate) = true then some audit.rows else none := by
  rw [soundRows?, @auditBuffer_surveyed (.at 0) "zone" ⟨buffer, []⟩ _ surveyed]
  simp only [isWritable_eq, bind, EStateM.bind]
  cases auditRecords "zone" (.at 0) locations ⟨buffer, []⟩ <;> rfl

theorem soundRows?_eq_some {buffer : Buffer} {rows : List AuditRow}
    (sound : soundRows? buffer = some rows) :
    ∃ audit after u later, auditBuffer "zone" (.at 0) ⟨buffer, []⟩ = .ok audit after ∧
      audit.rows = rows ∧ Sound (auditRows 0 audit.rows) ∧
      (writeSheet "sheet.csv" (auditRows 0 audit.rows)).on bareWorld = (.ok u, later) := by
  rw [soundRows?] at sound
  split at sound
  · cases sound
  · next audit after ran =>
    split at sound
    · next good =>
      obtain ⟨u, later, wrote⟩ := writeSheet_of_isWritable good.2
      exact ⟨audit, after, u, later, ran, Option.some.inj sound, good.1, wrote⟩
    · cases sound

theorem auditBuffer_speeches_silent : ∃ audit after u later text rows,
    auditBuffer "zone" (.at 0) ⟨silentScene "king", []⟩ = .ok audit after ∧
      (writeSheet "sheet.csv" (auditRows 0 audit.rows)).on bareWorld = (.ok u, later) ∧
      later.disk.read "sheet.csv" = .ok text ∧ readFixSheet "sheet.csv" text = .ok rows ∧
      List.Forall₂ (Finding.Asked "zone")
        ((silentFindings "king").filter Finding.speaks) rows := by
  have sound : (soundRows? (silentScene "king")).isSome = true := by
    rw [soundRows?_eq surveyed_king, auditRecords_single, auditRecord]
    simp -zeta only [readRecord_eq]
    decide +kernel
  obtain ⟨found, sound⟩ := Option.isSome_iff_exists.mp sound
  obtain ⟨audit, after, u, later, ran, -, readable, wrote⟩ := soundRows?_eq_some sound
  have legible : ∀ finding ∈ silentFindings "king", finding.Legible := by
    intro finding member _ fix suggested
    have known := List.mem_map_of_mem member
      (f := fun finding => (finding.report.bucket, finding.report.fixes))
    rw [silentFindings_king, List.mem_singleton] at known
    rw [(Prod.mk.inj known).2, List.mem_singleton] at suggested
    rw [suggested]
    decide +kernel
  obtain ⟨-, text, rows, there, read, asked⟩ := auditBuffer_speeches ran legible readable wrote
  exact ⟨audit, after, u, later, text, rows, ran, wrote, there, read, asked⟩

/-- A colon in the name loses the line that is suggested for it. -/
theorem auditBuffer_loses_colon : ∃ audit after u later text,
    auditBuffer "zone" (.at 0) ⟨silentScene "a:b", []⟩ = .ok audit after ∧
      (silentFindings "a:b").map (fun finding => (finding.report.bucket, finding.report.fixes)) =
        [(.needsFixes, [.dialogue (silentLine "a:b")])] ∧
      (writeSheet "sheet.csv" (auditRows 0 audit.rows)).on bareWorld = (.ok u, later) ∧
      later.disk.read "sheet.csv" = .ok text ∧ readFixSheet "sheet.csv" text = .ok [] := by
  have surveyed : findAll (silentScene "a:b") = .ok ⟨[silentLocation], []⟩ :=
    findAll_of_quiet (by decide +kernel)
  have sound : (soundRows? (silentScene "a:b")).map (·.filterMap AuditRow.fixRow?) =
      some [] := by
    rw [soundRows?_eq surveyed, auditRecords_single, auditRecord]
    simp -zeta only [readRecord_eq]
    decide +kernel
  have found : (silentFindings "a:b").map
      (fun finding => (finding.report.bucket, finding.report.fixes)) =
        [(.needsFixes, [.dialogue (silentLine "a:b")])] := by
    rw [silentFindings_eq surveyed]
    decide +kernel
  obtain ⟨rows, sound, silent⟩ := Option.map_eq_some_iff.mp sound
  obtain ⟨audit, after, u, later, ran, same, readable, wrote⟩ := soundRows?_eq_some sound
  have read : readFixSheet "sheet.csv" (auditSheet 0 audit.rows) =
      .ok (audit.rows.filterMap AuditRow.fixRow?) := readFixSheet_auditSheet readable
  rw [same, silent] at read
  refine ⟨audit, after, u, later, _, ran, found, wrote, read_of_writeSheet_on wrote, ?_⟩
  rw [← same] at read
  exact read

end Stagecraft
