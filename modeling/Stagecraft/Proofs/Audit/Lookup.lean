import Mathlib.Data.Nat.Find
import Stagecraft.Proofs.Audit.Findings
import Stagecraft.Proofs.Record.Survey

/-!
Which record an audited id leads to. A survey passes over the ids inside a record it has found, but
a search goes to the first line of the file that holds the id, in whatever record that line is. So
the id of a row leads back to its record just when that line has the opening of the record next
above it.
-/

namespace Stagecraft

variable {buffer : Buffer} {chooser : Chooser} {zone id line : String} {bench after : Bench}
  {audit : Audit} {location : Location} {survey : Survey} {place : Nat}

theorem search_isSome_of {α β : Type} {first : Option Char → List Char → Option α}
    {second : Option Char → List Char → Option β} {answer : α}
    (reads : ∀ before text, first before text = some answer → (second before text).isSome)
    {before : Option Char} {text : List Char} (found : search first before text = some answer) :
    (search second before text).isSome := by
  induction text generalizing before with
  | nil => exact reads before [] found
  | cons c rest ih =>
    simp only [search] at found ⊢
    cases there : second before (c :: rest) with
    | some other => rfl
    | none =>
      cases here : first before (c :: rest) with
      | none =>
        rw [here] at found
        exact ih found
      | some other =>
        rw [here] at found
        obtain rfl := Option.some.inj found
        have some' := reads before (c :: rest) here
        rw [there] at some'
        cases some'

theorem matchedName?_eq_some {text rest : List Char}
    (read : matchedName? text = some (id, rest)) :
    ∃ mark, isQuote mark ∧ text = mark :: (id.toList ++ [mark] ++ rest) := by
  cases text with
  | nil => cases read
  | cons mark text =>
    rw [matchedName?, quotedName?] at read
    split at read
    · next found behind quoted =>
      split at quoted
      · next c name closing after' quote taken dropped =>
        cases quoted
        split at read
        · next same =>
          simp only at same
          subst same
          cases read
          refine ⟨mark, quote, ?_⟩
          have whole := List.takeWhile_append_dropWhile (p := (!isQuote ·)) (l := text)
          rw [taken, dropped] at whole
          simp [← whole]
        · cases read
      · cases quoted
    · cases read

/-- The id that a line is surveyed by is one that it holds. -/
theorem hasId_of_idOn? (named : idOn? line = some id) : hasId id line = true := by
  rw [hasId]
  refine search_isSome_of ?_ named
  intro before text read
  cases key : afterIdKey? before text with
  | none =>
    rw [key] at read
    cases read
  | some behind =>
    rw [key] at read
    simp only [Option.bind_eq_bind, Option.bind_some] at read
    obtain ⟨⟨name, rest⟩, quoted, same⟩ := Option.bind_eq_some_iff.mp read
    obtain rfl := Option.some.inj same
    obtain ⟨mark, quote, rfl⟩ := matchedName?_eq_some quoted
    simp only [Option.bind_eq_bind, Option.bind_some, quote, if_true, after?_append]
    rfl

/-- Each record found has its id on the line it was located from. -/
theorem surveyFrom_named (surveyed : surveyFrom buffer place = .ok survey) :
    ∀ location ∈ survey.found, buffer.lines[location.idLine]?.bind idOn? = some location.id := by
  fun_induction surveyFrom buffer place generalizing survey with
  | case1 line inside plain ih => exact ih surveyed
  | case2 line inside id named fault located ih =>
    obtain ⟨rest, behind, rfl⟩ := map_ok.mp surveyed
    have others := ih behind
    exact others
  | case3 line inside id named here located forward ih =>
    obtain ⟨rest, behind, rfl⟩ := map_ok.mp surveyed
    obtain ⟨same, place⟩ := locateAt_id located
    rw [Survey.addFound]
    split
    · intro location member
      rcases List.mem_cons.mp member with rfl | later
      · rw [same, place, List.getElem?_eq_getElem inside]
        exact named
      · exact ih behind location later
    · exact ih behind
  | case4 => cases surveyed
  | case5 =>
    cases surveyed
    simp

/-- The search for the id ends at the record and the steps of the location. -/
def Leads (buffer : Buffer) (id : String) (location : Location) : Prop :=
  ∃ found, locate buffer id = .ok (some found) ∧ found.record = location.record ∧
    found.steps = location.steps

theorem locateAt_of_opening {other : Nat}
    (located : locateAt buffer location.id location.idLine = .ok location)
    (opening : openingAbove buffer.lines openingWindow other = some location.record.start) :
    locateAt buffer id other = .ok { location with id, idLine := other } := by
  obtain ⟨first, last, ends, -, close, bounds, same⟩ := locateAt_ok located
  rw [same] at opening ⊢
  simp only [Buffer.span] at opening
  simp only [locateAt, opening, close, bounds, bind, Except.bind, pure, Except.pure]

theorem leads_iff (located : locateAt buffer location.id location.idLine = .ok location) :
    Leads buffer id location ↔ ∃ line, FirstAt (hasId id) buffer.lines 0 line ∧
      OpensAt buffer.lines line location.record.start ∧
      line ≤ location.record.start + openingWindow := by
  constructor
  · rintro ⟨found, ran, record, -⟩
    rw [locate] at ran
    split at ran
    · cases ran
    · next line named =>
      obtain ⟨other, there, same⟩ := map_ok.mp ran
      obtain rfl := Option.some.inj same
      obtain ⟨first, last, ends, opening, -, -, made⟩ := locateAt_ok there
      have start : first = location.record.start := by rw [← record, made]; rfl
      rw [start] at opening
      obtain ⟨opens, window⟩ := openingAbove_iff_opensAt.mp opening
      exact ⟨line, firstLine_iff_firstAt.mp named, opens, window⟩
  · rintro ⟨line, first, opens, window⟩
    have opening := openingAbove_iff_opensAt.mpr ⟨opens, window⟩
    refine ⟨{ location with id, idLine := line }, ?_, rfl, rfl⟩
    rw [locate, firstLine_iff_firstAt.mpr first]
    simp only [locateAt_of_opening located opening, Except.map]

/-- The lines from the opening of a record to its id open no other record, so the id that it was
located by leads to it from each of them. -/
theorem leads_own_iff (located : locateAt buffer location.id location.idLine = .ok location)
    (named : buffer.lines[location.idLine]?.bind idOn? = some location.id) :
    Leads buffer location.id location ↔
      ∀ line < location.record.start, ¬ (buffer.lines[line]?).any (hasId location.id) := by
  obtain ⟨first, last, ends, opening, -, -, made⟩ := locateAt_ok located
  have start : location.record.start = first := by rw [made]; rfl
  rw [leads_iff located, start]
  obtain ⟨⟨low, opens, free⟩, window⟩ := openingAbove_iff_opensAt.mp opening
  constructor
  · rintro ⟨line, ⟨-, -, before⟩, ⟨above, -⟩, -⟩ early less
    exact before early (Nat.zero_le _) (Nat.lt_of_lt_of_le less above)
  · intro apart
    have own : (buffer.lines[location.idLine]?).any (hasId location.id) := by
      obtain ⟨text, here, read⟩ := Option.bind_eq_some_iff.mp named
      rw [here]
      exact hasId_of_idOn? read
    have held : ∃ line, ((buffer.lines[line]? : Option String).any (hasId location.id) : Prop) :=
      ⟨location.idLine, own⟩
    have least : Nat.find held ≤ location.idLine := Nat.find_min' held own
    have inside : first ≤ Nat.find held := by
      by_contra early
      exact apart _ (Nat.lt_of_not_le early) (Nat.find_spec held)
    exact ⟨Nat.find held,
      ⟨Nat.zero_le _, Nat.find_spec held, fun between _ before => Nat.find_min held before⟩,
      ⟨inside, opens, fun between above upto => free between above (Nat.le_trans upto least)⟩,
      Nat.le_trans least window⟩

theorem Finding.at?_location {finding : Finding buffer chooser}
    (made : Finding.at? buffer chooser location = some finding) : finding.location = location := by
  rw [Finding.at?] at made
  split at made
  · cases made
  · split at made
    · cases made
    · cases made
      rfl

/-- The record of a finding is one that a survey found from the line of its id. -/
theorem Finding.surveyed {finding : Finding buffer chooser}
    (member : finding ∈ Finding.all buffer chooser) :
    finding.location ∈ foundIn buffer ∧
      locateAt buffer finding.location.id finding.location.idLine = .ok finding.location ∧
      buffer.lines[finding.location.idLine]?.bind idOn? = some finding.location.id := by
  rw [Finding.all] at member
  split at member
  · cases member
  · next survey surveyed =>
    obtain ⟨location, found, made⟩ := List.mem_filterMap.mp member
    rw [Finding.at?_location made, foundIn, surveyed]
    exact ⟨found, (found_of_findAll surveyed found).1,
      surveyFrom_named surveyed location found⟩

/-- The id of a row leads to the record the row is about just when the first line that holds it has
the opening of that record next above it. Where the record was located by that id, no line above the
record may hold it. -/
theorem auditBuffer_leads_iff (ran : auditBuffer zone chooser bench = .ok audit after) :
    List.Forall₂ (fun finding row => finding.Listed zone row ∧
        finding.location ∈ foundIn bench.buffer ∧
        (Leads bench.buffer row.id finding.location ↔
          ∃ line, FirstAt (hasId row.id) bench.buffer.lines 0 line ∧
            OpensAt bench.buffer.lines line finding.location.record.start ∧
            line ≤ finding.location.record.start + openingWindow) ∧
        (row.id = finding.location.id → (Leads bench.buffer row.id finding.location ↔
          ∀ line < finding.location.record.start,
            ¬ (bench.buffer.lines[line]?).any (hasId row.id))))
      (Finding.all bench.buffer chooser) audit.rows := by
  have surveyed := List.forall₂_and_left _ _ |>.mpr
    ⟨fun _ => Finding.surveyed, auditBuffer_listed ran⟩
  refine surveyed.imp ?_
  rintro finding row ⟨⟨found, located, named⟩, listed⟩
  refine ⟨listed, found, leads_iff located, ?_⟩
  intro own
  rw [own]
  exact leads_own_iff located named

/-- Two records of one step. A field of the first one may hold another id. -/
def twoRecords (field : String) : Buffer := ⟨["const A = \x7b", "id: 'a',", field, "steps: [",
  "...NARRATOR('Once.'),", "],", "\x7d;", "const B = \x7b", "id: 'b',", "steps: [",
  "...NARRATOR('Twice.'),", "],", "\x7d;"], []⟩

def twoLocations : List Location :=
  [⟨"a", 1, ⟨0, 7, 0⟩, some ⟨3, 6, 0⟩⟩, ⟨"b", 8, ⟨7, 13, 0⟩, some ⟨9, 12, 0⟩⟩]

/-- The ids of the rows of an audit. -/
def auditedIds (buffer : Buffer) : Option (List String) :=
  match auditBuffer "zone" (.at 0) ⟨buffer, []⟩ with
  | .ok audit _ => some (audit.rows.map (·.id))
  | .error _ _ => none

theorem auditedIds_eq_some {ids : List String} (audited : auditedIds buffer = some ids) :
    ∃ audit after, auditBuffer "zone" (.at 0) ⟨buffer, []⟩ = .ok audit after ∧
      audit.rows.map (·.id) = ids := by
  rw [auditedIds] at audited
  split at audited
  · next audit after ran => exact ⟨audit, after, ran, Option.some.inj audited⟩
  · cases audited

theorem auditedIds_eq {locations : List Location}
    (surveyed : findAll buffer = .ok ⟨locations, []⟩) :
    auditedIds buffer = match auditRecords "zone" (.at 0) locations ⟨buffer, []⟩ with
      | .ok audit _ => some (audit.rows.map (·.id))
      | .error _ _ => none := by
  rw [auditedIds, @auditBuffer_surveyed (.at 0) "zone" ⟨buffer, []⟩ _ surveyed]
  simp only [bind, EStateM.bind]
  cases auditRecords "zone" (.at 0) locations ⟨buffer, []⟩ <;> rfl

theorem auditBuffer_leads_titled : ∃ audit after,
    auditBuffer "zone" (.at 0) ⟨twoRecords "title: 'b',", []⟩ = .ok audit after ∧
      audit.rows.map (·.id) = ["a", "b"] ∧
      List.Forall₂ (fun finding row => Leads (twoRecords "title: 'b',") row.id finding.location)
        (Finding.all (twoRecords "title: 'b',") (.at 0)) audit.rows := by
  have surveyed : findAll (twoRecords "title: 'b',") = .ok ⟨twoLocations, []⟩ :=
    findAll_of_quiet (by decide +kernel)
  obtain ⟨audit, after, ran, ids⟩ := auditedIds_eq_some
    (show auditedIds (twoRecords "title: 'b',") = some ["a", "b"] by
      rw [auditedIds_eq surveyed, twoLocations, auditRecords, auditRecords_single, auditRecord,
        auditRecord]
      simp -zeta only [readRecord_eq]
      decide +kernel)
  have found : (Finding.all (twoRecords "title: 'b',") (.at 0)).map
      (fun finding => (finding.id, finding.location)) = twoLocations.map fun location =>
        (location.id, location) := by
    refine (Finding.map_all (fun known =>
      (if known.2.1.id = "" then known.1.id else known.2.1.id, known.1)) surveyed).trans ?_
    decide +kernel
  have plain : ∀ location ∈ twoLocations, ∀ line < location.record.start,
      ¬ ((twoRecords "title: 'b',").lines[line]?).any (hasId location.id) := by decide +kernel
  have known : ∀ finding ∈ Finding.all (twoRecords "title: 'b',") (.at 0),
      finding.location ∈ twoLocations ∧ finding.id = finding.location.id := by
    intro finding member
    have pair := List.mem_map_of_mem (f := fun finding => (finding.id, finding.location)) member
    rw [found] at pair
    obtain ⟨location, there, same⟩ := List.mem_map.mp pair
    obtain ⟨id, rfl⟩ := Prod.mk.inj same
    exact ⟨there, id.symm⟩
  have leads := (List.forall₂_and_left _ _).mpr ⟨known, auditBuffer_leads_iff ran⟩
  refine ⟨audit, after, ran, ids, leads.imp ?_⟩
  rintro finding row ⟨⟨there, own⟩, listed, -, -, here⟩
  have same : row.id = finding.location.id := listed.id.trans own
  refine (here same).mpr ?_
  rw [same]
  exact plain finding.location there

/-- The trigger of the first record names the second one, and so its id leads to the first. -/
theorem auditBuffer_leads_triggered : ∃ audit after,
    auditBuffer "zone" (.at 0) ⟨twoRecords "trigger: \x7b id: 'b' \x7d,", []⟩ = .ok audit after ∧
      audit.rows.map (·.id) = ["a", "b"] ∧
      foundIn (twoRecords "trigger: \x7b id: 'b' \x7d,") = twoLocations ∧
      locate (twoRecords "trigger: \x7b id: 'b' \x7d,") "b" =
        .ok (some ⟨"b", 2, ⟨0, 7, 0⟩, some ⟨3, 6, 0⟩⟩) := by
  have surveyed : findAll (twoRecords "trigger: \x7b id: 'b' \x7d,") = .ok ⟨twoLocations, []⟩ :=
    findAll_of_quiet (by decide +kernel)
  obtain ⟨audit, after, ran, ids⟩ := auditedIds_eq_some
    (show auditedIds (twoRecords "trigger: \x7b id: 'b' \x7d,") = some ["a", "b"] by
      rw [auditedIds_eq surveyed, twoLocations, auditRecords, auditRecords_single, auditRecord,
        auditRecord]
      simp -zeta only [readRecord_eq]
      decide +kernel)
  exact ⟨audit, after, ran, ids, by rw [foundIn, surveyed], by rfl⟩

end Stagecraft
