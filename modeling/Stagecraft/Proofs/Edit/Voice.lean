import Stagecraft.Proofs.Edit.SpeakLine
import Stagecraft.Proofs.Edit.Steps
import Stagecraft.Proofs.Record.Level

/-!
Which speech goes in at a record, and where. A character gets a line when none in the record speaks
for it, an opening when the line below the first entrance does not speak for its character. A row is
voiced when neither is missing: then, and only then, nothing goes in for it.
-/

namespace Stagecraft

variable {buffer : Buffer} {record steps : Span} {fixes : SpeechFixes} {lines : List String}
  {added : List String} {speeches missing : List Speech}

def entersOn (line : String) : Bool :=
  (spreadDirective? line).any (entranceDirectives.contains ·)

def EntranceAt (lines : List String) (opening closing line : Nat) : Prop :=
  LevelAt lines opening closing line ∧ (lines[line]?).any entersOn ∧
    ∀ early, LevelAt lines opening closing early → early < line → ¬ (lines[early]?).any entersOn

/-- Dialogue goes in front of the last line that spreads one of these. -/
def cueDirectives : List String := ["CELEBRATION", "CROWD_CHEER", "NARRATOR"]

def cuesOn (line : String) : Bool :=
  (spreadDirective? line).any (cueDirectives.contains ·)

theorem any_entranceDirective (buffer : Buffer) (line : Nat) :
    ((buffer.line? line).bind spreadDirective?).any (entranceDirectives.contains ·) =
      (buffer.lines[line]?).any entersOn := by
  rw [Buffer.line?]
  cases buffer.lines[line]? <;> rfl

theorem entranceLine_ok {answer : Option Nat} (ran : entranceLine buffer steps = .ok answer)
    (below : Nat) : answer = some below ↔
      ∃ line, below = line + 1 ∧ EntranceAt buffer.lines steps.start (steps.stop - 1) line := by
  simp only [entranceLine] at ran
  obtain ⟨_, -, ran⟩ := Except.bind_ran.mp ran
  obtain ⟨levels, found, ran⟩ := Except.bind_ran.mp ran
  obtain ⟨sorted, member⟩ := stepLevelLines_ok found
  simp only [pure, Except.pure, Except.ok.injEq] at ran
  subst ran
  simp only [any_entranceDirective, Option.map_eq_some_iff, find?_eq_some_iff_first sorted, EntranceAt, member]
  constructor
  · rintro ⟨line, entrance, rfl⟩
    exact ⟨line, rfl, entrance⟩
  · rintro ⟨line, rfl, entrance⟩
    exact ⟨line, entrance, rfl⟩

section Point

variable {levels : List Nat} {point line : Nat}

/-- The step-level lines that spread a directive. -/
def spreadsOf (buffer : Buffer) (levels : List Nat) (name : String) : List Nat :=
  levels.filter fun line => (buffer.line? line).bind spreadDirective? = some name

theorem level_of_spreadsOf {name : String} (known : name ∈ cueDirectives)
    (found : stepLevelLines buffer.lines steps.start (steps.stop - 1) = .ok levels)
    (there : line ∈ spreadsOf buffer levels name) :
    LevelAt buffer.lines steps.start (steps.stop - 1) line ∧ (buffer.lines[line]?).any cuesOn := by
  obtain ⟨level, named⟩ := List.mem_filter.mp there
  refine ⟨((stepLevelLines_ok found).2 line).mp level, ?_⟩
  obtain ⟨text, present, spread⟩ := Option.bind_eq_some_iff.mp (by simpa using named)
  rw [Buffer.line?] at present
  simpa [present, cuesOn, spread] using known

theorem insertionPoint_cases (ran : insertionPoint buffer steps = .ok point) :
    ∃ levels, stepLevelLines buffer.lines steps.start (steps.stop - 1) = .ok levels ∧
      point = ((spreadsOf buffer levels "CELEBRATION").getLast? <|>
        (spreadsOf buffer levels "CROWD_CHEER").getLast? <|>
        ((spreadsOf buffer levels "NARRATOR").filter
          (steps.start + lateNarrator < ·)).getLast?).getD (steps.stop - 1) := by
  simp only [insertionPoint] at ran
  obtain ⟨_, -, ran⟩ := Except.bind_ran.mp ran
  obtain ⟨levels, found, ran⟩ := Except.bind_ran.mp ran
  simp only [pure, Except.pure, Except.ok.injEq] at ran
  exact ⟨levels, found, ran.symm⟩

theorem insertionPoint_ok (ran : insertionPoint buffer steps = .ok point) :
    point = steps.stop - 1 ∨ LevelAt buffer.lines steps.start (steps.stop - 1) point ∧
      (buffer.lines[point]?).any cuesOn := by
  obtain ⟨levels, found, rfl⟩ := insertionPoint_cases ran
  cases celebrations : (spreadsOf buffer levels "CELEBRATION").getLast? with
  | some line =>
    exact .inr (level_of_spreadsOf (by decide) found (List.mem_of_getLast? celebrations))
  | none =>
    cases cheers : (spreadsOf buffer levels "CROWD_CHEER").getLast? with
    | some line => exact .inr (level_of_spreadsOf (by decide) found (List.mem_of_getLast? cheers))
    | none =>
      cases late : ((spreadsOf buffer levels "NARRATOR").filter
          (steps.start + lateNarrator < ·)).getLast? with
      | some line =>
        have member := List.mem_of_mem_filter (List.mem_of_getLast? late)
        exact .inr (level_of_spreadsOf (by decide) found member)
      | none => exact .inl rfl

def climaxDirectives : List String := ["CELEBRATION", "CROWD_CHEER"]

def climaxOn (line : String) : Bool :=
  (spreadDirective? line).any (climaxDirectives.contains ·)

/-- Where there is a climax, dialogue does not go to the end of the steps. -/
theorem insertionPoint_climax (ran : insertionPoint buffer steps = .ok point)
    (level : LevelAt buffer.lines steps.start (steps.stop - 1) line)
    (climax : (buffer.lines[line]?).any climaxOn) :
    LevelAt buffer.lines steps.start (steps.stop - 1) point ∧
      (buffer.lines[point]?).any cuesOn := by
  obtain ⟨levels, found, rfl⟩ := insertionPoint_cases ran
  have member := ((stepLevelLines_ok found).2 line).mpr level
  have spreads : line ∈ spreadsOf buffer levels "CELEBRATION" ∨
      line ∈ spreadsOf buffer levels "CROWD_CHEER" := by
    obtain ⟨text, present, named⟩ := (Option.any_eq_true _ _).mp climax
    obtain ⟨name, spread, known⟩ := (Option.any_eq_true _ _).mp named
    have either : name = "CELEBRATION" ∨ name = "CROWD_CHEER" := by
      simpa [climaxDirectives] using known
    have here : (buffer.line? line).bind spreadDirective? = some name := by
      rw [Buffer.line?, present, Option.bind_some, spread]
    rcases either with rfl | rfl
    · exact .inl (List.mem_filter.mpr ⟨member, by simpa using here⟩)
    · exact .inr (List.mem_filter.mpr ⟨member, by simpa using here⟩)
  cases celebrations : (spreadsOf buffer levels "CELEBRATION").getLast? with
  | some last =>
    exact level_of_spreadsOf (by decide) found (List.mem_of_getLast? celebrations)
  | none =>
    rw [List.getLast?_eq_none_iff.mp celebrations] at spreads
    cases cheers : (spreadsOf buffer levels "CROWD_CHEER").getLast? with
    | some last => exact level_of_spreadsOf (by decide) found (List.mem_of_getLast? cheers)
    | none =>
      rw [List.getLast?_eq_none_iff.mp cheers] at spreads
      simp at spreads

end Point

section Defined

variable (valid : buffer.isValid steps = true) (inside : steps.start < buffer.lines.length)
  (within : steps.stop - 1 ≤ buffer.lines.length)

include valid inside within

theorem entranceLine_defined : ∃ answer, entranceLine buffer steps = .ok answer := by
  obtain ⟨levels, found⟩ := stepLevelLines_defined inside within
  exact ⟨_, by
    rw [entranceLine, liftFault_require_ran.mpr valid]
    simp only [found, bind, Except.bind]
    rfl⟩

theorem insertionPoint_defined : ∃ point, insertionPoint buffer steps = .ok point := by
  obtain ⟨levels, found⟩ := stepLevelLines_defined inside within
  exact ⟨_, by
    rw [insertionPoint, liftFault_require_ran.mpr valid]
    simp only [found, bind, Except.bind]
    rfl⟩

omit valid in
theorem stepIndent_defined (index : Nat) :
    ∃ indent, stepIndent buffer steps index = .ok indent := by
  obtain ⟨levels, found⟩ := stepLevelLines_defined inside within
  exact ⟨_, by
    rw [stepIndent]
    simp only [found, bind, Except.bind]
    rfl⟩

end Defined

theorem hasDialogue_ok {character : String} {spoken : Bool}
    (ran : hasDialogue buffer record character = .ok spoken) :
    spoken = (buffer.spanLines record).any (speaksFor character) := by
  rw [hasDialogue] at ran
  obtain ⟨_, -, ran⟩ := Except.bind_ran.mp ran
  simp only [pure, Except.pure, Except.ok.injEq] at ran
  exact ran.symm

theorem hasDialogue_valid (valid : buffer.isValid record = true) (character : String) :
    hasDialogue buffer record character =
      .ok ((buffer.spanLines record).any (speaksFor character)) := by
  rw [hasDialogue, liftFault_require_ran.mpr valid]
  rfl

theorem missingSpeeches_ok (ran : missingSpeeches buffer record added speeches = .ok missing) :
    (∀ speech ∈ missing, speech ∈ speeches) ∧
      (∀ speech ∈ missing, ¬ (buffer.spanLines record).any (speaksFor speech.character)) ∧
      ∀ speech ∈ speeches, speech.character ∈ added ∨
        (buffer.spanLines record).any (speaksFor speech.character) ∨
        ∃ other ∈ missing, other.character = speech.character := by
  induction speeches generalizing added missing with
  | nil =>
    simp only [missingSpeeches, Except.ok.injEq] at ran
    subst ran
    simp
  | cons first rest ih =>
    rw [missingSpeeches] at ran
    split at ran
    · next known =>
      obtain ⟨old, silent, all⟩ := ih ran
      refine ⟨fun speech member => List.mem_cons_of_mem _ (old speech member), silent, ?_⟩
      intro speech member
      rcases List.mem_cons.mp member with rfl | later
      · exact .inl (by simpa using known)
      · exact all speech later
    · obtain ⟨spoken, asked, ran⟩ := Except.bind_ran.mp ran
      have heard := hasDialogue_ok asked
      split at ran
      · next yes =>
        obtain ⟨old, silent, all⟩ := ih ran
        refine ⟨fun speech member => List.mem_cons_of_mem _ (old speech member), silent, ?_⟩
        intro speech member
        rcases List.mem_cons.mp member with rfl | later
        · exact .inr (.inl (by rw [← heard, yes]))
        · exact all speech later
      · next no =>
        obtain ⟨others, found, ran⟩ := Except.bind_ran.mp ran
        simp only [pure, Except.pure, Except.ok.injEq] at ran
        subst ran
        obtain ⟨old, silent, all⟩ := ih found
        refine ⟨?_, ?_, ?_⟩
        · intro speech member
          rcases List.mem_cons.mp member with rfl | later
          · exact List.mem_cons_self ..
          · exact List.mem_cons_of_mem _ (old speech later)
        · intro speech member
          rcases List.mem_cons.mp member with rfl | later
          · rwa [← heard]
          · exact silent speech later
        · intro speech member
          rcases List.mem_cons.mp member with rfl | later
          · exact .inr (.inr ⟨speech, List.mem_cons_self .., rfl⟩)
          · rcases all speech later with known | spoken | ⟨other, there, same⟩
            · rcases List.mem_cons.mp known with same | known
              · exact .inr (.inr ⟨first, List.mem_cons_self .., same.symm⟩)
              · exact .inl known
            · exact .inr (.inl spoken)
            · exact .inr (.inr ⟨other, List.mem_cons_of_mem _ there, same⟩)

theorem missingSpeeches_sublist (ran : missingSpeeches buffer record added speeches = .ok missing) :
    missing.Sublist speeches := by
  induction speeches generalizing added missing with
  | nil =>
    simp only [missingSpeeches, Except.ok.injEq] at ran
    exact ran ▸ List.Sublist.refl []
  | cons first rest ih =>
    rw [missingSpeeches] at ran
    split at ran
    · exact (ih ran).cons first
    · obtain ⟨spoken, -, ran⟩ := Except.bind_ran.mp ran
      split at ran
      · exact (ih ran).cons first
      · obtain ⟨others, found, ran⟩ := Except.bind_ran.mp ran
        simp only [pure, Except.pure, Except.ok.injEq] at ran
        rw [← ran]
        exact (ih found).cons_cons first

theorem missingSpeeches_defined (valid : buffer.isValid record = true) :
    ∃ missing, missingSpeeches buffer record added speeches = .ok missing := by
  induction speeches generalizing added with
  | nil => exact ⟨[], rfl⟩
  | cons first rest ih =>
    simp only [missingSpeeches, hasDialogue_valid valid]
    split
    · exact ih
    · simp only [bind, Except.bind]
      split
      · exact ih
      · obtain ⟨others, found⟩ := @ih (first.character :: added)
        exact ⟨first :: others, by rw [found]; rfl⟩

theorem missingSpeeches_eq_nil_iff (ran : missingSpeeches buffer record [] speeches = .ok missing) :
    missing = [] ↔ ∀ speech ∈ speeches,
      (buffer.spanLines record).any (speaksFor speech.character) := by
  obtain ⟨old, silent, all⟩ := missingSpeeches_ok ran
  constructor
  · rintro rfl speech member
    rcases all speech member with known | spoken | ⟨other, there, -⟩
    · cases known
    · exact spoken
    · cases there
  · intro spoken
    rw [List.eq_nil_iff_forall_not_mem]
    intro speech member
    exact silent speech member (spoken speech (old speech member))

end Stagecraft
