import Stagecraft.Proofs.Edit.Rows

/-!
How a row's speech bears on the other rows. The lines that go in are harmless: no search stops at
them, they are no entrance and no cue. So a row that is voiced stays voiced, unless a line goes in
right below its first entrance; and a row that was just applied is voiced.
-/

namespace Stagecraft

variable {module indent : String} {ids : List String} {lines more : List String} {index : Nat}
  {extent other : Extent} {fixes : SpeechFixes} {speech : Speech} {buffer : Buffer}
  {row : FixRow} {rows : List FixRow} {test : String → Bool}

structure Harmless (module : String) (ids : List String) (line : String) : Prop
    extends Quiet line where
  unnamed : ∀ id ∈ ids, hasId id line = false
  foreign : namesModule module line = false
  starts : startsImport line = false
  enters : entersOn line = false
  cues : cuesOn line = false

/-- The name needs no escape, the brackets in the fields are balanced, and the fields hold neither
the id of a row nor the name of the module behind the word `from`. -/
structure Speech.Plain (module : String) (ids : List String) (speech : Speech) : Prop where
  name : ∀ c ∈ speech.character.toList, c ≠ '\'' ∧ c ≠ '\\'
  square : lineDelta .square (speakLine speech "") = 0
  curly : lineDelta .curly (speakLine speech "") = 0
  unnamed : ∀ id ∈ ids, hasId id (speakLine speech "") = false
  foreign : namesModule module (speakLine speech "") = false

theorem harmless_comment (blank : IsIndent indent) :
    Harmless module ids (indent ++ dialogueComment) where
  toQuiet := quiet_comment blank
  unnamed := fun _ _ => hasId_comment blank
  foreign := namesModule_comment blank
  starts := startsImport_comment blank
  enters := by rw [entersOn, spreadDirective?_comment blank]; rfl
  cues := by rw [cuesOn, spreadDirective?_comment blank]; rfl

/-- The same but for the name, which may need an escape. -/
structure Speech.Calm (module : String) (ids : List String) (speech : Speech) : Prop where
  square : lineDelta .square (speakLine speech "") = 0
  curly : lineDelta .curly (speakLine speech "") = 0
  unnamed : ∀ id ∈ ids, hasId id (speakLine speech "") = false
  foreign : namesModule module (speakLine speech "") = false

theorem Speech.Calm.harmless (calm : speech.Calm module ids) (blank : IsIndent indent) :
    Harmless module ids (speakLine speech indent) where
  toQuiet := quiet_speakLine blank calm.square calm.curly
  unnamed := by
    intro id member
    rw [speakLine_eq, hasId_indent blank]
    exact calm.unnamed id member
  foreign := by
    rw [speakLine_eq, namesModule_indent blank]
    exact calm.foreign
  starts := startsImport_speakLine blank
  enters := by rw [entersOn, spreadDirective?_speakLine blank]; decide
  cues := by rw [cuesOn, spreadDirective?_speakLine blank]; decide

theorem Speech.Plain.calm (plain : speech.Plain module ids) : speech.Calm module ids :=
  ⟨plain.square, plain.curly, plain.unnamed, plain.foreign⟩

theorem harmless_speakLine (blank : IsIndent indent) (plain : speech.Plain module ids) :
    Harmless module ids (speakLine speech indent) :=
  plain.calm.harmless blank

theorem harmless_dialogueBlock {missing : List Speech} (blank : IsIndent indent)
    (plain : ∀ speech ∈ missing, speech.Plain module ids) :
    ∀ line ∈ dialogueBlock missing indent, Harmless module ids line := by
  intro line member
  rw [dialogueBlock, List.mem_cons, List.mem_map] at member
  rcases member with rfl | ⟨speech, there, rfl⟩
  · exact harmless_comment blank
  · exact harmless_speakLine blank (plain speech there)

/-- The same as for the record and the steps of the extent, line by line. -/
def VoicedOn (lines : List String) (extent : Extent) (fixes : SpeechFixes) : Prop :=
  (∀ speech ∈ fixes.dialogue ++ fixes.closing.toList, ∃ place, extent.first ≤ place ∧
      place ≤ extent.last ∧ (lines[place]?).any (speaksFor speech.character)) ∧
    ∀ opening ∈ fixes.opening, ∀ line, EntranceAt lines extent.opening extent.closing line →
      (lines[line + 1]?).any (speaksFor opening.character)

theorem any_slice {first last : Nat} : ((lines.take (last + 1)).drop first).any test ↔
    ∃ place, first ≤ place ∧ place ≤ last ∧ (lines[place]?).any test := by
  rw [List.any_eq_true]
  constructor
  · rintro ⟨line, member, holds⟩
    obtain ⟨offset, present⟩ := List.mem_iff_getElem?.mp member
    have low : first + offset ≤ last := by
      by_contra high
      rw [List.getElem?_drop, List.getElem?_take_eq_none (by omega)] at present
      cases present
    rw [List.getElem?_drop, List.getElem?_take_of_lt (by omega)] at present
    exact ⟨first + offset, Nat.le_add_right _ _, low, by rw [present]; exact holds⟩
  · rintro ⟨place, low, high, holds⟩
    obtain ⟨line, present, holds⟩ : ∃ line, lines[place]? = some line ∧ test line := by
      cases present : lines[place]? with
      | none =>
        rw [present] at holds
        cases holds
      | some line =>
        rw [present] at holds
        exact ⟨line, rfl, holds⟩
    refine ⟨line, List.mem_iff_getElem?.mpr ⟨place - first, ?_⟩, holds⟩
    rw [List.getElem?_drop, Nat.add_sub_cancel' low, List.getElem?_take_of_lt (by omega), present]

theorem voicedAt_iff_voicedOn (frames : extent.Frames buffer.lines) :
    VoicedAt buffer (buffer.span extent.first (extent.last + 1))
        (buffer.span extent.opening (extent.closing + 1)) fixes ↔
      VoicedOn buffer.lines extent fixes := by
  have current : buffer.isValid (buffer.span extent.opening (extent.closing + 1)) = true :=
    Buffer.isValid_of_current rfl
  obtain ⟨answer, entered⟩ := entranceLine_defined current frames.opening_lt
    (Nat.le_of_lt frames.ends.2.1)
  have entrance (line : Nat) : EntranceAt buffer.lines extent.opening extent.closing line ↔
      answer = some (line + 1) := by
    rw [entranceLine_ok entered]
    constructor
    · intro first
      exact ⟨line, rfl, first⟩
    · rintro ⟨same, next, first⟩
      obtain rfl := Nat.succ.inj next
      exact first
  refine and_congr ?_ ?_
  · refine forall_congr' fun speech => imp_congr_right fun _ => ?_
    exact any_slice
  · refine forall_congr' fun opening => imp_congr_right fun _ => ?_
    rw [entered]
    constructor
    · intro heard line first
      exact heard (line + 1) (by rw [(entrance line).mp first])
    · intro heard below same
      obtain ⟨line, rfl, first⟩ := (entranceLine_ok entered below).mp (Except.ok.inj same)
      exact heard line first

theorem voiced_iff : Voiced buffer row ↔
    ∀ extent : Extent, extent.Stands buffer.lines row.id →
      VoicedOn buffer.lines extent row.fixes := by
  constructor
  · intro voiced extent stands
    obtain ⟨line, found⟩ := Extent.locate_of_stands stands
    exact (voicedAt_iff_voicedOn stands.toFrames).mp (voiced _ _ found rfl)
  · intro voiced location steps found stepped
    obtain ⟨extent, stands, record, rfl⟩ := Extent.stands_of_locate found stepped
    rw [record]
    exact (voicedAt_iff_voicedOn stands.toFrames).mpr (voiced extent stands)

section Put

variable (inside : index ≤ lines.length)

include inside

/-- The new lines stand above the steps, or are no entrance and do not count. -/
theorem entranceAt_putLines {opening closing found : Nat}
    (passed : index ≤ opening ∨
      ∀ line ∈ more, lineDelta .square line = 0 ∧ entersOn line = false) :
    EntranceAt (putLines index more lines) (pushDown index more.length opening)
        (pushDown index more.length closing) found ↔
      ∃ line, found = pushDown index more.length line ∧ EntranceAt lines opening closing line := by
  have flat : index ≤ opening ∨ ∀ line ∈ more, lineDelta .square line = 0 :=
    passed.imp_right fun all line member => (all line member).1
  have old {place : Nat} (low : pushDown index more.length opening < place)
      (enters : ((putLines index more lines)[place]?).any entersOn) :
      ∃ line, place = pushDown index more.length line ∧ (lines[line]?).any entersOn := by
    rcases passed with above | all
    · have moved : place = pushDown index more.length (place - more.length) := by
        simp only [pushDown] at low ⊢
        split at low <;> split <;> omega
      rw [moved, getElem?_putLines_old inside] at enters
      exact ⟨_, moved, enters⟩
    · exact exists_old_of_test inside (fun line member => (all line member).2) enters
  constructor
  · rintro ⟨level, enters, before⟩
    obtain ⟨line, rfl, there⟩ := old level.1 enters
    refine ⟨line, rfl, (levelAt_putLines inside flat).mp level, there, ?_⟩
    intro early higher low
    rw [← getElem?_putLines_old inside]
    exact before _ ((levelAt_putLines inside flat).mpr higher) (pushDown_lt_iff.mpr low)
  · rintro ⟨line, rfl, level, enters, before⟩
    refine ⟨(levelAt_putLines inside flat).mpr level, by rwa [getElem?_putLines_old inside], ?_⟩
    intro early higher low there
    obtain ⟨above, rfl, enters'⟩ := old higher.1 there
    exact before above ((levelAt_putLines inside flat).mp higher) (pushDown_lt_iff.mp low) enters'

/-- Lines go in somewhere else than right below the first entrance. -/
theorem VoicedOn.putLines (voiced : VoicedOn lines extent fixes)
    (passed : index ≤ extent.opening ∨
      ∀ line ∈ more, lineDelta .square line = 0 ∧ entersOn line = false)
    (elsewhere : ∀ opening ∈ fixes.opening, ∀ line,
      EntranceAt lines extent.opening extent.closing line → index ≠ line + 1) :
    VoicedOn (putLines index more lines) (extent.push index more.length) fixes := by
  constructor
  · intro speech member
    obtain ⟨place, low, high, heard⟩ := voiced.1 speech member
    exact ⟨_, pushDown_le_iff.mpr low, pushDown_le_iff.mpr high,
      by rwa [getElem?_putLines_old inside]⟩
  · intro opening member found first
    obtain ⟨line, rfl, entrance⟩ := (entranceAt_putLines inside passed).mp first
    have apart := elsewhere opening member line entrance
    have next : pushDown index more.length line + 1 = pushDown index more.length (line + 1) := by
      simp only [pushDown]
      split <;> split <;> omega
    rw [next, getElem?_putLines_old inside]
    exact voiced.2 opening member line entrance

end Put

/-- What stands above an extent makes no difference to it. -/
theorem voicedOn_top_iff : VoicedOn (more ++ lines) (extent.push 0 more.length) fixes ↔
    VoicedOn lines extent fixes := by
  have whole : putLines 0 more lines = more ++ lines := by simp [putLines]
  have moved (line : Nat) : (more ++ lines)[line + more.length]? = lines[line]? := by
    rw [List.getElem?_append_right (Nat.le_add_left ..), Nat.add_sub_cancel]
  have push (line : Nat) : pushDown 0 more.length line = line + more.length := rfl
  constructor
  · intro voiced
    constructor
    · intro speech member
      obtain ⟨place, low, high, heard⟩ := voiced.1 speech member
      simp only [Extent.push, push] at low high
      obtain ⟨old, rfl⟩ := Nat.exists_eq_add_of_le' (Nat.le_trans (Nat.le_add_left ..) low)
      rw [moved] at heard
      exact ⟨old, by omega, by omega, heard⟩
    · intro opening member line first
      have entrance : EntranceAt (putLines 0 more lines) (pushDown 0 more.length extent.opening)
          (pushDown 0 more.length extent.closing) (pushDown 0 more.length line) :=
        (entranceAt_putLines (Nat.zero_le _) (.inl (Nat.zero_le _))).mpr ⟨line, rfl, first⟩
      rw [whole] at entrance
      have heard := voiced.2 opening member _ entrance
      rwa [push, Nat.add_right_comm, moved] at heard
  · intro voiced
    rw [← whole]
    exact voiced.putLines (Nat.zero_le _) (.inl (Nat.zero_le _)) fun _ _ _ _ => by omega

end Stagecraft
