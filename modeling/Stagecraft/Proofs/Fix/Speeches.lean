import Stagecraft.Proofs.Fix.Column

/-!
A column gives back the speeches it was made of, whatever stands between their apostrophes. Only the
bar, and a colon or a line feed in a name that is worded in front of the fields, would get in the way.
-/

namespace Stagecraft

namespace Fix

/-- The line a fix gives a character. -/
def line? : Fix → Option Speech
  | dialogue speech => some speech
  | _ => none

def opening? : Fix → Option Speech
  | opening speech => some speech
  | _ => none

def closing? : Fix → Option Speech
  | closing speech => some speech
  | _ => none

/-- The texts a fix is worded with. -/
def texts : Fix → List String
  | dialogue speech | opening speech | closing speech =>
    [speech.character, speech.emoji, speech.text]
  | advice message => [message]

/-- Whom a fix names in front of the fields. -/
def addressee? : Fix → Option String
  | dialogue speech | opening speech => some speech.character
  | _ => none

variable {speech : Speech} {message : String} {c : Char} {fix : Fix}

theorem not_mem_quoteChars {text : List Char} (absent : c ∉ text) (mark : c ≠ '\'')
    (slash : c ≠ '\\') : c ∉ quoteChars text := by
  rw [quoteChars, List.cons_append, List.mem_cons, List.mem_append, List.mem_singleton,
    List.mem_flatMap]
  rintro (quoted | ⟨d, inside, escaped⟩ | quoted)
  · exact mark quoted
  · rw [escapeQuote] at escaped
    split at escaped
    · rcases List.mem_pair.mp escaped with same | same
      · exact slash same
      · exact absent (same ▸ inside)
    · exact absent (List.mem_singleton.mp escaped ▸ inside)
  · exact mark quoted

theorem bar_not_mem_fields (free : ∀ text ∈ (dialogue speech).texts, '|' ∉ text.toList) :
    '|' ∉ speech.fields.toList := by
  have quoted (text : String) (member : text ∈ (dialogue speech).texts) :
      '|' ∉ quoteChars text.toList :=
    not_mem_quoteChars (free text member) (by decide) (by decide)
  have character := quoted speech.character (by simp [texts])
  have emoji := quoted speech.emoji (by simp [texts])
  have line := quoted speech.text (by simp [texts])
  rw [Speech.toList_fields]
  simp [character, emoji, line]

/-- A fix brings no bar into the column that is not in its texts. -/
theorem bar_not_mem_render (free : ∀ text ∈ fix.texts, '|' ∉ text.toList) :
    '|' ∉ fix.render.toList := by
  have pretty (speech : Speech) (free : '|' ∉ speech.character.toList) :
      '|' ∉ (prettyText speech.character).toList :=
    not_mem_prettyText free (by decide) (by decide)
  cases fix with
  | dialogue speech =>
    have named := pretty speech (free _ (by simp [texts]))
    have fields := bar_not_mem_fields free
    rw [toList_render_dialogue]
    simp [named, fields]
  | opening speech =>
    have named := pretty speech (free _ (by simp [texts]))
    have fields := bar_not_mem_fields free
    rw [toList_render_opening]
    simp [named, fields]
  | closing speech =>
    have fields := bar_not_mem_fields free
    rw [toList_render_closing]
    simp [fields]
  | advice message => exact free message (by simp [texts])

theorem holds_separator (free : '|' ∉ fix.render.toList) :
    holds fix.render fixSeparator = false := by
  rw [← Bool.not_eq_true, holds_iff]
  intro inside
  exact free (inside.subset (by decide))

theorem legible_of_free (free : ∀ text ∈ fix.texts, '|' ∉ text.toList)
    (named : ∀ name ∈ fix.addressee?, ':' ∉ name.toList ∧ '\n' ∉ name.toList)
    (quiet : fix.isSpeech = false → (parse fix.render).isSpeech = false) : fix.Legible := by
  have single := holds_separator (bar_not_mem_render free)
  cases fix with
  | dialogue speech => exact ⟨(named _ rfl).1, single⟩
  | opening speech =>
    refine ⟨(named _ rfl).2, ?_, single⟩
    rw [← Bool.not_eq_true, holds_iff]
    intro entered
    have colon : ':' ∉ (prettyText speech.character).toList :=
      not_mem_prettyText (named _ rfl).1 (by decide) (by decide)
    exact colon (entered.subset (by decide))
  | closing speech => exact single
  | advice message =>
    intro piece member
    have uncut : cut fixSeparator message = [message] := by
      have absent : ¬ fixSeparator.toList <:+: message.toList := by
        rw [← holds_iff, Bool.not_eq_true]
        exact single
      rw [cut, cutFrom_of_free absent, List.map_singleton, String.ofList_toList]
    rw [uncut, List.mem_singleton] at member
    exact member ▸ quiet rfl

end Fix

namespace SpeechFixes

variable {fixes : List Fix}

theorem ofFixes_eq (fixes : List Fix) : ofFixes fixes =
    ⟨fixes.filterMap Fix.line?, fixes.findSome? Fix.opening?, fixes.findSome? Fix.closing?⟩ := by
  induction fixes with
  | nil => rfl
  | cons fix fixes ih => cases fix <;> simp only [ofFixes, ih] <;> rfl

/-- The lines of a column are those of its fixes in order, with their texts unchanged, and it opens
and closes the scene with the first speech given for that. -/
theorem parseColumn_speeches (unbarred : ∀ fix ∈ fixes, ∀ text ∈ fix.texts, '|' ∉ text.toList)
    (named : ∀ fix ∈ fixes, ∀ name ∈ fix.addressee?, ':' ∉ name.toList ∧ '\n' ∉ name.toList)
    (quiet : ∀ message, .advice message ∈ fixes → (Fix.parse message).isSpeech = false) :
    parseColumn (renderFixes fixes) =
      ⟨fixes.filterMap Fix.line?, fixes.findSome? Fix.opening?,
        fixes.findSome? Fix.closing?⟩ := by
  have legible : ∀ fix ∈ fixes, fix.Legible := by
    intro fix member
    apply Fix.legible_of_free (unbarred fix member) (named fix member)
    intro advice
    cases fix with
    | advice message => exact quiet message member
    | _ => cases advice
  have ends : ∀ fix ∈ fixes, fix.render.toList.getLast? ≠ some '|' := by
    intro fix member last
    exact Fix.bar_not_mem_render (unbarred fix member) (List.mem_of_getLast? last)
  rw [parseColumn_renderFixes legible ends, ofFixes_eq]

/-- Texts that look like the wording around them: an entrance and a field within a closing line. -/
def trickyFixes : List Fix :=
  [.advice "Add a narrator",
    .dialogue ⟨"o'brien_\\", "\x7d", "emoji: 'x' \x7d\nhi"⟩,
    .closing ⟨"add opening emote after x enters: \x7b character: ", ", emoji: ", ", text: "⟩,
    .opening ⟨"the king", "'", "\\'"⟩,
    .closing ⟨"a:b", "", ""⟩]

theorem parseColumn_speeches_tricky :
    (∀ fix ∈ trickyFixes, ∀ text ∈ fix.texts, '|' ∉ text.toList) ∧
    (∀ fix ∈ trickyFixes, ∀ name ∈ fix.addressee?, ':' ∉ name.toList ∧ '\n' ∉ name.toList) ∧
    (∀ message, .advice message ∈ trickyFixes → (Fix.parse message).isSpeech = false) ∧
    parseColumn (renderFixes trickyFixes) =
      ⟨[⟨"o'brien_\\", "\x7d", "emoji: 'x' \x7d\nhi"⟩], some ⟨"the king", "'", "\\'"⟩,
        some ⟨"add opening emote after x enters: \x7b character: ", ", emoji: ", ", text: "⟩⟩ := by
  have unbarred : ∀ fix ∈ trickyFixes, ∀ text ∈ fix.texts, '|' ∉ text.toList := by
    decide +kernel
  have named : ∀ fix ∈ trickyFixes, ∀ name ∈ fix.addressee?,
      ':' ∉ name.toList ∧ '\n' ∉ name.toList := by
    decide +kernel
  have quiet : ∀ message, .advice message ∈ trickyFixes →
      (Fix.parse message).isSpeech = false := by
    intro message member
    simp only [trickyFixes, List.mem_cons, Fix.advice.injEq, reduceCtorEq, List.not_mem_nil,
      or_false] at member
    subst member
    decide +kernel
  exact ⟨unbarred, named, quiet, parseColumn_speeches unbarred named quiet⟩

end SpeechFixes

end Stagecraft
