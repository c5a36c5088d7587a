import Stagecraft.Proofs.Fix.Apostrophes
import Stagecraft.Proofs.Text.Cutting

/-!
A column of fixes read back. Each speech is read by its own reader and by none that is tried before
it: an opening is looked for at any place of a text, but the three fields of a closing line stand at
one place only, and no entrance in front of them.
-/

namespace Stagecraft

namespace Speech

variable {speech : Speech} {rest : List Char}

theorem readField?_quoted (key value : String) :
    readField? key (key.toList ++ ' ' :: (quoteChars value.toList ++ rest)) = some (value, rest) := by
  have inked : skipBlanks (' ' :: (quoteChars value.toList ++ rest)) =
      quoteChars value.toList ++ rest := rfl
  simp only [readField?, afterWord?, after?_append, inked, readQuoted?_quoteChars, bind,
    Option.bind_some]

theorem toList_fields :
    speech.fields.toList = "character:".toList ++ ' ' :: (quoteChars speech.character.toList ++
      ',' :: ' ' :: ("emoji:".toList ++ ' ' :: (quoteChars speech.emoji.toList ++
        ',' :: ' ' :: ("text:".toList ++ ' ' :: quoteChars speech.text.toList)))) := by
  simp [fields, quote]

theorem readFields?_fields (rest : List Char) :
    readFields? (speech.fields.toList ++ ' ' :: '\x7d' :: rest) = some speech := by
  have emoji (text : List Char) :
      skipComma? (',' :: ' ' :: ("emoji:".toList ++ text)) = some ("emoji:".toList ++ text) := rfl
  have line (text : List Char) :
      skipComma? (',' :: ' ' :: ("text:".toList ++ text)) = some ("text:".toList ++ text) := rfl
  have brace : afterWord? "\x7d" (skipBlanks (' ' :: '\x7d' :: rest)) = some rest := rfl
  rw [toList_fields]
  simp only [readFields?, List.append_assoc, List.cons_append, readField?_quoted, emoji, line,
    brace, bind, Option.bind_some, pure]

/-- The fields are found right behind the brace that opens them. -/
theorem readBraced?_fields (rest : List Char) :
    readBraced? (' ' :: '\x7b' :: ' ' :: (speech.fields.toList ++ ' ' :: '\x7d' :: rest)) =
      some speech := by
  have brace (text : List Char) :
      afterWord? "\x7b" (skipBlanks (' ' :: '\x7b' :: text)) = some text := rfl
  have begins : skipBlanks (' ' :: (speech.fields.toList ++ ' ' :: '\x7d' :: rest)) =
      speech.fields.toList ++ ' ' :: '\x7d' :: rest := by
    rw [toList_fields]
    rfl
  simp only [readBraced?, brace, begins, readFields?_fields, bind, Option.bind_some]

/-- They are also found behind the kind of action. -/
theorem fieldsInside?_fields (rest : List Char) :
    fieldsInside? (" action: 'emote', ".toList ++ (speech.fields.toList ++ ' ' :: '\x7d' :: rest)) =
      some speech := by
  have skipped (text : List Char) :
      fieldsInside? (" action: 'emote', ".toList ++ text) = fieldsInside? text := rfl
  have read : readFields? (speech.fields.toList ++ ' ' :: '\x7d' :: rest) = some speech :=
    readFields?_fields rest
  rw [skipped]
  rw [toList_fields] at read ⊢
  have begins : "character:".toList = 'c' :: "haracter:".toList := rfl
  rw [begins] at read ⊢
  simp only [List.cons_append] at read ⊢
  rw [fieldsInside?, read]

end Speech

section Pretty

variable {name : String} {c : Char}

theorem toList_prettyText (name : String) : (prettyText name).toList =
    if name = "" then ['?'] else name.toList.map fun c => if c = '_' then ' ' else c := by
  by_cases empty : name = ""
  · subst empty
    rfl
  · have present : (Value.str name).isPresent = true := by simp [Value.isPresent, empty]
    have text : (Value.str name).text = name := rfl
    rw [if_neg empty, prettyText, pretty, if_pos present, text, replaceChar, String.toList_ofList,
      List.map_eq_flatMap]
    congr 1
    funext c
    split <;> rfl

theorem toList_prettyText_ne_nil : (prettyText name).toList ≠ [] := by
  rw [toList_prettyText]
  split
  · exact List.cons_ne_nil _ _
  · next filled => simpa using filled

/-- A character that is neither a blank nor a question mark comes from the name. -/
theorem not_mem_prettyText (absent : c ∉ name.toList) (blank : c ≠ ' ') (mark : c ≠ '?') :
    c ∉ (prettyText name).toList := by
  rw [toList_prettyText]
  split
  · simpa using mark
  · intro member
    obtain ⟨d, inside, same⟩ := List.mem_map.mp member
    split at same
    · exact blank same.symm
    · exact absent (same ▸ inside)

end Pretty

namespace Fix

variable {speech : Speech} {message : String} {text : List Char}

/-- A text between two characters that are no blanks. -/
theorem stripBlanks_of_ends {c d : Char} (begins : text.head? = some c) (ends : text.getLast? = some d)
    (first : isBlank c = false) (last : isBlank d = false) : stripBlanks text = text := by
  have front : skipBlanks text = text := by
    cases text with
    | nil => cases begins
    | cons c text =>
      cases begins
      rw [skipBlanks, List.dropWhile_cons_of_neg (by simp [first])]
  have back : dropEndBlanks text = text := by
    rw [dropEndBlanks]
    rw [← List.head?_reverse] at ends
    cases turned : text.reverse with
    | nil =>
      rw [turned] at ends
      cases ends
    | cons d rest =>
      rw [turned] at ends
      cases ends
      rw [List.dropWhile_cons_of_neg (by simp [last]), ← turned, List.reverse_reverse]
  rw [stripBlanks, front, back]

theorem toList_render_dialogue : (dialogue speech).render.toList =
    "Add dialogue for ".toList ++ ((prettyText speech.character).toList ++ ':' :: ' ' :: '\x7b' ::
      (" action: 'emote', ".toList ++ (speech.fields.toList ++ [' ', '\x7d']))) := by
  have worded : (dialogue speech).render = "Add dialogue for " ++ prettyText speech.character ++
      ": \x7b action: 'emote', " ++ speech.fields ++ " \x7d" := rfl
  have opens : ": \x7b action: 'emote', ".toList =
      [':', ' ', '\x7b'] ++ " action: 'emote', ".toList := by decide
  have closes : " \x7d".toList = [' ', '\x7d'] := rfl
  rw [worded, String.toList_append, String.toList_append, String.toList_append,
    String.toList_append, opens, closes]
  simp only [List.append_assoc, List.cons_append, List.nil_append]

theorem toList_render_opening : (opening speech).render.toList =
    "Scene is silent - ".toList ++ ("add opening emote after ".toList ++
      ((prettyText speech.character).toList ++ (" enters:".toList ++ ' ' :: '\x7b' :: ' ' ::
        (speech.fields.toList ++ [' ', '\x7d'])))) := by
  have worded : (opening speech).render = "Scene is silent - add opening emote after " ++
      prettyText speech.character ++ " enters: \x7b " ++ speech.fields ++ " \x7d" := rfl
  have begins : "Scene is silent - add opening emote after ".toList =
      "Scene is silent - ".toList ++ "add opening emote after ".toList := by decide
  have opens : " enters: \x7b ".toList = " enters:".toList ++ [' ', '\x7b', ' '] := by decide
  have closes : " \x7d".toList = [' ', '\x7d'] := rfl
  rw [worded, String.toList_append, String.toList_append, String.toList_append,
    String.toList_append, begins, opens, closes]
  simp only [List.append_assoc, List.cons_append, List.nil_append]

theorem toList_render_closing : (closing speech).render.toList =
    "Add closing emote before celebration:".toList ++ ' ' :: '\x7b' :: ' ' ::
      (speech.fields.toList ++ [' ', '\x7d']) := by
  have worded : (closing speech).render = "Add closing emote before celebration: \x7b " ++
      speech.fields ++ " \x7d" := rfl
  have opens : "Add closing emote before celebration: \x7b ".toList =
      "Add closing emote before celebration:".toList ++ [' ', '\x7b', ' '] := by decide
  have closes : " \x7d".toList = [' ', '\x7d'] := rfl
  rw [worded, String.toList_append, String.toList_append, opens, closes]
  simp only [List.append_assoc, List.cons_append, List.nil_append]

def isSpeech : Fix → Bool
  | advice _ => false
  | _ => true

theorem getLast?_render {fix : Fix} (speech : fix.isSpeech = true) :
    fix.render.toList.getLast? = some '\x7d' := by
  cases fix with
  | advice message => cases speech
  | _ => exact getLast?_append_of rfl

/-- A speech is worded between a letter and a brace. -/
theorem stripBlanks_render {fix : Fix} {c : Char} (speech : fix.isSpeech = true)
    (begins : fix.render.toList.head? = some c) (ink : isBlank c = false) :
    stripBlanks fix.render.toList = fix.render.toList :=
  stripBlanks_of_ends begins (getLast?_render speech) ink (by decide)

theorem readDialogue?_named {name rest : List Char} (filled : name ≠ []) (named : ':' ∉ name) :
    readDialogue? ("Add dialogue for ".toList ++ (name ++ ':' :: ' ' :: '\x7b' :: rest)) =
      Speech.fieldsInside? rest := by
  have inside : ∀ c ∈ name, (c != ':') = true := by
    intro c member
    rw [bne_iff_ne]
    rintro rfl
    exact named member
  have taken : (name ++ ':' :: ' ' :: '\x7b' :: rest).takeWhile (· != ':') = name := by
    rw [List.takeWhile_append_of_pos inside, List.takeWhile_cons_of_neg (by simp),
      List.append_nil]
  have dropped : (name ++ ':' :: ' ' :: '\x7b' :: rest).dropWhile (· != ':') =
      ':' :: ' ' :: '\x7b' :: rest := by
    rw [List.dropWhile_append_of_pos inside, List.dropWhile_cons_of_neg (by simp)]
  have brace : afterWord? "\x7b" (skipBlanks (' ' :: '\x7b' :: rest)) = some rest := rfl
  cases name with
  | nil => exact absurd rfl filled
  | cons c name =>
    rw [readDialogue?, afterWord?, after?_append]
    simp only [bind, Option.bind_some, taken, dropped, brace]

theorem parse_dialogue (named : ':' ∉ speech.character.toList) :
    parse (dialogue speech).render = dialogue speech := by
  have begins : (dialogue speech).render.toList.head? = some 'A' := by
    rw [toList_render_dialogue]
    rfl
  have stripped := stripBlanks_render rfl begins (by decide)
  have absent : ':' ∉ (prettyText speech.character).toList :=
    not_mem_prettyText named (by decide) (by decide)
  have read : readDialogue? (dialogue speech).render.toList = some speech := by
    rw [toList_render_dialogue, readDialogue?_named toList_prettyText_ne_nil absent,
      Speech.fieldsInside?_fields []]
  rw [parse]
  simp only [stripped, read]

/-- A word without the mark behind a name begins in the name. -/
theorem prefix_of_prefix_append {word name rest : List Char} {mark : Char} (once : mark ∉ word)
    (begins : word <+: name ++ mark :: rest) : word <+: name := by
  rcases List.prefix_or_prefix_of_prefix begins (List.prefix_append name (mark :: rest)) with
    inside | ⟨more, rfl⟩
  · exact inside
  · have more' : more <+: mark :: rest := (List.prefix_append_right_inj name).mp begins
    cases more with
    | nil => rw [List.append_nil]
    | cons c more =>
      have same : c = mark := (List.cons_prefix_cons.mp more').1
      exact absurd (by simp [same]) once

/-- An entrance is found behind a name on one line that does not hold one itself. -/
theorem afterEntrance?_named {name : List Char} (line : '\n' ∉ name)
    (free : ¬ " enters:".toList <:+: name) :
    Speech.afterEntrance? (name ++ (" enters:".toList ++ ' ' :: '\x7b' :: ' ' ::
      (speech.fields.toList ++ [' ', '\x7d']))) = some speech := by
  induction name with
  | nil =>
    have entrance (text : List Char) : afterWord? " enters:" (' ' :: ("enters:".toList ++ text)) =
        some text := rfl
    have begins : " enters:".toList = ' ' :: "enters:".toList := rfl
    rw [List.nil_append, begins, List.cons_append, Speech.afterEntrance?, entrance,
      Option.bind_some, Speech.readBraced?_fields []]
  | cons c name ih =>
    have later := ih (fun member => line (List.mem_cons_of_mem _ member)) fun inside =>
      free (inside.trans (List.suffix_cons c name).isInfix)
    have feed : c ≠ '\n' := by
      rintro rfl
      exact line List.mem_cons_self
    have missing : afterWord? " enters:" (c :: (name ++ (" enters:".toList ++ ' ' :: '\x7b' :: ' ' ::
        (speech.fields.toList ++ [' ', '\x7d'])))) = none := by
      apply after?_eq_none_iff.mpr
      intro found
      obtain ⟨same, found⟩ := List.cons_prefix_cons.mp found
      have inside := prefix_of_prefix_append (by decide) found
      exact free (List.cons_prefix_cons.mpr ⟨same, inside⟩).isInfix
    rw [List.cons_append, Speech.afterEntrance?, missing, Option.bind_none, if_neg feed, later]

theorem readOpening?_named {name rest : List Char} (filled : name ≠ []) (line : '\n' ∉ name)
    (entered : Speech.afterEntrance? (name.tail ++ rest) = some speech) :
    readOpening? ("Scene is silent - ".toList ++ ("add opening emote after ".toList ++
      (name ++ rest))) = some speech := by
  have skipped (text : List Char) : readOpening? ("Scene is silent - ".toList ++
      ("add opening emote after ".toList ++ text)) =
        readOpening? ("add opening emote after ".toList ++ text) := rfl
  rw [skipped]
  cases name with
  | nil => exact absurd rfl filled
  | cons c name =>
    have feed : c ≠ '\n' := by
      rintro rfl
      exact line List.mem_cons_self
    apply searchFor_of_head
    rw [afterWord?, after?_append]
    simp only [bind, Option.bind_some, List.cons_append, if_neg feed]
    exact entered

theorem parse_opening (line : '\n' ∉ speech.character.toList)
    (free : holds (prettyText speech.character) " enters:" = false) :
    parse (opening speech).render = opening speech := by
  have begins : (opening speech).render.toList.head? = some 'S' := by
    rw [toList_render_opening]
    rfl
  have stripped := stripBlanks_render rfl begins (by decide)
  have line' : '\n' ∉ (prettyText speech.character).toList :=
    not_mem_prettyText line (by decide) (by decide)
  have free' : ¬ " enters:".toList <:+: (prettyText speech.character).toList := by
    rw [← holds_iff, free]
    exact Bool.false_ne_true
  have other : readDialogue? (opening speech).render.toList = none := by
    rw [toList_render_opening]
    rfl
  have read : readOpening? (opening speech).render.toList = some speech := by
    rw [toList_render_opening]
    apply readOpening?_named toList_prettyText_ne_nil line'
    apply afterEntrance?_named
    · exact fun member => line' (List.mem_of_mem_tail member)
    · exact fun inside => free' (inside.trans (List.tail_suffix _).isInfix)
  rw [parse]
  simp only [stripped, other, read]

/-- Nobody enters in front of three fields, at any place of a text. -/
def NoEntrance (text : List Char) : Prop :=
  ∀ place, place <:+ text → (afterWord? " enters:" place).bind Speech.readBraced? = none

theorem NoEntrance.tail {c : Char} (quiet : NoEntrance (c :: text)) : NoEntrance text :=
  fun place inside => quiet place (inside.trans (List.suffix_cons c text))

theorem NoEntrance.afterEntrance? (quiet : NoEntrance text) :
    Speech.afterEntrance? text = none := by
  induction text with
  | nil => rfl
  | cons c text ih =>
    rw [Speech.afterEntrance?, quiet _ List.suffix_rfl, ih quiet.tail]
    exact ite_self none

theorem NoEntrance.readOpening? (quiet : NoEntrance text) : readOpening? text = none := by
  apply search_eq_none_iff.mpr
  rintro front back rfl
  cases found : afterWord? "add opening emote after " back with
  | none => rfl
  | some named =>
    cases named with
    | nil => rfl
    | cons c named =>
      have inside : named <:+ front ++ back := by
        rw [eq_append_of_after? found]
        exact (List.suffix_cons c named).trans
          ((List.suffix_append _ _).trans (List.suffix_append _ _))
      have none : Speech.afterEntrance? named = none :=
        NoEntrance.afterEntrance? fun place there => quiet place (there.trans inside)
      change (if c = '\n' then Option.none else Speech.afterEntrance? named) = Option.none
      rw [none, ite_self]

theorem noEntrance_of_free (free : ¬ " enters:".toList <:+: text) : NoEntrance text := by
  intro place inside
  have missing : afterWord? " enters:" place = none :=
    after?_eq_none_iff.mpr fun begins => free (begins.isInfix.trans inside.isInfix)
  rw [missing]
  rfl

/-- A place in front of a mark, or behind it. -/
theorem suffix_marked {front back place : List Char} {mark : Char}
    (inside : place <:+ front ++ mark :: back) :
    (∃ left, left <:+ front ∧ place = left ++ mark :: back) ∨ place <:+ back := by
  obtain ⟨gone, same⟩ := inside
  rcases List.append_eq_append_iff.mp same with ⟨left, rfl, rfl⟩ | ⟨gap, rfl, ends⟩
  · exact .inl ⟨left, List.suffix_append _ _, rfl⟩
  · cases gap with
    | nil => exact .inl ⟨[], List.nil_suffix, ends.symm⟩
    | cons c gap =>
      right
      rw [(List.cons.inj ends).2]
      exact List.suffix_append _ _

theorem noEntrance_gap {gap : List Char} (free : ¬ " enters:".toList <:+: gap)
    (behind : NoEntrance text) : NoEntrance (gap ++ '\'' :: text) := by
  intro place inside
  rcases suffix_marked inside with ⟨left, within, rfl⟩ | inside
  · have missing : afterWord? " enters:" (left ++ '\'' :: text) = none := by
      apply after?_eq_none_iff.mpr
      intro begins
      have first := prefix_of_prefix_append (by decide) begins
      exact free (first.isInfix.trans within.isInfix)
    rw [missing]
    rfl
  · exact behind place inside

/-- From within a text between apostrophes the fields cannot be read, so nobody enters there. -/
theorem noEntrance_quoted {inner : List Char}
    (unread : ∀ all, Within text all → Speech.readFields? all = none) (behind : NoEntrance text) :
    NoEntrance (inner.flatMap escapeQuote ++ '\'' :: text) := by
  intro place inside
  rcases suffix_marked inside with ⟨left, within, rfl⟩ | inside
  · have here : Within text (left ++ '\'' :: text) := ⟨inner, left, within, rfl⟩
    rw [Option.bind_eq_none_iff]
    intro entered found
    have after := here.after? found (by decide)
    change (afterWord? "\x7b" (skipBlanks entered)).bind _ = none
    rw [Option.bind_eq_none_iff]
    intro braced found
    exact unread _ (after.skipBlanks.after? found (by decide)).skipBlanks
  · exact behind place inside

section Unread

variable {all more : List Char} {found : Speech} {key value : String}

theorem readFields?_parts (read : Speech.readFields? all = some found) :
    ∃ first second third fourth last,
      Speech.readField? "character:" all = some (found.character, first) ∧
      Speech.skipComma? first = some second ∧
      Speech.readField? "emoji:" second = some (found.emoji, third) ∧
      Speech.skipComma? third = some fourth ∧
      Speech.readField? "text:" fourth = some (found.text, last) := by
  obtain ⟨⟨character, first⟩, one, read⟩ := Option.bind_eq_some_iff.mp read
  obtain ⟨second, comma, read⟩ := Option.bind_eq_some_iff.mp read
  obtain ⟨⟨emoji, third⟩, two, read⟩ := Option.bind_eq_some_iff.mp read
  obtain ⟨fourth, comma', read⟩ := Option.bind_eq_some_iff.mp read
  obtain ⟨⟨line, last⟩, three, read⟩ := Option.bind_eq_some_iff.mp read
  obtain ⟨_, -, same⟩ := Option.bind_eq_some_iff.mp read
  cases same
  exact ⟨first, second, third, fourth, last, one, comma, two, comma', three⟩

theorem within_skipComma? {rest : List Char} (within : Within rest all)
    (found : Speech.skipComma? all = some more) : Within rest more := by
  obtain ⟨behind, comma, rfl⟩ := Option.map_eq_some_iff.mp found
  exact (within.after? comma (by decide)).skipBlanks

/-- What stands behind each of the three texts of a closing line. -/
def behindText : List Char := [' ', '\x7d']

def behindEmoji (speech : Speech) : List Char :=
  ", text: ".toList ++ (quoteChars speech.text.toList ++ behindText)

def behindCharacter (speech : Speech) : List Char :=
  ", emoji: ".toList ++ (quoteChars speech.emoji.toList ++ behindEmoji speech)

theorem readField?_within_text (within : Within behindText all) (filled : key.toList ≠ [])
    (plain : key.toList.all isPlain = true) :
    Speech.readField? key all ≠ some (value, more) := by
  intro read
  obtain ⟨body, closed⟩ := within.readField? filled plain read
  cases closed

theorem readFields?_within_text (within : Within behindText all) :
    Speech.readFields? all = none := by
  rw [Option.eq_none_iff_forall_ne_some]
  intro found read
  obtain ⟨_, _, _, _, _, one, -⟩ := readFields?_parts read
  exact readField?_within_text within (by decide) (by decide) one

theorem readFields?_within_emoji (within : Within (behindEmoji speech) all) :
    Speech.readFields? all = none := by
  rw [Option.eq_none_iff_forall_ne_some]
  intro found read
  obtain ⟨_, _, _, _, _, one, comma, two, -⟩ := readFields?_parts read
  have closed := within.next (by decide) (by decide) (by decide) one
  have second := within_skipComma? closed comma
  exact readField?_within_text second (by decide) (by decide) two

theorem readFields?_within_character (within : Within (behindCharacter speech) all) :
    Speech.readFields? all = none := by
  rw [Option.eq_none_iff_forall_ne_some]
  intro found read
  obtain ⟨_, _, _, _, _, one, comma, two, comma', three⟩ := readFields?_parts read
  have closed := within.next (by decide) (by decide) (by decide) one
  have second := within_skipComma? closed comma
  have closed' := second.next (by decide) (by decide) (by decide) two
  have third := within_skipComma? closed' comma'
  exact readField?_within_text third (by decide) (by decide) three

end Unread

theorem toList_render_closing_marks : (closing speech).render.toList =
    "Add closing emote before celebration: \x7b character: ".toList ++ '\'' ::
      (speech.character.toList.flatMap escapeQuote ++ '\'' :: behindCharacter speech) := by
  have begins : "Add closing emote before celebration: \x7b character: ".toList =
      "Add closing emote before celebration:".toList ++ ' ' :: '\x7b' :: ' ' ::
        ("character:".toList ++ [' ']) := by decide
  have emoji : ", emoji: ".toList = ',' :: ' ' :: ("emoji:".toList ++ [' ']) := by decide
  have text : ", text: ".toList = ',' :: ' ' :: ("text:".toList ++ [' ']) := by decide
  unfold behindCharacter behindEmoji behindText
  rw [toList_render_closing, Speech.toList_fields, begins, emoji, text]
  simp only [quoteChars, List.append_assoc, List.cons_append, List.nil_append]

theorem noEntrance_closing : NoEntrance (closing speech).render.toList := by
  have emoji : behindCharacter speech = ", emoji: ".toList ++ '\'' ::
      (speech.emoji.toList.flatMap escapeQuote ++ '\'' :: behindEmoji speech) := by
    unfold behindCharacter
    simp only [quoteChars, List.append_assoc, List.cons_append, List.nil_append]
  have text : behindEmoji speech = ", text: ".toList ++ '\'' ::
      (speech.text.toList.flatMap escapeQuote ++ '\'' :: behindText) := by
    unfold behindEmoji
    simp only [quoteChars, List.append_assoc, List.cons_append, List.nil_append]
  have third : NoEntrance behindText := noEntrance_of_free (by decide)
  have third' : NoEntrance (speech.text.toList.flatMap escapeQuote ++ '\'' :: behindText) :=
    noEntrance_quoted (fun _ within => readFields?_within_text within) third
  have second : NoEntrance (behindEmoji speech) := text ▸ noEntrance_gap (by decide) third'
  have second' : NoEntrance (speech.emoji.toList.flatMap escapeQuote ++ '\'' ::
      behindEmoji speech) :=
    noEntrance_quoted (fun _ within => readFields?_within_emoji within) second
  have first : NoEntrance (behindCharacter speech) := emoji ▸ noEntrance_gap (by decide) second'
  have first' : NoEntrance (speech.character.toList.flatMap escapeQuote ++ '\'' ::
      behindCharacter speech) :=
    noEntrance_quoted (fun _ within => readFields?_within_character within) first
  exact toList_render_closing_marks ▸ noEntrance_gap (by decide) first'

theorem parse_closing : parse (closing speech).render = closing speech := by
  have begins : (closing speech).render.toList.head? = some 'A' := by
    rw [toList_render_closing]
    rfl
  have stripped := stripBlanks_render rfl begins (by decide)
  have other : readDialogue? (closing speech).render.toList = none := by
    rw [toList_render_closing]
    rfl
  have other' : readOpening? (closing speech).render.toList = none :=
    noEntrance_closing.readOpening?
  have read : readClosing? (closing speech).render.toList = some speech := by
    rw [toList_render_closing, readClosing?, afterWord?, after?_append]
    simp only [bind, Option.bind_some, Speech.readBraced?_fields []]
  rw [parse]
  simp only [stripped, other, other', read]

/-- Comes back from a column: it is not cut at a separator, the name in front of a line ends at the
first colon, and the one of an opening must leave the entrance to be found on its line. Advice may
be cut, but no piece of it may be read as a speech. -/
def Legible : Fix → Prop
  | dialogue speech => ':' ∉ speech.character.toList ∧
      holds (dialogue speech).render fixSeparator = false
  | opening speech => '\n' ∉ speech.character.toList ∧
      holds (prettyText speech.character) " enters:" = false ∧
      holds (opening speech).render fixSeparator = false
  | closing speech => holds (closing speech).render fixSeparator = false
  | advice message => ∀ piece ∈ cut fixSeparator message, (parse piece).isSpeech = false

instance : (fix : Fix) → Decidable fix.Legible
  | dialogue _ => inferInstanceAs (Decidable (_ ∧ _))
  | opening _ => inferInstanceAs (Decidable (_ ∧ _ ∧ _))
  | closing _ => inferInstanceAs (Decidable (_ = _))
  | advice _ => inferInstanceAs (Decidable (∀ piece ∈ cut fixSeparator _, _))

/-- The pieces of a speech are itself, read back. -/
theorem parse_speech {fix : Fix} (legible : fix.Legible) (speech : fix.isSpeech) :
    (cut fixSeparator fix.render).map parse = [fix] := by
  have single (free : holds fix.render fixSeparator = false) :
      cut fixSeparator fix.render = [fix.render] := by
    have absent : ¬ fixSeparator.toList <:+: fix.render.toList := by
      rw [← holds_iff, free]
      exact Bool.false_ne_true
    rw [cut, cutFrom_of_free absent, List.map_singleton, String.ofList_toList]
  cases fix with
  | dialogue speech =>
    obtain ⟨named, free⟩ := legible
    rw [single free, List.map_singleton, parse_dialogue named]
  | opening speech =>
    obtain ⟨line, entered, free⟩ := legible
    rw [single free, List.map_singleton, parse_opening line entered]
  | closing speech => rw [single legible, List.map_singleton, parse_closing]
  | advice message => cases speech

/-- The pieces of advice are advice. -/
theorem parse_advice (legible : (advice message).Legible) :
    ∀ fix ∈ (cut fixSeparator message).map parse, fix.isSpeech = false := by
  intro fix member
  obtain ⟨piece, inside, rfl⟩ := List.mem_map.mp member
  exact legible piece inside

end Fix

section Cut

variable {text rest : List Char} {skip : Nat} {c : Char}

theorem isPrefixOf_separator (unbarred : (c :: text).getLast? ≠ some '|') :
    fixSeparator.toList.isPrefixOf (c :: (text ++ (fixSeparator.toList ++ rest))) =
      fixSeparator.toList.isPrefixOf (c :: text) := by
  have letters : fixSeparator.toList = [' ', '|', ' '] := rfl
  rw [letters]
  match text with
  | [] => simp [List.isPrefixOf]
  | [d] =>
    have other : d ≠ '|' := by simpa using unbarred
    simp [List.isPrefixOf, other.symm]
  | d :: e :: text => simp [List.isPrefixOf]

/-- Cutting goes on afresh behind a separator, unless a bar in front of it makes one too early. -/
theorem cutFrom_separator (unbarred : text.getLast? ≠ some '|') (inside : skip ≤ text.length) :
    cutFrom fixSeparator.toList skip (text ++ (fixSeparator.toList ++ rest)) =
      cutFrom fixSeparator.toList skip text ++ cutFrom fixSeparator.toList 0 rest := by
  induction text generalizing skip with
  | nil =>
    have none : skip = 0 := by simpa using inside
    subst none
    rfl
  | cons c text ih =>
    have later : text.getLast? ≠ some '|' := by
      cases text with
      | nil => simp
      | cons d text => simpa using unbarred
    cases skip with
    | succ skip => exact ih later (Nat.le_of_succ_le_succ inside)
    | zero =>
      rw [List.cons_append, cutFrom, cutFrom, isPrefixOf_separator unbarred]
      by_cases begins : fixSeparator.toList.isPrefixOf (c :: text) = true
      · have long : 2 ≤ text.length := by
          have bound := (List.isPrefixOf_iff_prefix.mp begins).length_le
          exact Nat.le_of_succ_le_succ bound
        rw [if_pos begins, if_pos begins, List.cons_append]
        exact congrArg ([] :: ·) (ih later long)
      · rw [if_neg begins, if_neg begins, ih later (Nat.zero_le _),
          intoFirst_append c cutFrom_ne_nil]

/-- A joined column is cut into the pieces of its parts. -/
theorem cut_join {parts : List String} (filled : parts ≠ [])
    (unbarred : ∀ part ∈ parts, part.toList.getLast? ≠ some '|') :
    cut fixSeparator (join fixSeparator parts) = parts.flatMap (cut fixSeparator) := by
  induction parts with
  | nil => exact absurd rfl filled
  | cons first others ih =>
    cases others with
    | nil => simp [join]
    | cons second others =>
      have later := ih (List.cons_ne_nil _ _) fun part member =>
        unbarred part (List.mem_cons_of_mem _ member)
      have joined : (join fixSeparator (first :: second :: others)).toList = first.toList ++
          (fixSeparator.toList ++ (join fixSeparator (second :: others)).toList) := by
        rw [join, String.intercalate_cons_of_ne_nil (List.cons_ne_nil _ _), String.toList_append,
          String.toList_append, List.append_assoc]
        rfl
      rw [List.flatMap_cons, ← later, cut, joined,
        cutFrom_separator (unbarred first List.mem_cons_self) (Nat.zero_le _), List.map_append]
      rfl

end Cut

namespace SpeechFixes

variable {fixes pieces : List Fix} {fix : Fix}

theorem ofFixes_advice (quiet : ∀ fix ∈ pieces, fix.isSpeech = false) :
    ofFixes (pieces ++ fixes) = ofFixes fixes := by
  induction pieces with
  | nil => rfl
  | cons fix pieces ih =>
    have later := ih fun other member => quiet other (List.mem_cons_of_mem _ member)
    cases fix with
    | advice message => exact later
    | _ => cases quiet _ List.mem_cons_self

theorem ofFixes_lines (lines : List Speech) :
    ofFixes (lines.map .dialogue ++ fixes) =
      { ofFixes fixes with dialogue := lines ++ (ofFixes fixes).dialogue } := by
  induction lines with
  | nil => rfl
  | cons line lines ih => rw [List.map_cons, List.cons_append, ofFixes, ih, List.cons_append]

theorem ofFixes_cons_congr {others : List Fix} (same : ofFixes fixes = ofFixes others) :
    ofFixes (fix :: fixes) = ofFixes (fix :: others) := by
  cases fix <;> simp only [ofFixes, same]

/-- The first piece of an empty column is advice. -/
theorem parseColumn_eq (text : String) :
    parseColumn text = ofFixes ((cut fixSeparator text).map Fix.parse) := by
  rw [parseColumn]
  split
  · next empty =>
    subst empty
    decide
  · rfl

theorem ofFixes_flatMap (legible : ∀ fix ∈ fixes, fix.Legible) :
    ofFixes (fixes.flatMap fun fix => (cut fixSeparator fix.render).map Fix.parse) =
      ofFixes fixes := by
  induction fixes with
  | nil => rfl
  | cons fix fixes ih =>
    have first := legible fix List.mem_cons_self
    have later := ih fun other member => legible other (List.mem_cons_of_mem _ member)
    rw [List.flatMap_cons]
    cases speech : fix.isSpeech with
    | true =>
      rw [Fix.parse_speech first speech, List.singleton_append]
      exact ofFixes_cons_congr later
    | false =>
      cases fix with
      | advice message => exact (ofFixes_advice (Fix.parse_advice first)).trans later
      | _ => cases speech

/-- The speeches of a column are those of the fixes it was made of. -/
theorem parseColumn_renderFixes (legible : ∀ fix ∈ fixes, fix.Legible)
    (unbarred : ∀ fix ∈ fixes, fix.render.toList.getLast? ≠ some '|') :
    parseColumn (renderFixes fixes) = ofFixes fixes := by
  rw [parseColumn_eq, renderFixes]
  cases fixes with
  | nil => decide
  | cons fix others =>
    have ends : ∀ part ∈ (fix :: others).map Fix.render, part.toList.getLast? ≠ some '|' := by
      intro part member
      obtain ⟨other, inside, rfl⟩ := List.mem_map.mp member
      exact unbarred other inside
    rw [cut_join (by simp) ends, List.flatMap_map, List.map_flatMap]
    exact ofFixes_flatMap legible

end SpeechFixes

end Stagecraft
