import Stagecraft.Proofs.Edit.Verbatim
import Stagecraft.Proofs.Edit.Voice
import Stagecraft.Proofs.Literal.Mentioned
import Stagecraft.Proofs.Vignette.Elements

/-!
Who speaks in a record, by its lines and by its elements. The lines are searched for the words
alone, so both agree where each mention of a word goes on with a call that is written out, and where
there are no more mentions than calls among the elements.
-/

namespace Stagecraft

variable {character name word line : String} {rest text : List Char} {behind : List Lexeme}
  {lines : List String} {elements args : List Value} {buffer : Buffer} {location : Location}

def speechWords : List String := [speakDirective, "CHARACTER_EXCLAIM"]

/-- A call that is spread among the elements gives the character its voice. -/
def Speaks (character : String) (elements : List Value) : Prop :=
  ∃ word ∈ speechWords, ∃ others, .spread (.call word (.str character :: others)) ∈ elements

section Voices

/-- The text a call goes on with as its first argument. -/
def voice? (rest : List Char) : Option String :=
  (afterWord? "(" (skipBlanks rest)).bind fun args => plainText? (skipBlanks args)

theorem voice?_split (read : voice? rest = some name) :
    ∃ args, skipBlanks rest = '(' :: args ∧ plainText? (skipBlanks args) = some name := by
  obtain ⟨args, opened, plain⟩ := Option.bind_eq_some_iff.mp read
  exact ⟨args, eq_append_of_after? opened, plain⟩

/-- What has a voice is read as a call with that text as its first argument. -/
theorem lexes_of_voice {more : List Char} (voiced : voice? rest = some name)
    (lexed : Lexes (rest ++ more) behind) :
    ∃ others, behind = .punct '(' :: .str name :: others := by
  obtain ⟨args, opened, plain⟩ := voice?_split voiced
  rw [← Lexes.skipBlanks_iff, skipBlanks_append_of_cons opened,
    Lexes.token_iff (nextPiece?_mark (by decide))] at lexed
  obtain ⟨inside, rfl, lexed⟩ := lexed
  obtain ⟨others, rfl⟩ := lexes_of_plainText plain lexed
  exact ⟨others, rfl⟩

end Voices

section Search

/-- A call whose first argument has the name between two marks of either kind. -/
def called? (character : String) (rest : List Char) : Option Unit := do
  match skipBlanks (← afterWord? "(" (skipBlanks rest)) with
  | mark :: name =>
    match isQuote mark, after? character.toList name with
    | true, some (closing :: _) => if isQuote closing then some () else none
    | _, _ => none
  | [] => none

theorem speaksFor_eq : speaksFor character line = (searchFor (fun text =>
    (afterWord? speakDirective text <|> afterWord? "CHARACTER_EXCLAIM" text).bind
      (called? character)) line.toList).isSome := rfl

theorem afterWord?_speech_iff :
    (afterWord? speakDirective text <|> afterWord? "CHARACTER_EXCLAIM" text) = some rest ↔
      ∃ word ∈ speechWords, text = word.toList ++ rest := by
  have apart : after? speakDirective.toList ("CHARACTER_EXCLAIM".toList ++ rest) = none := by
    simp [speakDirective, after?]
  simp only [speechWords, List.mem_cons, List.not_mem_nil, or_false, exists_eq_or_imp,
    exists_eq_left]
  constructor
  · intro found
    cases speak : afterWord? speakDirective text with
    | some behind =>
      rw [speak] at found
      obtain rfl := Option.some.inj found
      exact .inl (eq_append_of_after? speak)
    | none =>
      rw [speak] at found
      exact .inr (eq_append_of_after? found)
  · rintro (rfl | rfl)
    · rw [afterWord?, after?_append]
      rfl
    · rw [afterWord?, apart, afterWord?, after?_append]
      rfl

/-- A call begins where no name goes on. -/
theorem head?_of_called (called : (called? character rest).isSome = true) :
    rest.head?.any continuesName = false := by
  cases rest with
  | nil => rfl
  | cons c rest =>
    by_cases blank : isBlank c = true
    · have word := isWord_eq_false_of_isBlank blank
      have dollar : c ≠ '$' := ne_of_isBlank blank (by decide)
      simpa [continuesName, word] using dollar
    · have kept : skipBlanks (c :: rest) = c :: rest := List.dropWhile_cons_of_neg blank
      obtain ⟨_, ran⟩ := Option.isSome_iff_exists.mp called
      obtain ⟨args, opened, -⟩ := Option.bind_eq_some_iff.mp ran
      have first := eq_append_of_after? opened
      rw [kept] at first
      obtain rfl : c = '(' := (List.cons.inj first).1
      exact show continuesName '(' = false by decide

/-- A line speaks for a character when it does so at a mention. -/
theorem speaksFor_iff : speaksFor character line = true ↔ ∃ word ∈ speechWords,
    ∃ rest ∈ mentions word.toList line.toList, (called? character rest).isSome = true := by
  rw [speaksFor_eq, searchFor_isSome_iff]
  constructor
  · rintro ⟨front, back, split, found⟩
    obtain ⟨answer, found⟩ := Option.isSome_iff_exists.mp found
    obtain ⟨rest, spelled, called⟩ := Option.bind_eq_some_iff.mp found
    obtain ⟨word, speech, rfl⟩ := afterWord?_speech_iff.mp spelled
    have called := Option.isSome_of_eq_some called
    exact ⟨word, speech, rest, mem_mentions.mpr ⟨front, split, head?_of_called called⟩, called⟩
  · rintro ⟨word, speech, rest, there, called⟩
    obtain ⟨front, split, -⟩ := mem_mentions.mp there
    refine ⟨front, word.toList ++ rest, split, ?_⟩
    rwa [afterWord?_speech_iff.mpr ⟨word, speech, rfl⟩, Option.bind_some]

/-- What has a voice calls for the character whose name that is. -/
theorem called?_of_voice (voiced : voice? rest = some name)
    (unquoted : ∀ c ∈ character.toList, isQuote c = false) :
    (called? character rest).isSome = true ↔ name = character := by
  obtain ⟨args, opened, read⟩ := voice?_split voiced
  obtain ⟨mark, more, quote, split, plain⟩ := plainText?_split read
  have open' : afterWord? "(" ('(' :: args) = some args := rfl
  rw [called?]
  simp only [opened, open', split, quote, Option.bind_eq_bind, Option.bind_some]
  constructor
  · intro found
    split at found
    · next closing behind _ named =>
      have same := eq_append_of_after? named
      split at found
      · next quote' =>
        exact String.toList_inj.mp (eq_of_marked
          (fun c member => (isVerbatim_iff.mp (plain c member)).1) unquoted quote quote' same)
      · cases found
    · cases found
  · rintro rfl
    rw [after?_append]
    simp [quote]

end Search

section Records

/-- A call that is read from what follows a mention. -/
def ReadFrom (args : List Value) (rest : List Char) : Prop :=
  ∀ name, voice? rest = some name → ∃ others, args = .str name :: others

theorem elementsOf_cases (fields : Fields) : elementsOf fields = [] ∨
    Fields.get? fields "steps" = some (.list (elementsOf fields)) := by
  cases found : Fields.get? fields "steps" with
  | none => exact .inl (by rw [elementsOf, found]; rfl)
  | some value =>
    cases value with
    | list items => exact .inr (by rw [elementsOf, found, itemsOrName_list])
    | _ =>
      left
      rw [elementsOf, found, Value.itemsOrName.eq_def]
      split
      · rfl
      · next list =>
        obtain ⟨_, same, present⟩ := Option.bind_eq_some_iff.mp list
        cases same
        cases (Option.ite_none_right_eq_some.mp present).2
      · rfl

/-- The elements of a record that are read from a text stem from the list written there. -/
theorem stems_of_elements {lexemes : List Lexeme} {value : Value} {room : Nat}
    (reads : Reads (.value room) lexemes value behind) :
    elementsOf (fieldsOf value) = [] ∨ Stems lexemes (elementsOf (fieldsOf value)) := by
  rcases elementsOf_cases (fieldsOf value) with none | some
  · exact .inl none
  · right
    cases value with
    | object fields => exact reads.lists.2 fields rfl _ _ (Entries.mem_of_lookup some)
    | _ => cases some

/-- Each call that is spread among the elements is read from a mention of its own. -/
theorem elements_mentioned (filled : word.toList ≠ []) (whole : '\n' ∉ word.toList)
    (read : stepElements buffer location = .ok elements) :
    List.SublistForall₂ ReadFrom (spreadArgs word elements)
      (mentionsOn word (buffer.spanLines location.record)) := by
  obtain ⟨value, ⟨-, literal⟩, rfl⟩ := stepElements_iff.mp read
  obtain ⟨lexemes, _, lexed, reads, -⟩ := readLiteral_iff.mp literal
  rcases stems_of_elements reads with none | ⟨_, more, _, inside, items⟩
  · rw [none]
    exact .nil
  · have named : List.SublistForall₂ GivenBehind (spreadArgs word (elementsOf (fieldsOf value)))
        (namings word lexemes) :=
      sublistForall₂_mono items.items_namings (namings_sublist inside)
    have text : (recordText (buffer.spanText location.record)).toList <:+
        (join "\n" (buffer.spanLines location.record)).toList := by
      rw [recordText, String.toList_ofList, Buffer.spanText]
      exact List.dropWhile_suffix _
    have mentioned : List.SublistForall₂ (fun behind rest => Lexes rest behind)
        (namings word lexemes)
        (mentions word.toList (join "\n" (buffer.spanLines location.record)).toList) :=
      sublistForall₂_mono lexed.mentions (mentions_sublist text)
    have found := sublistForall₂_comp named
      (sublistForall₂_comp mentioned (mentions_join filled whole))
    refine sublistForall₂_imp found ?_
    rintro args rest ⟨behind, ⟨_, more, _, rfl, given⟩, _, lexes, after, rfl⟩ name voiced
    obtain ⟨others, same⟩ := lexes_of_voice voiced lexes
    obtain ⟨-, rfl⟩ := List.cons.inj same
    exact given.items_str

/-- The lines speak for a character where a mention has that voice. -/
theorem any_speaksFor_iff
    (written : ∀ word ∈ speechWords, ∀ rest ∈ mentionsOn word lines, (voice? rest).isSome)
    (unquoted : ∀ c ∈ character.toList, isQuote c = false) :
    lines.any (speaksFor character) = true ↔
      ∃ word ∈ speechWords, ∃ rest ∈ mentionsOn word lines, voice? rest = some character := by
  simp only [List.any_eq_true, speaksFor_iff]
  constructor
  · rintro ⟨line, there, word, speech, rest, mention, called⟩
    have mention : rest ∈ mentionsOn word lines := List.mem_flatMap.mpr ⟨line, there, mention⟩
    obtain ⟨name, voiced⟩ := Option.isSome_iff_exists.mp (written word speech rest mention)
    obtain rfl := (called?_of_voice voiced unquoted).mp called
    exact ⟨word, speech, rest, mention, voiced⟩
  · rintro ⟨word, speech, rest, mention, voiced⟩
    obtain ⟨line, there, mention⟩ := List.mem_flatMap.mp mention
    exact ⟨line, there, word, speech, rest, mention, (called?_of_voice voiced unquoted).mpr rfl⟩

theorem speechWord_plain (speech : word ∈ speechWords) :
    word.toList ≠ [] ∧ '\n' ∉ word.toList := by
  simp only [speechWords, speakDirective, List.mem_cons, List.not_mem_nil, or_false] at speech
  rcases speech with rfl | rfl <;> decide

/-- Where each mention of a word of speech goes on with a written voice, whoever has a call among
the elements speaks on the lines; and where there are no more mentions than calls, nobody else
does. -/
theorem hasDialogue_iff_speaks (read : stepElements buffer location = .ok elements)
    (written : ∀ word ∈ speechWords, ∀ rest ∈ mentionsOn word (buffer.spanLines location.record),
      (voice? rest).isSome)
    (unquoted : ∀ c ∈ character.toList, isQuote c = false) :
    ∃ spoken, hasDialogue buffer location.record character = .ok spoken ∧
      (Speaks character elements → spoken = true) ∧
      ((∀ word ∈ speechWords, (mentionsOn word (buffer.spanLines location.record)).length ≤
          (spreadArgs word elements).length) →
        (spoken = true ↔ Speaks character elements)) := by
  obtain ⟨value, ⟨valid, -⟩, -⟩ := stepElements_iff.mp read
  refine ⟨_, hasDialogue_valid valid character, ?_⟩
  rw [any_speaksFor_iff written unquoted]
  have complete : Speaks character elements →
      ∃ word ∈ speechWords, ∃ rest ∈ mentionsOn word (buffer.spanLines location.record),
        voice? rest = some character := by
    rintro ⟨word, speech, others, there⟩
    obtain ⟨filled, whole⟩ := speechWord_plain speech
    obtain ⟨kept, pairs, part⟩ :=
      List.sublistForall₂_iff.mp (elements_mentioned filled whole read)
    obtain ⟨rest, mention, readFrom⟩ := exists_of_mem_left pairs (mem_spreadArgs.mpr there)
    have mention := part.subset mention
    obtain ⟨name, voiced⟩ := Option.isSome_iff_exists.mp (written word speech rest mention)
    obtain ⟨_, same⟩ := readFrom name voiced
    cases same
    exact ⟨word, speech, rest, mention, voiced⟩
  refine ⟨complete, fun fewer => ⟨?_, complete⟩⟩
  rintro ⟨word, speech, rest, mention, voiced⟩
  obtain ⟨filled, whole⟩ := speechWord_plain speech
  obtain ⟨kept, pairs, part⟩ :=
    List.sublistForall₂_iff.mp (elements_mentioned filled whole read)
  -- As many calls as mentions: none of the mentions is left without one.
  obtain rfl := part.eq_of_length_le (pairs.length_eq ▸ fewer word speech)
  obtain ⟨args, there, readFrom⟩ := exists_of_mem_left pairs.flip mention
  obtain ⟨others, rfl⟩ := readFrom character voiced
  exact ⟨word, speech, others, mem_spreadArgs.mp there⟩

/-- A call with blanks and other marks, one that goes on in the next line, and a comment. -/
def courtRecord : Buffer := ⟨["const A = \x7b", "id: 'a',", "steps: [", "// Not the queen.",
  "...CHARACTER_SPEAK ( \"king\", 'happy', 'Hail!'),", "...CHARACTER_EXCLAIM('mage',", "'No!'),",
  "],", "\x7d;"], []⟩

def courtLocation : Location := ⟨"a", 1, ⟨0, 9, 0⟩, some ⟨2, 8, 0⟩⟩

/-- The king and the mage speak in the record, the queen does not. -/
theorem hasDialogue_iff_speaks_court : ∃ elements,
    stepElements courtRecord courtLocation = .ok elements ∧
      (∀ word ∈ speechWords, ∀ rest ∈ mentionsOn word (courtRecord.spanLines courtLocation.record),
        (voice? rest).isSome) ∧
      Speaks "king" elements ∧ Speaks "mage" elements ∧ ¬ Speaks "queen" elements := by
  have written : ∀ word ∈ speechWords,
      ∀ rest ∈ mentionsOn word (courtRecord.spanLines courtLocation.record),
        (voice? rest).isSome := by decide +kernel
  have counted : (stepElements courtRecord courtLocation).toOption.map (fun elements =>
      decide (∀ word ∈ speechWords,
        (mentionsOn word (courtRecord.spanLines courtLocation.record)).length ≤
          (spreadArgs word elements).length)) = some true := by
    rw [stepElements_eq]
    decide +kernel
  obtain ⟨elements, answer, counted⟩ := Option.map_eq_some_iff.mp counted
  have read := Except.ok_of_toOption answer
  have fewer := of_decide_eq_true counted
  have told (character : String) (unquoted : character.toList.all (! isQuote ·) = true) :
      (courtRecord.spanLines courtLocation.record).any (speaksFor character) = true ↔
        Speaks character elements := by
    have unquoted' : ∀ c ∈ character.toList, isQuote c = false := by simpa using unquoted
    obtain ⟨_, ran, -, told⟩ := hasDialogue_iff_speaks read written unquoted'
    rw [hasDialogue_valid (by decide), Except.ok.injEq] at ran
    rw [ran]
    exact told fewer
  refine ⟨elements, read, written, ?_, ?_, ?_⟩
  · exact (told "king" (by decide)).mp (by decide +kernel)
  · exact (told "mage" (by decide)).mp (by decide +kernel)
  · exact mt (told "queen" (by decide)).mpr (by decide +kernel)

def mutedRecord : Buffer := ⟨["const A = \x7b", "id: 'a',", "steps: [",
  "// ...CHARACTER_SPEAK('king', 'happy', 'Hi!'),", "...ENTER_FROM_LEFT('king'),", "],",
  "\x7d;"], []⟩

def mutedLocation : Location := ⟨"a", 1, ⟨0, 7, 0⟩, some ⟨2, 6, 0⟩⟩

/-- A call in a comment is taken for one, though the record has no speech. -/
theorem hasDialogue_ofComment : locate mutedRecord "a" = .ok (some mutedLocation) ∧
    (readRecord mutedRecord mutedLocation).toOption.isSome = true ∧
    hasDialogue mutedRecord mutedLocation.record "king" = .ok true ∧
    ∃ elements, stepElements mutedRecord mutedLocation = .ok elements ∧
      ¬ Speaks "king" elements := by
  have spoken : (mutedRecord.spanLines mutedLocation.record).any (speaksFor "king") = true := by
    decide +kernel
  refine ⟨by decide +kernel, by rw [readRecord_eq]; decide +kernel, ?_, ?_⟩
  · rw [hasDialogue_valid (by decide), spoken]
  have silent : (stepElements mutedRecord mutedLocation).toOption.map (fun elements =>
      speechWords.all fun word => (spreadArgs word elements).isEmpty) = some true := by
    rw [stepElements_eq]
    decide +kernel
  obtain ⟨elements, answer, silent⟩ := Option.map_eq_some_iff.mp silent
  refine ⟨elements, Except.ok_of_toOption answer, ?_⟩
  rintro ⟨word, speech, others, there⟩
  have mention := mem_spreadArgs.mpr there
  rw [List.isEmpty_iff.mp (List.all_eq_true.mp silent word speech)] at mention
  cases mention

end Records

end Stagecraft
