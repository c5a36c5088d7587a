import Stagecraft.Proofs.Edit.SpeakLine
import Stagecraft.Proofs.Literal.Quoted
import Stagecraft.Proofs.Record.Layout

/-!
The lines that go in with speech, as elements of a list of steps: each line of speech is one call of
the speaking directive with its comma, with the three fields as they were before they were quoted,
and the comment above them is none.
-/

namespace Stagecraft

variable {speech : Speech} {speeches : List Speech} {indent : String} {text rest : List Char}
  {all more : List Lexeme} {room inside : Nat}

/-- The fields hold no line feed. -/
def Speech.OneLine (speech : Speech) : Prop :=
  '\n' ∉ speech.character.toList ∧ '\n' ∉ speech.emoji.toList ∧ '\n' ∉ speech.text.toList

/-- The element that a line of speech is read as. -/
def Speech.call (speech : Speech) : Value :=
  .spread (.call speakDirective [.str speech.character, .str speech.emoji, .str speech.text])

/-- The steps of a speech: it is said, and then its character stands idle. -/
def Speech.steps (speech : Speech) : List Step :=
  (Directive.speechSteps speech.character speech.emoji speech.text).map fun step =>
    { step with directive := some speakDirective }

theorem readElement_call (speech : Speech) :
    speech.call.readElement = .ok ⟨speech.steps, []⟩ := rfl

def Speech.lexemes (speech : Speech) : List Lexeme :=
  [.ellipsis, .name speakDirective, .punct '(', .str speech.character, .punct ',',
    .str speech.emoji, .punct ',', .str speech.text, .punct ')', .punct ',']

section Lexing

theorem lexes_blanks {blanks : List Char} (blank : ∀ c ∈ blanks, isBlank c)
    (lexed : Lexes rest all) : Lexes (blanks ++ rest) all := by
  rw [← Lexes.skipBlanks_iff, skipBlanks_append blank, Lexes.skipBlanks_iff]
  exact lexed

theorem lexes_mark {mark : Char} (known : mark ∈ ['(', ')', '[', ']', ','])
    (lexed : Lexes rest all) :
    Lexes (mark :: rest) (.punct mark :: all) :=
  .token (nextPiece?_mark known) lexed

theorem lexes_quoteChars (whole : '\n' ∉ text) (lexed : Lexes rest all) :
    Lexes (quoteChars text ++ rest) (.str (String.ofList text) :: all) :=
  .token (nextPiece?_quoteChars whole) lexed

theorem nextPiece?_speakDirective :
    nextPiece? (speakDirective.toList ++ '(' :: rest) =
      some (.token (.name speakDirective), '(' :: rest) := by
  have letters : speakDirective.toList = 'C' :: "HARACTER_SPEAK".toList := by decide
  rw [letters, List.cons_append, nextPiece?.eq_5 _ _ (by simp) (by simp) (by simp),
    if_neg (by decide), Numeral.read?_of_head (by decide) (by decide) (by decide)]
  rfl

/-- A line of speech, cut where its tokens start. -/
theorem speakLine_append (speech : Speech) (indent : String) (rest : List Char) :
    (speakLine speech indent).toList ++ rest = indent.toList ++
      ('.' :: '.' :: '.' :: (speakDirective.toList ++ '(' ::
        (quoteChars speech.character.toList ++ ',' :: ([' '] ++
          (quoteChars speech.emoji.toList ++ ',' :: ([' '] ++
            (quoteChars speech.text.toList ++ ')' :: ',' :: rest))))))) := by
  rw [speakLine_eq, String.toList_append, toList_speakLine]
  simp [speakDirective]

theorem isBlank_space : ∀ c ∈ [' '], isBlank c := List.all_eq_true.mp (by decide)

theorem lexes_speakLine (blank : IsIndent indent) (whole : speech.OneLine)
    (lexed : Lexes rest all) :
    Lexes ((speakLine speech indent).toList ++ rest) (speech.lexemes ++ all) := by
  obtain ⟨character, emoji, said⟩ := whole
  have comma {text : List Char} {others : List Lexeme} (next : Lexes text others) :
      Lexes (',' :: text) (.punct ',' :: others) := lexes_mark (by simp) next
  have ending : Lexes (')' :: ',' :: rest) (.punct ')' :: .punct ',' :: all) :=
    lexes_mark (by simp) (comma lexed)
  have third := lexes_blanks isBlank_space (lexes_quoteChars said ending)
  have second := lexes_blanks isBlank_space (lexes_quoteChars emoji (comma third))
  have first := lexes_quoteChars character (comma second)
  rw [speakLine_append]
  apply lexes_blanks blank
  rw [String.ofList_toList, String.ofList_toList, String.ofList_toList] at first
  exact .token (nextPiece?.eq_4 _) (.token nextPiece?_speakDirective (lexes_mark (by simp) first))

theorem lexes_comment (blank : IsIndent indent) (lexed : Lexes rest all) :
    Lexes ((indent ++ dialogueComment).toList ++ '\n' :: rest) all := by
  have slashes : dialogueComment.toList = '/' :: '/' :: (dialogueComment.toList.drop 2) := by decide
  have free : ∀ c ∈ dialogueComment.toList.drop 2, (c != '\n') = true := 
    List.all_eq_true.mp (by decide)
  have passed : (dialogueComment.toList.drop 2 ++ '\n' :: rest).dropWhile (· != '\n') =
      '\n' :: rest := by
    rw [List.dropWhile_append_of_pos free]
    rfl
  have feed : ∀ c ∈ ['\n'], isBlank c := List.all_eq_true.mp (by decide)
  have next : nextPiece? (dialogueComment.toList ++ '\n' :: rest) = some (.gap, '\n' :: rest) := by
    rw [slashes, List.cons_append, List.cons_append, nextPiece?.eq_2, passed]
  rw [String.toList_append, List.append_assoc]
  exact lexes_blanks blank (.gap next (lexes_blanks feed lexed))

end Lexing

/-- Lines of speech that go in at one place, below a comment or without one. -/
structure Insertion where
  indent : String
  commented : Bool
  speeches : List Speech

namespace Insertion

variable {insertion : Insertion}

def lines (insertion : Insertion) : List String :=
  (if insertion.commented then [insertion.indent ++ dialogueComment] else []) ++
    insertion.speeches.map (speakLine · insertion.indent)

theorem mem_lines {line : String} (member : line ∈ insertion.lines) :
    line = insertion.indent ++ dialogueComment ∨
      ∃ speech ∈ insertion.speeches, line = speakLine speech insertion.indent := by
  rcases List.mem_append.mp member with comment | spoken
  · split at comment
    · exact .inl (List.mem_singleton.mp comment)
    · cases comment
  · obtain ⟨speech, there, same⟩ := List.mem_map.mp spoken
    exact .inr ⟨speech, there, same.symm⟩

/-- The lines are indented by blanks, and no speech goes over a line feed. -/
structure Sound (insertion : Insertion) : Prop where
  blank : IsIndent insertion.indent
  whole : ∀ speech ∈ insertion.speeches, speech.OneLine

theorem Sound.lexes (sound : insertion.Sound) :
    Lexes (fed insertion.lines) (insertion.speeches.flatMap Speech.lexemes) := by
  have spoken : ∀ speeches : List Speech, (∀ speech ∈ speeches, speech.OneLine) →
      Lexes (fed (speeches.map (speakLine · insertion.indent)))
        (speeches.flatMap Speech.lexemes) := by
    intro speeches
    induction speeches with
    | nil => exact fun _ => .nil
    | cons speech speeches ih =>
      intro whole
      have rest := ih fun other member => whole other (List.mem_cons_of_mem _ member)
      have feed : ∀ c ∈ ['\n'], isBlank c := List.all_eq_true.mp (by decide)
      have first := lexes_speakLine sound.blank (whole speech (by simp)) (lexes_blanks feed rest)
      simpa [fed] using first
  rw [lines, fed_append]
  split
  · have below := lexes_comment sound.blank (spoken _ sound.whole)
    simpa [fed] using below
  · exact spoken _ sound.whole

end Insertion

section Reading

theorem reads_call (speech : Speech) (fits : roomInside? 2 room = some inside) :
    Reads (.item room) (speech.lexemes ++ more) speech.call (.punct ',' :: more) := by
  have name : wordValue? speakDirective = none := by decide
  have third : Reads (.items inside ')') (.str speech.text :: .punct ')' :: .punct ',' :: more)
      [.str speech.text] (.punct ',' :: more) :=
    .lastItem rfl (by decide) (.plainItem (.str _))
  have second := Reads.nextItem rfl (.plainItem (.str speech.emoji)) third
  have first := Reads.nextItem rfl (.plainItem (.str speech.character)) second
  exact .spreadItem (.call name fits first)

theorem wholeItems?_calls {tokens : List Token} (fits : roomInside? 2 room = some inside)
    (same : lexemesOf tokens = speeches.flatMap Speech.lexemes) :
    wholeItems? room tokens = some (speeches.map Speech.call) := by
  induction speeches generalizing tokens with
  | nil =>
    obtain rfl := List.map_eq_nil_iff.mp same
    rw [wholeItems?]
    rfl
  | cons speech speeches ih =>
    have item : Reads (.item room) (speech.lexemes ++ speeches.flatMap Speech.lexemes) speech.call
        (.punct ',' :: speeches.flatMap Speech.lexemes) := reads_call speech fits
    rw [← List.flatMap_cons, ← same] at item
    obtain ⟨next, behind, whole⟩ := wholeItems?_of_reads item
    rw [whole, ih behind]
    rfl

theorem Insertion.Sound.elements {insertion : Insertion} (sound : insertion.Sound) :
    wholeElements? insertion.lines = some (insertion.speeches.map Speech.call) := by
  obtain ⟨tokens, cut, same⟩ := sound.lexes.tokens 0
  have fits : roomInside? 2 stepRoom = some 987 := rfl
  rw [wholeElements?, cut]
  exact wholeItems?_calls fits same

end Reading

end Stagecraft
