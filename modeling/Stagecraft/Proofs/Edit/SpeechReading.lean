import Stagecraft.Proofs.Edit.SpeechTokens
import Stagecraft.Proofs.Literal.Grammar

/-!
A line of speech in brackets, read as a literal. It is read as the call that was written when no
field goes over a line feed. A field that does has no closing apostrophe on its line, and the text is
refused at the opening one.
-/

namespace Stagecraft

variable {speech : Speech} {indent : String} {text rest : List Char} {stop : Nat}

/-- The text is cut into tokens as far as an apostrophe that opens no text. -/
def StopsAtQuote (stop : Nat) (text : List Char) : Prop :=
  ∃ offset, tokensUpTo stop text = .error (.malformed ⟨.character '\''.toNat, offset⟩)

theorem textBody?_of_feed (broken : '\n' ∈ text) :
    textBody? '\'' (text.flatMap escapeQuote ++ rest) = none := by
  induction text with
  | nil => cases broken
  | cons c text ih =>
    by_cases marked : c = '\\' ∨ c = '\''
    · have twice : escapeQuote c = ['\\', c] := by
        rw [escapeQuote, if_pos (by simpa using marked)]
      have behind : '\n' ∈ text := by
        rcases List.mem_cons.mp broken with rfl | behind
        · exact absurd marked (by decide)
        · exact behind
      simp only [List.flatMap_cons, twice, List.cons_append, List.nil_append]
      rw [textBody?, ih behind]
      rfl
    · obtain ⟨slash, apostrophe⟩ := not_or.mp marked
      rw [List.flatMap_cons, escapeQuote, if_neg (by simp [slash, apostrophe]),
        List.singleton_append, List.cons_append, textBody?, if_neg apostrophe]
      · split
        · rfl
        · next feed =>
          have other : c ≠ '\n' := fun same => feed ⟨same, by decide⟩
          rw [ih (List.mem_of_ne_of_mem other.symm broken)]
          rfl
      all_goals simp [slash]

theorem nextPiece?_quoteChars_of_feed (broken : '\n' ∈ text) :
    nextPiece? (quoteChars text ++ rest) = none := by
  rw [quoteChars_append, nextPiece?_apostrophe, textBody?_of_feed broken]
  rfl

theorem tokensUpTo_of_none {c : Char} (none : nextPiece? (c :: text) = none) :
    tokensUpTo stop (c :: text) =
      .error (.malformed ⟨.character ((codes (c :: text)).headD 0), stop - codeCount (c :: text)⟩) := by
  rw [tokensUpTo]
  split
  · rfl
  · next found =>
    rw [none] at found
    cases found

theorem tokensUpTo_skipBlanks : tokensUpTo stop (skipBlanks text) = tokensUpTo stop text := by
  cases text with
  | nil => rfl
  | cons c tail =>
    by_cases blank : isBlank c
    · rw [tokensUpTo_of_gap (nextPiece?_of_blank blank), skipBlanks,
        List.dropWhile_cons_of_pos blank, skipBlanks]
    · rw [skipBlanks, List.dropWhile_cons_of_neg blank]

namespace StopsAtQuote

theorem token {lexeme : Lexeme} (next : nextPiece? text = some (.token lexeme, rest))
    (stops : StopsAtQuote stop rest) : StopsAtQuote stop text := by
  obtain ⟨offset, cut⟩ := stops
  exact ⟨offset, by rw [tokensUpTo_of_token next, cut]; rfl⟩

theorem blanks {blanks : List Char} (blank : ∀ c ∈ blanks, isBlank c) (stops : StopsAtQuote stop rest) :
    StopsAtQuote stop (blanks ++ rest) := by
  rwa [StopsAtQuote, ← tokensUpTo_skipBlanks, skipBlanks_append blank, tokensUpTo_skipBlanks]

theorem mark {mark : Char} (known : mark ∈ ['(', ')', '[', ']', ','])
    (stops : StopsAtQuote stop rest) : StopsAtQuote stop (mark :: rest) :=
  .token (nextPiece?_mark known) stops

/-- A quoted field is passed over, or the text stops at it. -/
theorem quoteChars (behind : '\n' ∉ text → StopsAtQuote stop rest) :
    StopsAtQuote stop (quoteChars text ++ rest) := by
  by_cases broken : '\n' ∈ text
  · have none : nextPiece? (Stagecraft.quoteChars text ++ rest) = .none :=
      nextPiece?_quoteChars_of_feed broken
    have stopped := @tokensUpTo_of_none _ stop _ none
    rw [codes_cons (by decide), List.headD_cons] at stopped
    exact ⟨_, stopped⟩
  · exact .token (nextPiece?_quoteChars broken) (behind broken)

/-- The first field with a line feed stops the line. -/
theorem speakLine (blank : IsIndent indent) (broken : ¬ speech.OneLine) :
    StopsAtQuote stop ((speakLine speech indent).toList ++ rest) := by
  have comma {text : List Char} (stops : StopsAtQuote stop text) :
      StopsAtQuote stop (',' :: ([' '] ++ text)) := .mark (by simp) (.blanks isBlank_space stops)
  rw [speakLine_append]
  refine .blanks blank (.token (nextPiece?.eq_4 _) (.token nextPiece?_speakDirective ?_))
  refine .mark (by simp) (.quoteChars fun character => comma ?_)
  refine .quoteChars fun emoji => comma ?_
  exact .quoteChars fun said => absurd ⟨character, emoji, said⟩ broken

end StopsAtQuote

theorem reads_bracketed (speech : Speech) :
    Reads (.value nestingRoom) (.punct '[' :: (speech.lexemes ++ [.punct ']']))
      (.list [speech.call]) [] := by
  have room : roomInside? 3 nestingRoom = some 991 := by decide
  have inside : roomInside? 2 991 = some 989 := by decide
  exact .array room (.nextItem rfl (reads_call speech inside) .noItem)

/-- A line of speech in brackets is read as its call, with the fields as they were, unless one of them
holds a line feed; then it is refused. A quoted text without its marks and its escapes is the text. -/
theorem readLiteral_speakLine (blank : IsIndent indent) :
    (speech.OneLine →
      readLiteral ("[" ++ speakLine speech indent ++ "]") = .ok (.list [speech.call])) ∧
    (¬ speech.OneLine → ∃ offset, readLiteral ("[" ++ speakLine speech indent ++ "]") =
      .error (.malformed ⟨.character '\''.toNat, offset⟩)) ∧
    ∀ text, ∃ body, (quote text).toList = '\'' :: body ++ ['\''] ∧
      String.ofList (dropEscapes body) = text := by
  have line : ("[" ++ speakLine speech indent ++ "]").toList =
      '[' :: ((speakLine speech indent).toList ++ [']']) := by
    simp [String.toList_append]
  refine ⟨?_, ?_, ?_⟩
  · intro whole
    have closing : Lexes [']'] [.punct ']'] := lexes_mark (by simp) .nil
    have lexed : Lexes ('[' :: ((speakLine speech indent).toList ++ [']']))
        (.punct '[' :: (speech.lexemes ++ [.punct ']'])) :=
      lexes_mark (by simp) (lexes_speakLine blank whole closing)
    rw [← line] at lexed
    exact readLiteral_iff.mpr ⟨_, _, lexed, reads_bracketed speech, rfl⟩
  · intro broken
    have stops : StopsAtQuote (codeCount ("[" ++ speakLine speech indent ++ "]").toList)
        ("[" ++ speakLine speech indent ++ "]").toList := by
      rw [line]
      exact .mark (by simp) (.speakLine blank broken)
    obtain ⟨offset, cut⟩ := stops
    exact ⟨offset, by rw [readLiteral, tokenize, cut]; rfl⟩
  · intro text
    refine ⟨text.toList.flatMap escapeQuote, by rw [quote, String.toList_ofList, quoteChars], ?_⟩
    rw [dropEscapes_flatMap_escapeQuote, String.ofList_toList]

theorem readLiteral_speakLine_farewell :
    IsIndent "  " ∧
    readLiteral "[  ...CHARACTER_SPEAK('king', 'wave', 'It\\'s \\\\ over.'),]" =
      .ok (.list [.spread (.call "CHARACTER_SPEAK"
        [.str "king", .str "wave", .str "It's \\ over."])]) ∧
    ∃ offset, readLiteral "[  ...CHARACTER_SPEAK('king', 'wave', 'It is\nover.'),]" =
      .error (.malformed ⟨.character 39, offset⟩) := by
  have blank : IsIndent "  " := List.all_eq_true.mp (by decide)
  have whole : (Speech.mk "king" "wave" "It's \\ over.").OneLine := by
    refine ⟨?_, ?_, ?_⟩ <;> decide
  have broken : ¬ (Speech.mk "king" "wave" "It is\nover.").OneLine := fun whole =>
    absurd whole.2.2 (by decide)
  have line : "[" ++ speakLine ⟨"king", "wave", "It's \\ over."⟩ "  " ++ "]" =
      "[  ...CHARACTER_SPEAK('king', 'wave', 'It\\'s \\\\ over.'),]" := by decide +kernel
  have line' : "[" ++ speakLine ⟨"king", "wave", "It is\nover."⟩ "  " ++ "]" =
      "[  ...CHARACTER_SPEAK('king', 'wave', 'It is\nover.'),]" := by decide +kernel
  have read := (readLiteral_speakLine blank).1 whole
  have refused := (readLiteral_speakLine blank).2.1 broken
  rw [line] at read
  rw [line'] at refused
  exact ⟨blank, read, refused⟩

end Stagecraft
