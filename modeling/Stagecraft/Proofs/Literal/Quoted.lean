import Stagecraft.Fix.Quote
import Stagecraft.Proofs.Literal.Lines

/-!
Texts between apostrophes, as inserted lines write them, and how they are cut into tokens: a text
on one line is read back as it was before its escapes.
-/

namespace Stagecraft

variable {text rest : List Char} {lexemes : List Lexeme}

theorem unescape_flatMap_escapeQuote (text : List Char) :
    unescape (text.flatMap escapeQuote) = text := by
  induction text with
  | nil => rfl
  | cons c text ih =>
    by_cases marked : c = '\\' ∨ c = '\''
    · rcases marked with rfl | rfl
      · rw [List.flatMap_cons, show escapeQuote '\\' = ['\\', '\\'] from rfl, List.cons_append,
          List.cons_append, List.nil_append, unescape, ih]
        · rfl
        · simp
      · rw [List.flatMap_cons, show escapeQuote '\'' = ['\\', '\''] from rfl, List.cons_append,
          List.cons_append, List.nil_append, unescape, ih]
        · rfl
        · simp
    · obtain ⟨slash, apostrophe⟩ := not_or.mp marked
      rw [List.flatMap_cons, escapeQuote, if_neg (by simp [slash, apostrophe]),
        List.singleton_append, unescape, ih]
      · simp [slash]
      · simp [slash]

theorem enclosed_flatMap_escapeQuote (whole : '\n' ∉ text) :
    Enclosed '\'' (text.flatMap escapeQuote) := by
  induction text with
  | nil => exact .nil
  | cons c text ih =>
    have inner := ih fun member => whole (List.mem_cons_of_mem _ member)
    by_cases marked : c = '\\' ∨ c = '\''
    · have twice : escapeQuote c = ['\\', c] := by
        rw [escapeQuote, if_pos (by simpa using marked)]
      rw [List.flatMap_cons, twice]
      exact .escape inner
    · obtain ⟨slash, apostrophe⟩ := not_or.mp marked
      have feed : c ≠ '\n' := fun same => whole (by simp [same])
      rw [List.flatMap_cons, escapeQuote, if_neg (by simp [slash, apostrophe])]
      exact .plain slash apostrophe (by simp [feed]) inner

theorem textBody?_flatMap_escapeQuote (whole : '\n' ∉ text) :
    textBody? '\'' (text.flatMap escapeQuote ++ '\'' :: rest) =
      some (text.flatMap escapeQuote, rest) :=
  textBody?_iff.mpr ⟨by decide, enclosed_flatMap_escapeQuote whole, rfl⟩

/-- An apostrophe opens a text. -/
theorem nextPiece?_apostrophe (text : List Char) :
    nextPiece? ('\'' :: text) = (textBody? '\'' text).map fun (body, after) =>
      (.token (.str (String.ofList (unescape body))), after) := by
  rw [nextPiece?.eq_5 _ _ (by simp) (by simp) (by simp), if_neg (by decide),
    Numeral.read?_of_head (by decide) (by decide) (by decide)]
  exact if_pos (by decide)

theorem quoteChars_append (text rest : List Char) :
    quoteChars text ++ rest = '\'' :: (text.flatMap escapeQuote ++ '\'' :: rest) := by
  simp [quoteChars]

/-- A text between apostrophes is one token. -/
theorem nextPiece?_quoteChars (whole : '\n' ∉ text) :
    nextPiece? (quoteChars text ++ rest) =
      some (.token (.str (String.ofList text)), rest) := by
  rw [quoteChars_append, nextPiece?_apostrophe, textBody?_flatMap_escapeQuote whole]
  simp only [Option.map_some, unescape_flatMap_escapeQuote]

/-- A mark is one token. -/
theorem nextPiece?_mark {mark : Char} (known : mark ∈ ['(', ')', '[', ']', ',']) :
    nextPiece? (mark :: rest) = some (.token (.punct mark), rest) := by
  have plain : isDecimalDigit mark = false ∧ mark ≠ '-' ∧ mark ≠ '.' ∧ mark ≠ '/' ∧
      isBlank mark = false ∧ isQuote mark = false ∧ (mark == backtick) = false ∧
      startsName mark = false ∧ isPunctMark mark = true := by
    simp only [List.mem_cons, List.not_mem_nil, or_false] at known
    rcases known with rfl | rfl | rfl | rfl | rfl <;> decide
  obtain ⟨digit, sign, point, slash, ink, quote, tick, letter, mark'⟩ := plain
  rw [nextPiece?.eq_5 _ _ (by simp [slash]) (by simp [slash]) (by simp [point]), if_neg (by simp [ink]),
    Numeral.read?_of_head digit sign point]
  simp only [quote, tick, letter, mark', Bool.or_self, Bool.false_eq_true, if_false, if_true]

end Stagecraft
