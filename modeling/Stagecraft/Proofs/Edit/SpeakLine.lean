import Stagecraft.Edit.Speech
import Stagecraft.Proofs.Record.Extent
import Stagecraft.Proofs.Text.Search

/-!
The lines that go in with a speech. Such a line spreads the speaking directive and nothing else, it
ends with a comma, and as long as the brackets in its fields are balanced it is quiet. Its character
is found in it again when the quoted name is the name itself.
-/

namespace Stagecraft

variable {speech : Speech} {indent line id module : String} {blanks : List Char} {marks : Brackets}

def IsIndent (indent : String) : Prop := ∀ c ∈ indent.toList, isBlank c

theorem isIndent_indentOf (line : String) : IsIndent (indentOf line) := by
  intro c member
  rw [indentOf, String.toList_ofList] at member
  exact List.mem_takeWhile_imp member

theorem isIndent_append_blanks {indent : String} (blank : IsIndent indent) :
    IsIndent (indent ++ "  ") := by
  intro c member
  rw [String.toList_append, List.mem_append] at member
  rcases member with old | new
  · exact blank c old
  · have two : c = ' ' := by simpa using new
    subst two
    decide

theorem stepIndent_isIndent {buffer : Buffer} {steps : Span} {index : Nat}
    (answer : stepIndent buffer steps index = .ok indent) : IsIndent indent := by
  simp only [stepIndent, bind, Except.bind] at answer
  split at answer
  · cases answer
  · simp only [pure, Except.pure, Except.ok.injEq] at answer
    subst answer
    split
    · exact isIndent_indentOf _
    · exact isIndent_append_blanks (isIndent_indentOf _)

theorem opensRecord_of_getLast? {c : Char} (last : line.toList.getLast? = some c)
    (ink : isBlank c = false) (other : c ≠ '\x7b') : opensRecord line = false := by
  obtain ⟨front, split⟩ := List.getLast?_eq_some_iff.mp last
  have kept : skipBlanks (front ++ [c]) = skipBlanks front ++ [c] := by
    by_cases white : ∀ d ∈ front, isBlank d
    · have gone : skipBlanks front = [] := List.dropWhile_eq_nil_iff.mpr white
      rw [skipBlanks_append white, gone]
      simp [skipBlanks, ink]
    · rw [skipBlanks, List.dropWhile_append]
      have some' : (front.dropWhile isBlank).isEmpty = false := by
        rw [List.isEmpty_eq_false_iff, ne_eq, List.dropWhile_eq_nil_iff]
        exact white
      simp only [some', Bool.false_eq_true, if_false]
      rfl
  have ends : (stripBlanks line.toList).reverse = c :: (skipBlanks front).reverse := by
    rw [stripBlanks, dropEndBlanks, List.reverse_reverse, split, kept, List.reverse_append]
    simp [ink]
  rw [opensRecord, ends]
  split
  · next before same => exact absurd (List.cons.inj same).1 other
  · rfl

theorem lineDelta_square (line : String) :
    lineDelta .square line = (line.toList.count '[' : Int) - line.toList.count ']' := by
  rw [lineDelta, Brackets.square, ← occurrences_singleton, ← occurrences_singleton]
  rfl

theorem lineDelta_curly (line : String) :
    lineDelta .curly line = (line.toList.count '\x7b' : Int) - line.toList.count '\x7d' := by
  rw [lineDelta, Brackets.curly, ← occurrences_singleton, ← occurrences_singleton]
  rfl

theorem count_indent {c : Char} (blank : IsIndent indent) (ink : isBlank c = false) :
    indent.toList.count c = 0 := by
  rw [List.count_eq_zero]
  intro member
  rw [blank c member] at ink
  cases ink

theorem lineDelta_indent_square (blank : IsIndent indent) :
    lineDelta .square (indent ++ line) = lineDelta .square line := by
  rw [lineDelta_square, lineDelta_square, String.toList_append, List.count_append,
    List.count_append, count_indent blank (by decide), count_indent blank (by decide)]
  omega

theorem lineDelta_indent_curly (blank : IsIndent indent) :
    lineDelta .curly (indent ++ line) = lineDelta .curly line := by
  rw [lineDelta_curly, lineDelta_curly, String.toList_append, List.count_append,
    List.count_append, count_indent blank (by decide), count_indent blank (by decide)]
  omega

theorem hasId_indent (blank : IsIndent indent) : hasId id (indent ++ line) = hasId id line := by
  rw [hasId, hasId, String.toList_append]
  congr 1
  apply search_blanks_append blank
  · intro before c rest white
    have other : 'i' ≠ c := (ne_of_isBlank white (by decide)).symm
    have none : afterIdKey? before (c :: rest) = none := by
      rw [afterIdKey?]
      split
      · rfl
      · rw [afterWord?, show "id:".toList = ['i', 'd', ':'] from rfl, after?_head_ne other]
        rfl
    simp [none]
  · intro c rest white
    have same : afterIdKey? (some c) rest = afterIdKey? none rest := by
      simp [afterIdKey?, isWord_eq_false_of_isBlank white]
    simp only [same]

theorem namesModule_indent (blank : IsIndent indent) :
    namesModule module (indent ++ line) = namesModule module line := by
  rw [namesModule, namesModule, String.toList_append]
  congr 1
  apply searchFor_blanks_append blank
  intro c rest white
  have other : 'f' ≠ c := (ne_of_isBlank white (by decide)).symm
  have none : afterFrom? (c :: rest) = none := by
    rw [afterFrom?, afterWord?, show "from".toList = ['f', 'r', 'o', 'm'] from rfl,
      after?_head_ne other]
  simp [none]

theorem spreadDirective?_indent (blank : IsIndent indent) :
    spreadDirective? (indent ++ line) = spreadDirective? line := by
  rw [spreadDirective?, spreadDirective?, String.toList_append, skipBlanks_append blank]

theorem opensSteps_indent (blank : IsIndent indent) :
    opensSteps (indent ++ line) = opensSteps line := by
  rw [opensSteps, opensSteps, String.toList_append, skipBlanks_append blank]

theorem startsImport_indent (blank : IsIndent indent) (other : startsImport line = false) :
    startsImport (indent ++ line) = false := by
  rw [startsImport, String.toList_append]
  cases split : indent.toList with
  | nil => exact other
  | cons c rest =>
    have apart : 'i' ≠ c := (ne_of_isBlank (blank c (by simp [split])) (by decide)).symm
    rw [List.cons_append, afterWord?, show "import".toList = 'i' :: "mport".toList from rfl,
      after?_head_ne apart]

/-- What stands in front of the fields of a speech. -/
theorem speakLine_eq (speech : Speech) (indent : String) :
    speakLine speech indent = indent ++ speakLine speech "" := by
  simp [speakLine, String.append_assoc]

theorem toList_speakLine (speech : Speech) :
    (speakLine speech "").toList = "...CHARACTER_SPEAK(".toList ++
      (quoteChars speech.character.toList ++ ", ".toList ++ quoteChars speech.emoji.toList ++
        ", ".toList ++ quoteChars speech.text.toList ++ "),".toList) := by
  simp [speakLine, speakDirective, quote, String.toList_append]

theorem getLast?_speakLine (speech : Speech) (indent : String) :
    (speakLine speech indent).toList.getLast? = some ',' := by
  rw [speakLine_eq, String.toList_append, toList_speakLine, List.getLast?_append,
    List.getLast?_append, List.getLast?_append]
  rfl

theorem spreadDirective?_speakLine (blank : IsIndent indent) :
    spreadDirective? (speakLine speech indent) = some speakDirective := by
  rw [speakLine_eq, spreadDirective?_indent blank, spreadDirective?, toList_speakLine]
  rfl

theorem opensSteps_speakLine (blank : IsIndent indent) :
    opensSteps (speakLine speech indent) = false := by
  rw [speakLine_eq, opensSteps_indent blank, opensSteps, toList_speakLine]
  rfl

theorem startsImport_speakLine (blank : IsIndent indent) :
    startsImport (speakLine speech indent) = false := by
  rw [speakLine_eq]
  apply startsImport_indent blank
  rw [startsImport, toList_speakLine]
  rfl

theorem quiet_speakLine (blank : IsIndent indent)
    (square : lineDelta .square (speakLine speech "") = 0)
    (curly : lineDelta .curly (speakLine speech "") = 0) : Quiet (speakLine speech indent) where
  closed := opensRecord_of_getLast? (getLast?_speakLine speech indent) (by decide) (by decide)
  plain := opensSteps_speakLine blank
  square := by rw [speakLine_eq, lineDelta_indent_square blank, square]
  curly := by rw [speakLine_eq, lineDelta_indent_curly blank, curly]

theorem quiet_comment (blank : IsIndent indent) : Quiet (indent ++ dialogueComment) where
  closed := by
    apply opensRecord_of_getLast? (c := 'e') _ (by decide) (by decide)
    rw [String.toList_append, List.getLast?_append]
    rfl
  plain := by
    rw [opensSteps_indent blank]
    rfl
  square := by
    rw [lineDelta_indent_square blank, lineDelta_square]
    decide
  curly := by
    rw [lineDelta_indent_curly blank, lineDelta_curly]
    decide

theorem hasId_comment (blank : IsIndent indent) : hasId id (indent ++ dialogueComment) = false := by
  rw [hasId_indent blank]
  rfl

theorem namesModule_comment (blank : IsIndent indent) :
    namesModule module (indent ++ dialogueComment) = false := by
  rw [namesModule_indent blank]
  rfl

theorem spreadDirective?_comment (blank : IsIndent indent) :
    spreadDirective? (indent ++ dialogueComment) = none := by
  rw [spreadDirective?_indent blank]
  rfl

theorem startsImport_comment (blank : IsIndent indent) :
    startsImport (indent ++ dialogueComment) = false :=
  startsImport_indent blank rfl

/-- The line of a speech speaks for its character when the name needs no escape. -/
theorem speaksFor_speakLine (plain : ∀ c ∈ speech.character.toList, c ≠ '\'' ∧ c ≠ '\\') :
    speaksFor speech.character (speakLine speech indent) := by
  have name : quoteChars speech.character.toList = '\'' :: (speech.character.toList ++ ['\'']) := by
    have same : speech.character.toList.flatMap escapeQuote = speech.character.toList := by
      have each : ∀ text : List Char, (∀ c ∈ text, c ≠ '\'' ∧ c ≠ '\\') →
          text.flatMap escapeQuote = text := by
        intro text
        induction text with
        | nil => intro; rfl
        | cons c text ih =>
          intro free
          obtain ⟨apostrophe, slash⟩ := free c (by simp)
          rw [List.flatMap_cons, ih fun d member => free d (by simp [member]), escapeQuote,
            if_neg (by simp [apostrophe, slash]), List.singleton_append]
      exact each _ plain
    rw [quoteChars, same]
    rfl
  have line : (speakLine speech indent).toList = indent.toList ++ "...".toList ++
      (speakDirective.toList ++ ('(' :: '\'' :: (speech.character.toList ++ '\'' ::
        (", ".toList ++ quoteChars speech.emoji.toList ++ ", ".toList ++
          quoteChars speech.text.toList ++ "),".toList)))) := by
    rw [speakLine_eq, String.toList_append, toList_speakLine, name]
    simp [speakDirective]
  rw [speaksFor, line]
  apply searchFor_isSome
  have direct (rest : List Char) : (afterWord? speakDirective (speakDirective.toList ++ rest) <|>
      afterWord? "CHARACTER_EXCLAIM" (speakDirective.toList ++ rest)) = some rest := by
    rw [afterWord?, after?_append]
    rfl
  have open' (rest : List Char) : afterWord? "(" (skipBlanks ('(' :: rest)) = some rest := rfl
  have mark (rest : List Char) : skipBlanks ('\'' :: rest) = '\'' :: rest := rfl
  simp only [direct, open', mark, after?_append, Option.bind_eq_bind, Option.bind_some]
  rfl

end Stagecraft
