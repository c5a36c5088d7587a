import Mathlib.Data.List.Infix
import Mathlib.Data.List.TakeWhile
import Stagecraft.Fix.Column

/-!
Texts between apostrophes. They are read as they were before their escapes. A reader of a field that
starts somewhere within such a text can only take its closing mark for an opening one: every other
apostrophe there stands behind a backslash.
-/

namespace Stagecraft

variable {text rest all more lead : List Char} {key value : String}

theorem quotedBody?_escaped :
    quotedBody? (text.flatMap escapeQuote ++ '\'' :: rest) =
      some (text.flatMap escapeQuote, rest) := by
  induction text with
  | nil => rfl
  | cons c text ih =>
    rw [List.flatMap_cons, List.append_assoc]
    by_cases slash : c = '\\'
    · subst slash
      simp [escapeQuote, quotedBody?, ih]
    · by_cases apostrophe : c = '\''
      · subst apostrophe
        simp [escapeQuote, quotedBody?, ih]
      · have single : escapeQuote c = [c] := by simp [escapeQuote, slash, apostrophe]
        rw [single, List.singleton_append, quotedBody?, ih]
        · rfl
        all_goals simp [slash, apostrophe]

/-- A text between apostrophes is read as it was before its escapes. -/
theorem readQuoted?_quoteChars (text : String) :
    readQuoted? (quoteChars text.toList ++ rest) = some (text, rest) := by
  have body : quotedBody? (text.toList.flatMap escapeQuote ++ '\'' :: rest) =
      some (text.toList.flatMap escapeQuote, rest) := quotedBody?_escaped
  simp [quoteChars, readQuoted?, body, dropEscapes_flatMap_escapeQuote]

theorem getLast?_of_escaped {front back : List Char}
    (split : text.flatMap escapeQuote = front ++ '\'' :: back) : front.getLast? = some '\\' := by
  have longer {c : Char} {front : List Char} (ends : front.getLast? = some '\\') :
      (c :: front).getLast? = some '\\' := by
    rw [List.getLast?_cons, ends]
    rfl
  induction text generalizing front with
  | nil => simp at split
  | cons c text ih =>
    rw [List.flatMap_cons] at split
    by_cases marked : c = '\\' ∨ c = '\''
    · have double : escapeQuote c = ['\\', c] := by rcases marked with rfl | rfl <;> rfl
      rw [double] at split
      cases front with
      | nil => simp at split
      | cons d front =>
        cases front with
        | nil =>
          obtain ⟨rfl, -⟩ := List.cons.inj split
          rfl
        | cons e front =>
          simp only [List.cons_append, List.cons.injEq, List.nil_append] at split
          exact longer (longer (ih split.2.2))
    · have single : escapeQuote c = [c] := by simpa [escapeQuote] using marked
      rw [single] at split
      cases front with
      | nil =>
        obtain ⟨rfl, -⟩ := List.cons.inj split
        exact absurd (.inr rfl) marked
      | cons d front =>
        simp only [List.cons_append, List.cons.injEq, List.nil_append] at split
        exact longer (ih split.2)

/-- What is left of a text between apostrophes from somewhere within it, and `rest` behind its
closing mark. -/
def Within (rest all : List Char) : Prop :=
  ∃ (text left : List Char), left <:+ text.flatMap escapeQuote ∧ all = left ++ '\'' :: rest

/-- Without an apostrophe nothing leads out of the text. -/
theorem Within.drop (within : Within rest (lead ++ more)) (free : '\'' ∉ lead) :
    Within rest more := by
  obtain ⟨text, left, inside, same⟩ := within
  rcases List.append_eq_append_iff.mp same with ⟨gap, rfl, rfl⟩ | ⟨gap, rfl, ends⟩
  · exact ⟨text, gap, (List.suffix_append lead gap).trans inside, rfl⟩
  · cases gap with
    | nil => exact ⟨[], [], List.suffix_rfl, ends.symm⟩
    | cons c gap =>
      obtain ⟨rfl, -⟩ := List.cons.inj ends
      exact absurd (by simp) free

/-- An apostrophe that stands behind something else than a backslash is the closing mark. -/
theorem Within.closes (within : Within rest (lead ++ '\'' :: more)) (filled : lead ≠ [])
    (plain : ∀ c ∈ lead, c ≠ '\'' ∧ c ≠ '\\') : more = rest := by
  have free : '\'' ∉ lead := fun member => (plain _ member).1 rfl
  obtain ⟨text, left, ⟨front, whole⟩, same⟩ := within
  rcases List.append_eq_append_iff.mp same with ⟨gap, rfl, ends⟩ | ⟨gap, rfl, ends⟩
  · cases gap with
    | nil => exact (List.cons.inj ends).2
    | cons c gap =>
      obtain ⟨rfl, -⟩ := List.cons.inj ends
      have split : text.flatMap escapeQuote = (front ++ lead) ++ '\'' :: gap := by
        rw [← whole, List.append_assoc]
      have slash := getLast?_of_escaped split
      rw [List.getLast?_append_of_ne_nil front filled] at slash
      exact absurd rfl (plain _ (List.mem_of_getLast? slash)).2
  · cases gap with
    | nil => exact (List.cons.inj ends).2.symm
    | cons c gap =>
      obtain ⟨rfl, -⟩ := List.cons.inj ends
      exact absurd (by simp) free

theorem Within.skipBlanks (within : Within rest all) : Within rest (skipBlanks all) := by
  rw [← takeWhile_append_skipBlanks all] at within
  apply within.drop
  intro member
  have blank := List.mem_takeWhile_imp member
  cases blank

theorem Within.after? (within : Within rest all) (found : after? lead all = some more)
    (free : '\'' ∉ lead) : Within rest more := by
  rw [eq_append_of_after? found] at within
  exact within.drop free

/-- Neither an apostrophe nor a backslash. -/
def isPlain (c : Char) : Bool := c != '\'' && c != '\\'

theorem ne_of_isPlain {text : List Char} (plain : text.all isPlain = true) :
    ∀ c ∈ text, c ≠ '\'' ∧ c ≠ '\\' := by
  intro c member
  have here := List.all_eq_true.mp plain c member
  simpa [isPlain] using here

/-- A field read from within a text is made of what follows the closing mark. -/
theorem Within.readField? (within : Within rest all) (filled : key.toList ≠ [])
    (plain : key.toList.all isPlain = true)
    (read : Speech.readField? key all = some (value, more)) :
    ∃ body, quotedBody? rest = some (body, more) := by
  obtain ⟨behind, found, quoted⟩ := Option.bind_eq_some_iff.mp read
  have blanks : ∀ c ∈ behind.takeWhile isBlank, c ≠ '\'' ∧ c ≠ '\\' := by
    intro c member
    have blank := List.mem_takeWhile_imp member
    constructor <;> rintro rfl <;> cases blank
  have whole : all = (key.toList ++ behind.takeWhile isBlank) ++ Stagecraft.skipBlanks behind := by
    rw [List.append_assoc, takeWhile_append_skipBlanks]
    exact eq_append_of_after? found
  rw [readQuoted?.eq_def] at quoted
  split at quoted
  · next opened text same =>
    obtain ⟨⟨body, after⟩, closed, pair⟩ := Option.map_eq_some_iff.mp quoted
    cases pair
    rw [whole, same] at within
    have ends := within.closes (by simp [filled]) fun c member =>
      (List.mem_append.mp member).elim (ne_of_isPlain plain c) (blanks c)
    exact ⟨body, ends ▸ closed⟩
  · cases quoted

theorem quotedBody?_plain {gap : List Char} (plain : gap.all isPlain = true) :
    quotedBody? (gap ++ '\'' :: rest) = some (gap, rest) := by
  induction gap with
  | nil => rfl
  | cons c gap ih =>
    have here := ne_of_isPlain plain c List.mem_cons_self
    rw [List.all_cons, Bool.and_eq_true] at plain
    rw [List.cons_append, quotedBody?, ih plain.2]
    · rfl
    all_goals simp [here.1, here.2]

/-- Between two texts stands nothing that could be taken for one. -/
theorem Within.next {gap : List Char} (within : Within (gap ++ (quoteChars text ++ rest)) all)
    (plain : gap.all isPlain = true) (filled : key.toList ≠ [])
    (named : key.toList.all isPlain = true)
    (read : Speech.readField? key all = some (value, more)) : Within rest more := by
  obtain ⟨body, closed⟩ := within.readField? filled named read
  have same : quoteChars text ++ rest = '\'' :: (text.flatMap escapeQuote ++ '\'' :: rest) := by
    simp [quoteChars]
  rw [same, quotedBody?_plain plain] at closed
  cases closed
  exact ⟨text, _, List.suffix_rfl, rfl⟩

end Stagecraft
