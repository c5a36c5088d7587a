import Stagecraft.Proofs.Text.Search

/-!
A file the way its language reads it, as far as comments and quotations go. A scan tells the names,
the marks and the quoted texts of the code from what stands in comments. What it finds in a text
that goes on is what it finds in the text, and then in the rest.
-/

namespace Stagecraft

/-- What stands in the code of a file. -/
inductive Sign where
  | name (letters : List Char)
  | mark (c : Char)
  | text (body : List Char)
  deriving DecidableEq, Repr

/-- The marks that open and close a quoted text. -/
inductive QuoteMark where
  | single
  | double
  | tick
  deriving DecidableEq, Repr

namespace QuoteMark

def char : QuoteMark → Char
  | single => '\''
  | double => '"'
  | tick => '\x60'

def ofChar? (c : Char) : Option QuoteMark := [single, double, tick].find? (·.char == c)

end QuoteMark

/-- How far a scan is: in the code, with the letters of a name so far or behind a slash; in a
comment up to the end of the line, or in one that ends behind a star and a slash; or in a quoted
text, with its body so far. -/
inductive ScanMode where
  | code (letters : List Char)
  | slash
  | line
  | block
  | star
  | quoted (quote : QuoteMark) (body : List Char)
  | escaped (quote : QuoteMark) (body : List Char)
  deriving DecidableEq, Repr

namespace ScanMode

/-- What is over as soon as the code goes on with something else. -/
def pending : ScanMode → List Sign
  | code [] => []
  | code letters => [.name letters]
  | slash => [.mark '/']
  | _ => []

/-- A character of the code that does not continue what is before it. -/
def begin (c : Char) : ScanMode × List Sign :=
  match QuoteMark.ofChar? c with
  | some quote => (quoted quote [], [])
  | none =>
    if c = '/' then (slash, [])
    else if continuesName c then (code [c], [])
    else (code [], if isBlank c then [] else [.mark c])

/-- The code before it is over when a character begins. -/
def beginAfter (mode : ScanMode) (c : Char) : ScanMode × List Sign :=
  ((begin c).1, mode.pending ++ (begin c).2)

def next (c : Char) : ScanMode → ScanMode × List Sign
  | code letters =>
    if continuesName c then (code (letters ++ [c]), []) else (code letters).beginAfter c
  | slash =>
    if c = '/' then (line, []) else if c = '*' then (block, []) else slash.beginAfter c
  | line => (if c = '\n' then code [] else line, [])
  | block => (if c = '*' then star else block, [])
  | star => (if c = '/' then code [] else if c = '*' then star else block, [])
  | quoted quote body =>
    if c = quote.char then (code [], [.text body])
    else (if c = '\\' then escaped quote body else quoted quote (body ++ [c]), [])
  | escaped quote body => (quoted quote (body ++ [c]), [])

/-- Where the scan is behind a text. -/
def after (mode : ScanMode) : List Char → ScanMode
  | [] => mode
  | c :: text => (mode.next c).1.after text

/-- What the scan finds in a text. -/
def signs (mode : ScanMode) : List Char → List Sign
  | [] => []
  | c :: text => (mode.next c).2 ++ (mode.next c).1.signs text

variable {mode : ScanMode} {text more blanks letters name : List Char} {c : Char}

theorem after_append (mode : ScanMode) (text more : List Char) :
    mode.after (text ++ more) = (mode.after text).after more := by
  induction text generalizing mode with
  | nil => rfl
  | cons c text ih => exact ih _

theorem signs_append (mode : ScanMode) (text more : List Char) :
    mode.signs (text ++ more) = mode.signs text ++ (mode.after text).signs more := by
  induction text generalizing mode with
  | nil => rfl
  | cons c text ih =>
    rw [List.cons_append, signs, signs, ih, List.append_assoc]
    rfl

section Names

theorem over_letters (letters : List Char) (named : ∀ c ∈ name, continuesName c) :
    (code letters).after name = code (letters ++ name) ∧ (code letters).signs name = [] := by
  induction name generalizing letters with
  | nil => exact ⟨by rw [List.append_nil]; rfl, rfl⟩
  | cons c name ih =>
    obtain ⟨first, others⟩ := List.forall_mem_cons.mp named
    have step : (code letters).next c = (code (letters ++ [c]), []) := if_pos first
    obtain ⟨ends, none⟩ := ih (letters ++ [c]) others
    rw [after, signs, step]
    exact ⟨by rw [ends, List.append_assoc]; rfl, none⟩

/-- A mark that is neither part of a name nor of a quotation or a comment. -/
structure IsPlainMark (c : Char) : Prop where
  unnamed : continuesName c = false
  inked : isBlank c = false
  unquoted : QuoteMark.ofChar? c = none
  other : c ≠ '/' ∧ c ≠ '*'

/-- The code is over when something else begins. -/
def InCode (mode : ScanMode) : Prop := (∃ letters, mode = code letters) ∨ mode = slash

theorem next_of_inCode (inside : mode.InCode) (unnamed : continuesName c = false)
    (other : c ≠ '/' ∧ c ≠ '*') : mode.next c = mode.beginAfter c := by
  rcases inside with ⟨letters, rfl⟩ | rfl
  · exact if_neg (by rw [unnamed]; exact Bool.false_ne_true)
  · rw [next, if_neg other.1, if_neg other.2]

theorem over_mark (inside : mode.InCode) (plain : IsPlainMark c) :
    mode.next c = (code [], mode.pending ++ [.mark c]) := by
  have here : begin c = (code [], [.mark c]) := by
    rw [begin, plain.unquoted]
    simp [plain.other.1, plain.unnamed, plain.inked]
  rw [next_of_inCode inside plain.unnamed plain.other, beginAfter, here]

theorem isPlainMark_comma : IsPlainMark ',' := ⟨by decide, by decide, by decide, by decide⟩

theorem isPlainMark_closing : IsPlainMark '\x7d' := ⟨by decide, by decide, by decide, by decide⟩

end Names

section Blanks

theorem quote_inked (quote : QuoteMark) : isBlank quote.char = false := by
  cases quote <;> decide

theorem ofChar?_of_blank (blank : isBlank c) : QuoteMark.ofChar? c = none := by
  apply List.find?_eq_none.mpr
  intro quote _
  rw [beq_iff_eq]
  exact (ne_of_isBlank blank (quote_inked quote)).symm

theorem over_blank (inside : mode.InCode) (blank : isBlank c) :
    mode.next c = (code [], mode.pending) := by
  have unnamed : continuesName c = false := by
    rw [continuesName, isWord_eq_false_of_isBlank blank, Bool.false_or, beq_eq_false_iff_ne]
    exact ne_of_isBlank blank (by decide)
  have other : c ≠ '/' ∧ c ≠ '*' :=
    ⟨ne_of_isBlank blank (by decide), ne_of_isBlank blank (by decide)⟩
  have here : begin c = (code [], []) := by
    rw [begin, ofChar?_of_blank blank]
    simp [other.1, unnamed, blank]
  rw [next_of_inCode inside unnamed other, beginAfter, here, List.append_nil]

/-- The scan is in the code, or in a comment that ends with a line of these blanks. -/
def ReadyFor (mode : ScanMode) (blanks : List Char) : Prop :=
  mode.InCode ∨ mode = line ∧ '\n' ∈ blanks

theorem inCode_code (letters : List Char) : (code letters).InCode := .inl ⟨letters, rfl⟩

theorem over_blanks_code (blank : ∀ c ∈ blanks, isBlank c) :
    (code []).after blanks = code [] ∧ (code []).signs blanks = [] := by
  induction blanks with
  | nil => exact ⟨rfl, rfl⟩
  | cons c blanks ih =>
    obtain ⟨first, others⟩ := List.forall_mem_cons.mp blank
    rw [after, signs, over_blank (inCode_code []) first]
    exact ih others

theorem over_blanks (blank : ∀ c ∈ blanks, isBlank c) (filled : blanks ≠ [])
    (ready : mode.ReadyFor blanks) :
    mode.after blanks = code [] ∧ mode.signs blanks = mode.pending := by
  induction blanks with
  | nil => exact absurd rfl filled
  | cons c blanks ih =>
    obtain ⟨first, others⟩ := List.forall_mem_cons.mp blank
    obtain ⟨ends, none⟩ := over_blanks_code others
    rw [after, signs]
    rcases ready with inside | ⟨rfl, feed⟩
    · rw [over_blank inside first]
      exact ⟨ends, by rw [none, List.append_nil]⟩
    · by_cases here : c = '\n'
      · rw [next, if_pos here]
        exact ⟨ends, none⟩
      · rw [next, if_neg here]
        have behind : '\n' ∈ blanks := (List.mem_cons.mp feed).resolve_left (Ne.symm here)
        exact ih others (List.ne_nil_of_mem behind) (.inr ⟨rfl, behind⟩)

/-- Blanks lead to the code only from the code, or from a comment that ends with a line. -/
theorem readyFor_of_after (blank : ∀ c ∈ blanks, isBlank c)
    (ends : mode.after blanks = code letters) : mode.ReadyFor blanks := by
  induction blanks generalizing mode with
  | nil => exact .inl (.inl ⟨letters, ends⟩)
  | cons c blanks ih =>
    obtain ⟨first, others⟩ := List.forall_mem_cons.mp blank
    have behind := ih others ends
    have star : c ≠ '*' := ne_of_isBlank first (by decide)
    have slash : c ≠ '/' := ne_of_isBlank first (by decide)
    cases mode with
    | code word => exact .inl (inCode_code word)
    | slash => exact .inl (.inr rfl)
    | line =>
      by_cases here : c = '\n'
      · exact .inr ⟨rfl, here ▸ List.mem_cons_self ..⟩
      · rw [next, if_neg here] at behind
        rcases behind with (⟨_, other⟩ | other) | ⟨-, feed⟩
        · cases other
        · cases other
        · exact .inr ⟨rfl, List.mem_cons_of_mem c feed⟩
    -- any other comment, and a quotation, goes on over a blank
    | block =>
      rw [next, if_neg star] at behind
      rcases behind with (⟨_, other⟩ | other) | ⟨other, -⟩ <;> cases other
    | star =>
      rw [next, if_neg slash, if_neg star] at behind
      rcases behind with (⟨_, other⟩ | other) | ⟨other, -⟩ <;> cases other
    | quoted quote body =>
      have open' : c ≠ quote.char := ne_of_isBlank first (quote_inked quote)
      have plain : c ≠ '\\' := ne_of_isBlank first (by decide)
      rw [next, if_neg open', if_neg plain] at behind
      rcases behind with (⟨_, other⟩ | other) | ⟨other, -⟩ <;> cases other
    | escaped quote body =>
      rcases behind with (⟨_, other⟩ | other) | ⟨other, -⟩ <;> cases other

/-- A brace behind blanks. -/
theorem signs_closing (blank : ∀ c ∈ blanks, isBlank c) (ready : mode.ReadyFor blanks)
    (text : List Char) : mode.signs (blanks ++ '\x7d' :: text) =
      mode.pending ++ .mark '\x7d' :: (code []).signs text := by
  by_cases none : blanks = []
  · subst none
    have inside : mode.InCode := ready.resolve_right fun ⟨_, feed⟩ => by cases feed
    rw [List.nil_append, signs, over_mark inside isPlainMark_closing, List.append_assoc]
    rfl
  · obtain ⟨ends, found⟩ := over_blanks blank none ready
    rw [signs_append, ends, found, signs, over_mark (inCode_code []) isPlainMark_closing]
    rfl

end Blanks

section Quotations

variable {quote : QuoteMark} {body : List Char}

/-- A text without its own mark and without escapes is read to its end. -/
theorem over_text (verbatim : ∀ c ∈ text, c ≠ quote.char ∧ c ≠ '\\') (more : List Char) :
    (quoted quote body).signs (text ++ quote.char :: more) =
      .text (body ++ text) :: (code []).signs more := by
  induction text generalizing body with
  | nil =>
    rw [List.nil_append, List.append_nil, signs, next, if_pos rfl]
    rfl
  | cons c text ih =>
    obtain ⟨⟨open', plain⟩, others⟩ := List.forall_mem_cons.mp verbatim
    rw [List.cons_append, signs, next, if_neg open', if_neg plain, ih others, List.append_assoc]
    rfl

end Quotations

section Comments

/-- Nothing is found in a comment, up to the end of its line. -/
theorem signs_lineComment (text : List Char) (free : '\n' ∉ text) (more : List Char) :
    (code []).signs ('/' :: '/' :: (text ++ '\n' :: more)) = (code []).signs more := by
  have inside : line.signs (text ++ '\n' :: more) = (code []).signs more := by
    induction text with
    | nil => rfl
    | cons c text ih =>
      obtain ⟨first, others⟩ := List.ne_and_not_mem_of_not_mem_cons free
      rw [List.cons_append, signs, next, if_neg first.symm]
      exact ih others
  exact inside

/-- Nor in one that ends with its first star. -/
theorem signs_blockComment (text : List Char) (free : '*' ∉ text) (more : List Char) :
    (code []).signs ('/' :: '*' :: (text ++ '*' :: '/' :: more)) = (code []).signs more := by
  have inside : block.signs (text ++ '*' :: '/' :: more) = (code []).signs more := by
    induction text with
    | nil => rfl
    | cons c text ih =>
      obtain ⟨first, others⟩ := List.ne_and_not_mem_of_not_mem_cons free
      rw [List.cons_append, signs, next, if_neg first.symm]
      exact ih others
  exact inside

end Comments

end ScanMode

end Stagecraft
