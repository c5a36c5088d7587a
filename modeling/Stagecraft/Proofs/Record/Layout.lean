import Stagecraft.Edit.Prune
import Stagecraft.Proofs.Literal.Items
import Stagecraft.Proofs.Vignette.Elements
import Stagecraft.Proofs.Woven

/-!
Records that are laid out line by line. The lines of the steps come in paragraphs, each of whole
elements with their commas; what a pass may take from such a record is a whole paragraph. Without
some of its paragraphs the record is read as before but for their elements.
-/

namespace Stagecraft

/-- The lines above the first element, those of the steps, and those from the closing bracket. -/
structure Layout where
  head : List String
  paragraphs : List (List String)
  tail : List String

def Layout.lines (layout : Layout) : List String :=
  layout.head ++ layout.paragraphs.flatten ++ layout.tail

/-- The layout with these paragraphs in the place of all of them. -/
def Layout.keeping (layout : Layout) (paragraphs : List (List String)) : Layout :=
  { layout with paragraphs := paragraphs }

/-- The text of lines that all end with a line feed. -/
def fed (lines : List String) : List Char := lines.flatMap fun line => line.toList ++ ['\n']

/-- The room for the members of a record, and that for its steps. -/
def memberRoom : Nat := 992

def stepRoom : Nat := 989

def wholeElements? (paragraph : List String) : Option (List Value) :=
  match tokensUpTo 0 (fed paragraph) with
  | .ok tokens => wholeItems? stepRoom tokens
  | .error _ => none

def lastElements? (paragraph : List String) : Option (List Value) :=
  match tokensUpTo 0 (fed paragraph) with
  | .ok tokens => lastItems? stepRoom tokens
  | .error _ => none

/-- The elements of paragraphs; only the very last one may lack its comma. -/
def paragraphElements? : List (List String) → Option (List Value)
  | [] => some []
  | [last] => lastElements? last
  | paragraph :: next :: rest => do
    let values ← wholeElements? paragraph
    let others ← paragraphElements? (next :: rest)
    return values ++ others

/-- The lines lead from the opening brace to the steps of the record. -/
def leadsIn (head : List String) : Bool :=
  match tokensUpTo 0 ((fed head).dropWhile (· != '\x7b')) with
  | .ok (brace :: tokens) => brace.lexeme.isPunct '\x7b' && leadsToSteps memberRoom tokens
  | _ => false

def startsWithBracket (line : String) : Bool := (skipBlanks line.toList).head? == some ']'

/-- The record is read line by line. -/
structure Layout.Readable (layout : Layout) : Prop where
  leads : leadsIn layout.head = true
  elements : (paragraphElements? layout.paragraphs).isSome = true
  closes : layout.tail.head?.any startsWithBracket = true

variable {lines more : List String} {paragraph : List String}
  {paragraphs fewer : List (List String)} {values : List Value} {value : Value}

theorem fed_append : fed (lines ++ more) = fed lines ++ fed more := List.flatMap_append

theorem fed_ends (lines : List String) : fed lines = [] ∨ (fed lines).getLast? = some '\n' := by
  rcases List.eq_nil_or_concat lines with rfl | ⟨init, last, rfl⟩
  · exact .inl rfl
  · right
    rw [List.concat_eq_append, fed_append]
    simp [fed]

theorem lexes_fed_append {lexemes : List Lexeme} {text : List Char} {all : List Lexeme}
    (first : Lexes (fed lines) lexemes) :
    Lexes (fed lines ++ text) all ↔ ∃ others, all = lexemes ++ others ∧ Lexes text others :=
  first.append_iff (fed_ends lines)

theorem toList_join_append (filled : more ≠ []) :
    (join "\n" (lines ++ more)).toList = fed lines ++ (join "\n" more).toList := by
  induction lines with
  | nil => rfl
  | cons line lines ih =>
    have filled' : lines ++ more ≠ [] := by simp [filled]
    rw [join] at ih ⊢
    rw [List.cons_append, String.intercalate_cons_of_ne_nil filled', String.toList_append,
      String.toList_append, ih, fed, fed, List.flatMap_cons, List.append_assoc, List.append_assoc,
      List.append_assoc]
    rfl

section Paragraphs

theorem reads_wholeElements (whole : wholeElements? paragraph = some values) :
    ∃ lexemes, Lexes (fed paragraph) lexemes ∧ ∀ {more others rest},
      Reads (.items stepRoom ']') more others rest →
        Reads (.items stepRoom ']') (lexemes ++ more) (values ++ others) rest := by
  rw [wholeElements?] at whole
  split at whole
  · next tokens cut =>
    exact ⟨_, lexes_of_tokensUpTo cut, fun behind => reads_wholeItems whole behind⟩
  · cases whole

theorem reads_lastElements (last : lastElements? paragraph = some values) :
    ∃ lexemes, Lexes (fed paragraph) lexemes ∧ ∀ more,
      Reads (.items stepRoom ']') (lexemes ++ .punct ']' :: more) values more := by
  rw [lastElements?] at last
  split at last
  · next tokens cut => exact ⟨_, lexes_of_tokensUpTo cut, fun more => reads_lastItems last⟩
  · cases last

theorem reads_paragraphs (elements : paragraphElements? paragraphs = some values) :
    ∃ lexemes, Lexes (fed paragraphs.flatten) lexemes ∧ ∀ more,
      Reads (.items stepRoom ']') (lexemes ++ .punct ']' :: more) values more := by
  induction paragraphs using paragraphElements?.induct generalizing values with
  | case1 =>
    cases elements
    exact ⟨[], .nil, fun more => .noItem⟩
  | case2 last =>
    rw [paragraphElements?] at elements
    rw [List.flatten_singleton]
    exact reads_lastElements elements
  | case3 paragraph next rest ih =>
    rw [paragraphElements?] at elements
    obtain ⟨first, whole, elements⟩ := Option.bind_eq_some_iff.mp elements
    obtain ⟨others, behind, made⟩ := Option.bind_eq_some_iff.mp elements
    cases made
    obtain ⟨lexemes, lexed, reads⟩ := reads_wholeElements whole
    obtain ⟨lexemes', lexed', reads'⟩ := ih behind
    refine ⟨lexemes ++ lexemes', ?_, ?_⟩
    · rw [List.flatten_cons, fed_append]
      exact (lexes_fed_append lexed).mpr ⟨lexemes', rfl, lexed'⟩
    · intro more
      rw [List.append_assoc]
      exact reads (reads' more)

theorem lastElements?_of_whole (whole : wholeElements? paragraph = some values) :
    lastElements? paragraph = some values := by
  rw [wholeElements?] at whole
  rw [lastElements?]
  split at whole
  · next tokens cut => simp only [lastItems?, whole]
  · cases whole

/-- The elements of each paragraph, where it may lack its last comma. -/
def ownElements (paragraphs : List (List String)) : List Value :=
  paragraphs.flatMap fun paragraph => (lastElements? paragraph).getD []

theorem ownElements_cons (own : lastElements? paragraph = some values) :
    ownElements (paragraph :: paragraphs) = values ++ ownElements paragraphs := by
  rw [ownElements, List.flatMap_cons, own]
  rfl

/-- Paragraphs that go take just their elements along. -/
theorem paragraphElements?_woven {taken : List (List String)}
    (woven : Woven fewer taken paragraphs)
    (elements : paragraphElements? paragraphs = some values) :
    ∃ values', paragraphElements? fewer = some values' ∧
      Woven values' (ownElements taken) values := by
  induction woven generalizing values with
  | done =>
    cases elements
    exact ⟨[], rfl, .done⟩
  | @keep fewer taken paragraphs paragraph others ih =>
    cases paragraphs with
    | nil =>
      cases others
      exact ⟨values, elements, .refl values⟩
    | cons next rest =>
      rw [paragraphElements?] at elements
      obtain ⟨first, whole, elements⟩ := Option.bind_eq_some_iff.mp elements
      obtain ⟨more, behind, made⟩ := Option.bind_eq_some_iff.mp elements
      cases made
      obtain ⟨values', elements', woven⟩ := ih behind
      refine ⟨first ++ values', ?_, woven.keeps first⟩
      cases fewer with
      | nil =>
        cases elements'
        rw [paragraphElements?, List.append_nil]
        exact lastElements?_of_whole whole
      | cons other fewer =>
        rw [paragraphElements?, whole, elements']
        rfl
  | @add fewer taken paragraphs paragraph others ih =>
    cases paragraphs with
    | nil =>
      cases others
      rw [ownElements_cons elements]
      exact ⟨[], rfl, by simpa [ownElements] using Woven.done.adds values⟩
    | cons next rest =>
      rw [paragraphElements?] at elements
      obtain ⟨first, whole, elements⟩ := Option.bind_eq_some_iff.mp elements
      obtain ⟨more, behind, made⟩ := Option.bind_eq_some_iff.mp elements
      cases made
      obtain ⟨values', elements', woven⟩ := ih behind
      refine ⟨values', elements', ?_⟩
      rw [ownElements_cons (lastElements?_of_whole whole)]
      exact woven.adds first

/-- Fewer paragraphs have fewer elements. -/
theorem paragraphElements?_sublist (part : fewer.Sublist paragraphs)
    (elements : paragraphElements? paragraphs = some values) :
    ∃ values', paragraphElements? fewer = some values' ∧ values'.Sublist values := by
  obtain ⟨taken, woven⟩ := Woven.of_sublist part
  obtain ⟨values', elements', woven'⟩ := paragraphElements?_woven woven elements
  exact ⟨values', elements', woven'.sublist⟩

end Paragraphs

section Text

variable {head tail : List String} {text : List Char} {lexemes : List Lexeme}

theorem leadsIn_ok (leads : leadsIn head = true) :
    ∃ tokens, Lexes ((fed head).dropWhile (· != '\x7b')) (.punct '\x7b' :: lexemesOf tokens) ∧
      leadsToSteps memberRoom tokens = true := by
  rw [leadsIn] at leads
  split at leads
  · next brace tokens cut =>
    obtain ⟨lexeme, offset⟩ := brace
    simp only [Bool.and_eq_true, isPunct_iff] at leads
    obtain ⟨rfl, leads⟩ := leads
    exact ⟨tokens, lexes_of_tokensUpTo cut, leads⟩
  · cases leads

/-- The record starts in its head. -/
theorem toList_recordText {lexeme : Lexeme}
    (opens : Lexes ((fed head).dropWhile (· != '\x7b')) (lexeme :: lexemes)) (filled : tail ≠ []) :
    (recordText (join "\n" (head ++ lines ++ tail))).toList =
      (fed head).dropWhile (· != '\x7b') ++ (fed lines ++ (join "\n" tail).toList) := by
  have opened : (fed head).dropWhile (· != '\x7b') ≠ [] := by
    intro none
    rw [none] at opens
    cases opens with
    | gap piece => cases piece
    | token piece => cases piece
  rw [recordText, String.toList_ofList, toList_join_append filled, fed_append, List.append_assoc,
    List.dropWhile_append, if_neg (by simpa using opened)]

theorem lexes_head_append {all : List Lexeme}
    (first : Lexes ((fed head).dropWhile (· != '\x7b')) lexemes) :
    Lexes ((fed head).dropWhile (· != '\x7b') ++ text) all ↔
      ∃ others, all = lexemes ++ others ∧ Lexes text others := by
  apply first.append_iff
  obtain ⟨dropped, split⟩ := List.dropWhile_suffix (· != '\x7b') (l := fed head)
  cases last : ((fed head).dropWhile (· != '\x7b')).getLast? with
  | none => exact .inl (List.getLast?_eq_none_iff.mp last)
  | some c =>
    right
    rcases fed_ends head with none | ends
    · rw [none] at last
      cases last
    · rwa [← split, List.getLast?_append, last, Option.some_or] at ends

theorem nextPiece?_bracket : nextPiece? (']' :: text) = some (.token (.punct ']'), text) := by
  have digits : Numeral.read? (']' :: text) = none := by
    have plain : isDecimalDigit ']' = false := by decide
    simp [Numeral.read?, Numeral.mantissa?, Numeral.takeDigits, plain]
  rw [nextPiece?.eq_5 _ _ (by simp) (by simp) (by simp), digits]
  rfl

theorem lexes_tail (closes : tail.head?.any startsWithBracket = true)
    (lexed : Lexes (join "\n" tail).toList lexemes) : ∃ more, lexemes = .punct ']' :: more := by
  cases tail with
  | nil => cases closes
  | cons line rest =>
    have split : ∃ behind, (join "\n" (line :: rest)).toList = line.toList ++ behind := by
      cases rest with
      | nil => exact ⟨[], by simp [join]⟩
      | cons next rest => exact ⟨_, by rw [join, String.intercalate_cons_cons, String.append_assoc,
          String.toList_append]⟩
    obtain ⟨behind, split⟩ := split
    simp only [List.head?_cons, Option.any_some, startsWithBracket, beq_iff_eq] at closes
    obtain ⟨after, opened⟩ := List.head?_eq_some_iff.mp closes
    have whole : skipBlanks (line.toList ++ behind) = ']' :: (after ++ behind) := by
      rcases skipBlanks_eq_nil_or line.toList behind with whole | ⟨empty, -⟩
      · rw [whole, opened, List.cons_append]
      · rw [opened] at empty
        cases empty
    rw [split, ← Lexes.skipBlanks_iff, whole, Lexes.token_iff nextPiece?_bracket] at lexed
    obtain ⟨more, rfl, -⟩ := lexed
    exact ⟨more, rfl⟩

end Text

namespace Layout

variable {layout : Layout}

/-- A record with other paragraphs that are read is read as before but for their elements. -/
theorem read_keeping (readable : layout.Readable) {values values' : List Value}
    (elements : paragraphElements? layout.paragraphs = some values)
    (elements' : paragraphElements? fewer = some values')
    (read : readLiteral (recordText (join "\n" layout.lines)) = .ok value) :
    ∃ value', readLiteral (recordText (join "\n" (layout.keeping fewer).lines)) = .ok value' ∧
      Agree values values' (fieldsOf value) (fieldsOf value') := by
  obtain ⟨leads, -, closes⟩ := readable
  obtain ⟨tokens, opened, members⟩ := leadsIn_ok leads
  obtain ⟨body, lexed, steps⟩ := reads_paragraphs elements
  obtain ⟨body', lexed', steps'⟩ := reads_paragraphs elements'
  have filled : layout.tail ≠ [] := by
    intro none
    rw [none] at closes
    cases closes
  obtain ⟨all, rest, cut, derived, marks⟩ := readLiteral_iff.mp read
  rw [Layout.lines, toList_recordText opened filled] at cut
  obtain ⟨_, rfl, inside⟩ := (lexes_head_append opened).mp cut
  obtain ⟨behind, rfl, below⟩ := (lexes_fed_append lexed).mp inside
  obtain ⟨more, rfl⟩ := lexes_tail closes below
  cases derived with
  | object fits inner =>
    have room : roomInside? 2 nestingRoom = some memberRoom := rfl
    obtain rfl := Option.some.inj (room.symm.trans fits)
    have room' : roomInside? 3 memberRoom = some stepRoom := rfl
    obtain ⟨before, after, rfl, inner'⟩ :=
      reads_otherSteps members room' (steps more) (steps' more) inner
    refine ⟨_, readLiteral_iff.mpr ⟨_, rest, ?_, .object fits inner', marks⟩,
      .of_members before after⟩
    rw [Layout.lines, Layout.keeping, toList_recordText opened filled]
    exact (lexes_head_append opened).mpr ⟨_, rfl, (lexes_fed_append lexed').mpr ⟨_, rfl, below⟩⟩

/-- A record that loses paragraphs is read as before but for their elements. -/
theorem read_fewer (readable : layout.Readable) (part : fewer.Sublist layout.paragraphs)
    (read : readLiteral (recordText (join "\n" layout.lines)) = .ok value) :
    ∃ value' values values',
      readLiteral (recordText (join "\n" (layout.keeping fewer).lines)) = .ok value' ∧
      values'.Sublist values ∧ Agree values values' (fieldsOf value) (fieldsOf value') := by
  obtain ⟨values, elements⟩ := Option.isSome_iff_exists.mp readable.elements
  obtain ⟨values', elements', sub⟩ := paragraphElements?_sublist part elements
  obtain ⟨value', read', agree⟩ := read_keeping readable elements elements' read
  exact ⟨value', values, values', read', sub, agree⟩

end Layout

end Stagecraft
