import Stagecraft.Proofs.Edit.Imports
import Stagecraft.Proofs.Edit.SpeakLine

/-!
Where imports begin and end. A line that takes a name into a list, or a comma at its end, does not
begin an import where it did not before, and still ends what it ended: so no import that is closed
above a place comes open while imports are put in order.
-/

namespace Stagecraft

variable {text front back kept gone middle old new : List Char} {line symbol module : String}
  {lines more : List String}

/-- Blanks in front of a closing brace, or at the end of a text, give way to other characters. -/
structure Gives (old new : List Char) (kept gone middle back : List Char) : Prop where
  before : old = kept ++ gone ++ back
  after : new = kept ++ middle ++ back
  blank : ∀ c ∈ gone, isBlank c
  plain : ∀ c ∈ middle, isQuote c = false
  starts : ∃ c rest, middle = c :: rest ∧ isWord c = false
  behind : back = [] ∨ ∃ rest, back = '\x7d' :: rest

/-- What goes from the end of a text goes from behind a character that stays. -/
theorem split_behind {lead rest : List Char} {c : Char} (same : kept ++ gone = lead ++ c :: rest)
    (absent : c ∉ gone) : ∃ behind, kept = lead ++ c :: behind ∧ rest = behind ++ gone := by
  rcases List.append_eq_append_iff.mp same with ⟨gap, -, inside⟩ | ⟨gap, front, inside⟩
  · exact absurd (by simp [inside]) absent
  · cases gap with
    | nil =>
      rw [List.nil_append] at inside
      exact absurd (by simp [← inside]) absent
    | cons d behind =>
      obtain ⟨rfl, rest⟩ := List.cons.inj inside
      exact ⟨behind, front, rest⟩

namespace Gives

variable {first last : List Char} {c : Char}

theorem head_eq (gives : Gives old new kept gone middle back) {d : Char} {rest : List Char}
    (same : back = d :: rest) : d = '\x7d' := by
  rcases gives.behind with none | ⟨more, brace⟩
  · rw [none] at same
    cases same
  · rw [brace] at same
    exact (List.cons.inj same).1.symm

theorem not_mem_gone (gives : Gives old new kept gone middle back) (ink : isBlank c = false) :
    c ∉ gone := by
  intro member
  rw [gives.blank c member] at ink
  cases ink

/-- A beginning without a closing brace is kept, if it ends with a character that is no blank. -/
theorem lead (gives : Gives old new kept gone middle back) (split : old = first ++ c :: last)
    (ink : isBlank c = false) (free : '\x7d' ∉ first ++ [c]) :
    ∃ behind, new = first ++ c :: behind := by
  rw [gives.before] at split
  rcases List.append_eq_append_iff.mp split with ⟨gap, inside, rest⟩ | ⟨gap, inside, rest⟩
  · cases gap with
    | nil => exact absurd (by simp [gives.head_eq rest]) free
    | cons d gap => exact absurd (by simp [inside, gives.head_eq rest]) free
  · cases gap with
    | nil => exact absurd (by simp [gives.head_eq rest.symm]) free
    | cons d gap =>
      obtain ⟨rfl, -⟩ := List.cons.inj rest
      obtain ⟨behind, rfl, -⟩ := split_behind inside (gives.not_mem_gone ink)
      exact ⟨behind ++ middle ++ back, by simp [gives.after]⟩

end Gives

section Sources

/-- The word `from`, blanks, and a name in quotes. -/
structure Source (lead name : List Char) (mark : Char) : Prop where
  lead : ∃ c blanks opening, lead = "from".toList ++ c :: (blanks ++ [opening]) ∧
    isBlank c ∧ (∀ d ∈ blanks, isBlank d) ∧ isQuote opening
  filled : name ≠ []
  plain : ∀ d ∈ name, isQuote d = false
  closes : isQuote mark

theorem quotedName?_isSome_iff : (quotedName? text).isSome ↔
    ∃ opening name mark rest, text = opening :: (name ++ mark :: rest) ∧ isQuote opening ∧
      name ≠ [] ∧ (∀ d ∈ name, isQuote d = false) ∧ isQuote mark := by
  constructor
  · intro read
    cases text with
    | nil => cases read
    | cons opening text =>
      have parts := List.takeWhile_append_dropWhile (p := (!isQuote ·)) (l := text)
      have inside : ∀ d ∈ text.takeWhile (!isQuote ·), isQuote d = false := by
        intro d member
        simpa using List.mem_takeWhile_imp member
      have stops := List.head?_dropWhile_not (!isQuote ·) text
      rw [quotedName?] at read
      split at read
      · next c name mark rest quote taken left =>
        rw [taken, left] at parts
        rw [taken] at inside
        rw [left] at stops
        exact ⟨opening, c :: name, mark, rest, by rw [parts], quote, List.cons_ne_nil c name,
          inside, by simpa using stops⟩
      · cases read
  · intro parts
    obtain ⟨opening, name, mark, rest, rfl, quote, filled, plain, closes⟩ := parts
    obtain ⟨c, name, rfl⟩ := List.exists_cons_of_ne_nil filled
    have plain' : ∀ d ∈ c :: name, (!isQuote d) = true := by
      intro d member
      rw [plain d member]
      rfl
    rw [quotedName?, List.takeWhile_append_of_pos plain', List.dropWhile_append_of_pos plain',
      List.takeWhile_cons_of_neg (by simp [closes]), List.dropWhile_cons_of_neg (by simp [closes]),
      quote, List.append_nil]
    rfl

theorem not_blank_of_isQuote {c : Char} (quote : isQuote c) : isBlank c = false ∧ c ≠ '\x7d' := by
  rw [isQuote, Bool.or_eq_true, beq_iff_eq, beq_iff_eq] at quote
  rcases quote with rfl | rfl <;> decide

/-- From a word to an opening quote there are only blanks, and no brace. -/
theorem not_mem_opening {word blanks : List Char} {c mark : Char} (bare : '\x7d' ∉ word)
    (blank : isBlank c) (blanks' : ∀ d ∈ blanks, isBlank d) (quote : isQuote mark) :
    '\x7d' ∉ word ++ c :: (blanks ++ [mark]) := by
  have brace : isBlank '\x7d' = false := by decide
  intro member
  simp only [List.mem_append, List.mem_cons, List.not_mem_nil, or_false] at member
  rcases member with letter | rfl | inside | rfl
  · exact bare letter
  · rw [brace] at blank
    cases blank
  · rw [blanks' _ inside] at brace
    cases brace
  · exact (not_blank_of_isQuote quote).2 rfl

/-- What is read up to an opening quote. -/
theorem afterFrom?_iff {rest : List Char} {mark : Char} (quote : isQuote mark) :
    afterFrom? text = some (mark :: rest) ↔
      ∃ c blanks, text = "from".toList ++ c :: (blanks ++ mark :: rest) ∧ isBlank c ∧
        ∀ d ∈ blanks, isBlank d := by
  constructor
  · intro word
    rw [afterFrom?] at word
    split at word
    · next c behind after =>
      split at word
      · next blank =>
        have blanks := takeWhile_append_skipBlanks behind
        rw [Option.some.inj word] at blanks
        have whole : text = "from".toList ++ c :: behind := eq_append_of_after? after
        exact ⟨c, behind.takeWhile isBlank, by rw [whole, blanks], blank,
          fun d member => List.mem_takeWhile_imp member⟩
      · cases word
    · cases word
  · intro parts
    obtain ⟨c, blanks, rfl, blank, blanks'⟩ := parts
    rw [afterFrom?, afterWord?, after?_append]
    simp only [blank, if_true]
    rw [skipBlanks_append blanks', skipBlanks,
      List.dropWhile_cons_of_neg (by simp [(not_blank_of_isQuote quote).1])]

theorem source_iff : ((afterFrom? text).bind quotedName?).isSome ↔
    ∃ lead name mark rest, text = lead ++ (name ++ mark :: rest) ∧ Source lead name mark := by
  constructor
  · intro found
    obtain ⟨quoted, known⟩ := Option.isSome_iff_exists.mp found
    obtain ⟨tail, word, quoted⟩ := Option.bind_eq_some_iff.mp known
    have read : (quotedName? tail).isSome := by rw [quoted]; rfl
    obtain ⟨opening, name, mark, behind, rfl, quote, filled, plain, closes⟩ :=
      quotedName?_isSome_iff.mp read
    obtain ⟨c, blanks, rfl, blank, blanks'⟩ := (afterFrom?_iff quote).mp word
    refine ⟨_, name, mark, behind, ?_, ⟨c, blanks, opening, rfl, blank, blanks', quote⟩, filled,
      plain, closes⟩
    simp
  · intro parts
    obtain ⟨lead, name, mark, rest, rfl, ⟨c, blanks, opening, rfl, blank, blanks', quote⟩, filled,
      plain, closes⟩ := parts
    have word : afterFrom? ("from".toList ++ c :: (blanks ++ [opening]) ++ (name ++ mark :: rest)) =
        some (opening :: (name ++ mark :: rest)) :=
      (afterFrom?_iff quote).mpr ⟨c, blanks, by simp, blank, blanks'⟩
    rw [word]
    exact quotedName?_isSome_iff.mpr ⟨opening, name, mark, rest, rfl, quote, filled, plain, closes⟩

/-- A source stays one, and what stands before it ends as before. -/
theorem Gives.source {first lead name rest : List Char} {mark : Char}
    (gives : Gives old new kept gone middle back)
    (split : old = first ++ (lead ++ (name ++ mark :: rest))) (source : Source lead name mark) :
    ∃ first' name' rest', new = first' ++ (lead ++ (name' ++ mark :: rest')) ∧
      Source lead name' mark ∧ first'.getLast? = first.getLast? := by
  obtain ⟨⟨c, blanks, opening, shape, blank, blanks', quote⟩, filled, plain, closes⟩ := source
  obtain ⟨ink, -⟩ := not_blank_of_isQuote quote
  obtain ⟨ink', other'⟩ := not_blank_of_isQuote closes
  have free : '\x7d' ∉ lead := by
    rw [shape]
    exact not_mem_opening (by decide) blank blanks' quote
  have ends : first ++ lead = (first ++ ("from".toList ++ c :: blanks)) ++ [opening] := by
    simp [shape]
  rw [gives.before, ← List.append_assoc first] at split
  have place : (∃ gap, kept ++ gone = first ++ lead ++ gap ∧ name ++ mark :: rest = gap ++ back) ∨
      ∃ gap, first ++ lead = kept ++ gone ++ '\x7d' :: gap ∧
        back = '\x7d' :: gap ++ (name ++ mark :: rest) := by
    rcases List.append_eq_append_iff.mp split.symm with ⟨gap, both⟩ | ⟨gap, inside, behind⟩
    · exact .inl ⟨gap, both⟩
    · cases gap with
      | nil => exact .inl ⟨[], by simp [inside], by simp [behind]⟩
      | cons d gap =>
        obtain rfl := gives.head_eq behind
        exact .inr ⟨gap, inside, behind⟩
  rcases place with ⟨gap, inside, behind⟩ | ⟨gap, inside, behind⟩
  · -- the place is behind the opening quote
    rw [ends, List.append_assoc, List.singleton_append] at inside
    obtain ⟨tail, rfl, rfl⟩ := split_behind inside (gives.not_mem_gone ink)
    rcases List.append_eq_append_iff.mp behind with ⟨more, inner, last⟩ | ⟨more, rfl, last⟩
    · cases more with
      | nil => exact absurd (gives.head_eq last.symm) other'
      | cons d more =>
        obtain ⟨rfl, rfl⟩ := List.cons.inj last
        obtain ⟨tail', rfl, -⟩ := split_behind inner (gives.not_mem_gone ink')
        refine ⟨first, name, tail' ++ middle ++ back, ?_,
          ⟨⟨c, blanks, opening, shape, blank, blanks', quote⟩, filled, plain, closes⟩, rfl⟩
        simp [gives.after, shape]
    · cases more with
      | nil => exact absurd (gives.head_eq last) other'
      | cons d more =>
        refine ⟨first, tail ++ middle ++ d :: more, rest, ?_,
          ⟨⟨c, blanks, opening, shape, blank, blanks', quote⟩, by simp, ?_, closes⟩, rfl⟩
        · simp [gives.after, shape, last]
        · intro e member
          simp only [List.mem_append] at member plain
          rcases member with (inner | filler) | inner
          · exact plain e (.inl (.inl inner))
          · exact gives.plain e filler
          · exact plain e (.inr inner)
  · -- the place is in front of the word
    rcases List.append_eq_append_iff.mp inside with ⟨more, -, last⟩ | ⟨more, front, last⟩
    · exact absurd (by simp [last]) free
    · cases more with
      | nil =>
        rw [List.nil_append] at last
        exact absurd (by simp [← last]) free
      | cons d more =>
        obtain ⟨rfl, rfl⟩ := List.cons.inj last
        refine ⟨kept ++ middle ++ '\x7d' :: more, name, rest, ?_,
          ⟨⟨c, blanks, opening, shape, blank, blanks', quote⟩, filled, plain, closes⟩, ?_⟩
        · simp [gives.after, behind]
        · simp [front, List.getLast?_append, List.getLast?_cons]

end Sources

section Lines

theorem search_isSome_iff {α : Type} {reader : Option Char → List Char → Option α} :
    (search reader none text).isSome ↔
      ∃ front back, text = front ++ back ∧ (reader front.getLast? back).isSome := by
  have missing := @search_eq_none_iff _ reader none text
  rw [← Option.ne_none_iff_isSome, ne_eq, missing]
  simp only [not_forall, exists_prop, Option.or_none, ← ne_eq, Option.ne_none_iff_isSome]

/-- A line ends an import when it names a source behind a word boundary, or imports one for its
effects only. -/
theorem endsImport_iff : endsImport line = true ↔
    (∃ front lead name mark rest, line.toList = front ++ (lead ++ (name ++ mark :: rest)) ∧
        Source lead name mark ∧ front.getLast?.any isWord = false) ∨
      ∃ c blanks mark rest, line.toList = "import".toList ++ c :: (blanks ++ mark :: rest) ∧
        isBlank c ∧ (∀ d ∈ blanks, isBlank d) ∧ isQuote mark := by
  rw [endsImport, Bool.or_eq_true, search_isSome_iff]
  apply or_congr
  · constructor
    · intro found
      obtain ⟨front, back, split, read⟩ := found
      split at read
      · cases read
      · next boundary =>
        obtain ⟨lead, name, mark, rest, rfl, source⟩ := source_iff.mp read
        exact ⟨front, lead, name, mark, rest, split, source, by simpa using boundary⟩
    · intro found
      obtain ⟨front, lead, name, mark, rest, split, source, boundary⟩ := found
      refine ⟨front, _, split, ?_⟩
      rw [if_neg (by simp [boundary])]
      exact source_iff.mpr ⟨lead, name, mark, rest, rfl, source⟩
  · constructor
    · intro read
      split at read
      · next c rest after =>
        obtain ⟨blank, quote⟩ := Bool.and_eq_true_iff.mp read
        obtain ⟨mark, starts, quote⟩ := (Option.any_eq_true _ _).mp quote
        obtain ⟨tail, same⟩ := List.head?_eq_some_iff.mp starts
        have blanks := takeWhile_append_skipBlanks rest
        rw [same] at blanks
        have whole : line.toList = "import".toList ++ c :: rest := eq_append_of_after? after
        exact ⟨c, rest.takeWhile isBlank, mark, tail, by rw [whole, blanks], blank,
          fun d member => List.mem_takeWhile_imp member, quote⟩
      · cases read
    · intro parts
      obtain ⟨c, blanks, mark, rest, split, blank, blanks', quote⟩ := parts
      rw [split, afterWord?, after?_append]
      simp only [blank, Bool.true_and]
      rw [skipBlanks_append blanks', skipBlanks,
        List.dropWhile_cons_of_neg (by simp [(not_blank_of_isQuote quote).1])]
      exact quote

theorem startsImport_iff : startsImport line = true ↔
    ∃ rest, line.toList = "import".toList ++ rest ∧ rest.head?.any isWord = false := by
  rw [startsImport]
  constructor
  · intro read
    split at read
    · next rest after =>
      exact ⟨rest, eq_append_of_after? after, by simpa using read⟩
    · cases read
  · intro parts
    obtain ⟨rest, split, boundary⟩ := parts
    rw [split, afterWord?, after?_append]
    simp [boundary]

variable {changed : String}

theorem Gives.head_plain (gives : Gives old new kept gone middle back) :
    (gone ++ back).head?.any isWord = false := by
  cases split : gone with
  | nil =>
    cases same : back with
    | nil => rfl
    | cons d rest =>
      rw [gives.head_eq same]
      rfl
  | cons d rest =>
    have blank := gives.blank d (by simp [split])
    simp [isWord_eq_false_of_isBlank blank]

theorem Gives.startsImport (gives : Gives line.toList changed.toList kept gone middle back)
    (starts : startsImport changed = true) : startsImport line = true := by
  have here := gives.head_plain
  obtain ⟨c, more, shape, plain⟩ := gives.starts
  obtain ⟨rest, split, boundary⟩ := startsImport_iff.mp starts
  rw [gives.after, List.append_assoc] at split
  apply startsImport_iff.mpr
  rw [gives.before]
  rcases List.append_eq_append_iff.mp split with ⟨gap, inside, behind⟩ | ⟨gap, rfl, rfl⟩
  · cases gap with
    | nil => exact ⟨gone ++ back, by simp [inside], here⟩
    | cons d gap =>
      rw [shape] at behind
      obtain ⟨rfl, -⟩ := List.cons.inj behind
      have letters : ∀ d ∈ "import".toList, isWord d = true := List.all_eq_true.mp (by decide)
      rw [letters c (by simp [inside])] at plain
      cases plain
  · refine ⟨gap ++ (gone ++ back), by simp, ?_⟩
    cases gap with
    | nil => exact here
    | cons d gap => exact boundary

theorem Gives.endsImport (gives : Gives line.toList changed.toList kept gone middle back)
    (ends : endsImport line = true) : endsImport changed = true := by
  apply endsImport_iff.mpr
  rcases endsImport_iff.mp ends with found | ⟨c, blanks, mark, rest, split, blank, blanks', quote⟩
  · obtain ⟨front, lead, name, mark, rest, split, source, boundary⟩ := found
    obtain ⟨front', name', rest', split', source', same⟩ := gives.source split source
    exact .inl ⟨front', lead, name', mark, rest', split', source', by rw [same, boundary]⟩
  · right
    obtain ⟨ink, -⟩ := not_blank_of_isQuote quote
    have free : '\x7d' ∉ ("import".toList ++ c :: blanks) ++ [mark] := by
      rw [List.append_assoc]
      exact not_mem_opening (by decide) blank blanks' quote
    have split' : line.toList = ("import".toList ++ c :: blanks) ++ mark :: rest := by simp [split]
    obtain ⟨behind, same⟩ := gives.lead split' ink free
    exact ⟨c, blanks, mark, behind, by simp [same], blank, blanks', quote⟩

end Lines

section Names

theorem gives_comma (line : String) : ∃ gone,
    Gives line.toList (stripEnd line ++ ",").toList (dropEndBlanks line.toList) gone [','] [] := by
  obtain ⟨gone, split, blank⟩ := dropEndBlanks_split line.toList
  refine ⟨gone, ?_⟩
  exact {
    before := by rw [List.append_nil, ← split]
    after := by simp [stripEnd]
    blank := blank
    plain := List.forall_mem_singleton.mpr (by decide)
    starts := ⟨',', [], rfl, by decide⟩
    behind := .inl rfl }

theorem gives_name {head tail : String} (c : Char) (rest : List Char)
    (braced : lastBrace? line = some (head, tail)) (plain : ∀ d ∈ c :: rest, isQuote d = false)
    (other : isWord c = false) :
    ∃ gone after, tail.toList = '\x7d' :: after ∧
      Gives line.toList (dropEndBlanks head.toList ++ c :: rest ++ tail.toList)
        (dropEndBlanks head.toList) gone (c :: rest) ('\x7d' :: after) := by
  obtain ⟨gone, split, blank⟩ := dropEndBlanks_split head.toList
  obtain ⟨after, whole, closing⟩ := lastBrace?_split braced
  refine ⟨gone, after, closing, ?_⟩
  exact {
    before := by rw [whole, ← split]
    after := by rw [closing]
    blank := blank
    plain := plain
    starts := ⟨c, rest, rfl, other⟩
    behind := .inr ⟨after, rfl⟩ }

section Symbols

variable {head tail : String} (braced : lastBrace? line = some (head, tail))
  (named : ∀ c ∈ symbol.toList, isQuote c = false)

include braced named

theorem gives_first : ∃ gone after, tail.toList = '\x7d' :: after ∧
    Gives line.toList (stripEnd head ++ " " ++ symbol ++ " " ++ tail).toList
      (dropEndBlanks head.toList) gone (' ' :: (symbol.toList ++ [' '])) ('\x7d' :: after) := by
  have same : (stripEnd head ++ " " ++ symbol ++ " " ++ tail).toList =
      dropEndBlanks head.toList ++ ' ' :: (symbol.toList ++ [' ']) ++ tail.toList := by
    simp [stripEnd]
  rw [same]
  apply gives_name _ _ braced ?_ (by decide)
  simpa [or_imp, forall_and] using ⟨by decide, named, by decide⟩

theorem gives_next : ∃ gone after, tail.toList = '\x7d' :: after ∧
    Gives line.toList (stripEnd head ++ ", " ++ symbol ++ " " ++ tail).toList
      (dropEndBlanks head.toList) gone (',' :: ' ' :: (symbol.toList ++ [' ']))
      ('\x7d' :: after) := by
  have same : (stripEnd head ++ ", " ++ symbol ++ " " ++ tail).toList =
      dropEndBlanks head.toList ++ ',' :: ' ' :: (symbol.toList ++ [' ']) ++ tail.toList := by
    simp [stripEnd]
  rw [same]
  apply gives_name _ _ braced ?_ (by decide)
  simpa [or_imp, forall_and] using ⟨by decide, by decide, named, by decide⟩

end Symbols

end Names

section Open

variable {inside inside' : Bool} {index : Nat}

theorem importOpen_append (inside : Bool) (lines more : List String) :
    importOpen inside (lines ++ more) = importOpen (importOpen inside lines) more := by
  induction lines generalizing inside with
  | nil => rfl
  | cons line lines ih => exact ih _

/-- What is closed from the inside of an import is closed from the outside. -/
theorem importOpen_mono (less : inside' = true → inside = true)
    (opened : importOpen inside' lines = true) : importOpen inside lines = true := by
  induction lines generalizing inside inside' with
  | nil => exact less opened
  | cons line lines ih =>
    refine ih ?_ opened
    intro holds
    rw [Bool.and_eq_true, Bool.or_eq_true] at holds ⊢
    exact ⟨holds.1.imp_left less, holds.2⟩

/-- A line that begins no import but those it ends leaves none open. -/
def Shut (line : String) : Prop := startsImport line = true → endsImport line = true

theorem shut_blank : Shut "" := fun begun => absurd begun (by decide)

theorem importSource_starts (module : String) :
    ∃ rest, (importSource module).toList = '.' :: rest := by
  rw [importSource]
  split
  · next dotted =>
    rw [startsWith, List.isPrefixOf_iff_prefix] at dotted
    obtain ⟨rest, split⟩ := dotted
    exact ⟨rest, split.symm⟩
  · exact ⟨_, String.toList_append⟩

/-- The statement for a symbol ends the import that it begins. -/
theorem shut_statement (symbol module : String) : Shut (importStatement symbol module) := by
  intro _
  obtain ⟨rest, starts⟩ := importSource_starts module
  have parts := List.takeWhile_append_dropWhile (p := (!isQuote ·))
    (l := (importSource module).toList ++ ['\'', ';'])
  have stops := List.head?_dropWhile_not (!isQuote ·) ((importSource module).toList ++ ['\'', ';'])
  have filled : ((importSource module).toList ++ ['\'', ';']).takeWhile (!isQuote ·) ≠ [] := by
    rw [starts, List.cons_append, List.takeWhile_cons_of_pos (by decide)]
    exact List.cons_ne_nil _ _
  cases behind : ((importSource module).toList ++ ['\'', ';']).dropWhile (!isQuote ·) with
  | nil =>
    have none := List.dropWhile_eq_nil_iff.mp behind '\'' (by simp)
    exact absurd none (by decide)
  | cons mark tail =>
    rw [behind] at parts stops
    apply endsImport_iff.mpr
    have lead : ∃ c blanks opening, "from '".toList = "from".toList ++ c :: (blanks ++ [opening]) ∧
        isBlank c ∧ (∀ d ∈ blanks, isBlank d) ∧ isQuote opening :=
      ⟨' ', [], '\'', by decide, by decide, by simp, by decide⟩
    refine .inl ⟨("import \x7b " ++ symbol ++ " \x7d ").toList, "from '".toList, _, mark, tail, ?_,
      ⟨lead, filled, ?_, by simpa using stops⟩, ?_⟩
    · rw [parts]
      simp [importStatement]
    · intro d member
      simpa using List.mem_takeWhile_imp member
    · have last : ("import \x7b " ++ symbol ++ " \x7d ").toList.getLast? = some ' ' := by
        rw [String.toList_append, List.getLast?_append]
        rfl
      rw [last]
      decide

/-- A name on a line of its own is no import, if it does not begin like one. -/
theorem shut_name (indent : IsIndent line) {c : Char} {rest : List Char}
    (named : symbol.toList = c :: rest) (other : c ≠ 'i') : Shut (line ++ symbol ++ ",") := by
  intro begun
  obtain ⟨tail, split, -⟩ := startsImport_iff.mp begun
  exfalso
  rw [String.toList_append, String.toList_append, named] at split
  cases blanks : line.toList with
  | nil =>
    rw [blanks] at split
    exact other (List.cons.inj split).1
  | cons d blanks' =>
    rw [blanks] at split
    have blank := indent d (by simp [blanks])
    rw [(List.cons.inj split).1] at blank
    exact absurd blank (by decide)

theorem importOpen_shut (shut : ∀ line ∈ more, Shut line)
    (opened : importOpen inside more = true) : inside = true := by
  induction more generalizing inside with
  | nil => exact opened
  | cons line more ih =>
    have here := ih (fun other member => shut other (List.mem_cons_of_mem _ member)) opened
    rw [Bool.and_eq_true, Bool.or_eq_true] at here
    obtain ⟨begun | begun, unended⟩ := here
    · exact begun
    · rw [shut line (List.mem_cons_self ..) begun] at unended
      cases unended

theorem importOpen_putLines (shut : ∀ line ∈ more, Shut line)
    (opened : importOpen inside (putLines index more lines) = true) :
    importOpen inside lines = true := by
  rw [putLines, importOpen_append, importOpen_append] at opened
  rw [← List.take_append_drop index lines, importOpen_append]
  exact importOpen_mono (importOpen_shut shut) opened

theorem importOpen_set {changed : String} (present : lines[index]? = some line)
    (begins : startsImport changed = true → startsImport line = true)
    (ends : endsImport line = true → endsImport changed = true)
    (opened : importOpen inside (lines.set index changed) = true) :
    importOpen inside lines = true := by
  obtain ⟨low, rfl⟩ := List.getElem?_eq_some_iff.mp present
  have whole := List.take_append_drop index lines
  rw [List.drop_eq_getElem_cons low] at whole
  rw [List.set_eq_take_append_cons_drop, if_pos low, importOpen_append] at opened
  rw [← whole, importOpen_append]
  rw [importOpen] at opened ⊢
  refine importOpen_mono ?_ opened
  intro holds
  rw [Bool.and_eq_true, Bool.or_eq_true, Bool.not_eq_true'] at holds ⊢
  refine ⟨holds.1.imp_right begins, ?_⟩
  by_contra ended
  rw [Bool.not_eq_false] at ended
  rw [ends ended] at holds
  cases holds.2

end Open

end Stagecraft
