import Stagecraft.Proofs.Edit.ImportPlaces
import Stagecraft.Proofs.Record.Layout

/-!
Putting an import in order twice. The first time a statement goes in, or the name goes into the list
of the import that is there; then the second time finds the name and leaves the file alone.
-/

namespace Stagecraft

variable {text front back : List Char} {line symbol module head tail : String}
  {lines above below old new : List String} {buffer after : Buffer} {outcome : ImportOutcome}
  {start last : Nat}

section Words

/-- The symbol stands in the text with no word right before it or behind it. -/
def StandsApart (symbol : String) (text : List Char) : Prop :=
  ∃ front back, text = front ++ (symbol.toList ++ back) ∧ front.getLast?.any isWord = false ∧
    back.head?.any isWord = false

theorem holdsWord_iff : holdsWord symbol text = true ↔
    ∃ front back, text = front ++ (symbol.toList ++ back) ∧
      isBoundary front.getLast? (symbol.toList ++ back).head? ∧
      isBoundary (if symbol = "" then front.getLast? else symbol.toList.getLast?) back.head? := by
  rw [holdsWord, search_isSome_iff]
  constructor
  · intro found
    obtain ⟨front, rest, split, read⟩ := found
    obtain ⟨_, read⟩ := Option.isSome_iff_exists.mp read
    obtain ⟨back, word, read⟩ := Option.bind_eq_some_iff.mp read
    obtain ⟨both, -⟩ := Option.ite_none_right_eq_some.mp read
    obtain ⟨first, second⟩ := Bool.and_eq_true_iff.mp both
    obtain rfl : rest = symbol.toList ++ back := eq_append_of_after? word
    exact ⟨front, back, split, first, second⟩
  · intro parts
    obtain ⟨front, back, split, first, second⟩ := parts
    refine ⟨front, symbol.toList ++ back, split, ?_⟩
    rw [after?_append, Option.bind_eq_bind, Option.bind_some,
      if_pos (Bool.and_eq_true_iff.mpr ⟨first, second⟩)]
    rfl

/-- A text with a letter in it has a word boundary. -/
theorem holdsWord_empty (letter : ∃ c ∈ text, isWord c) : holdsWord "" text = true := by
  obtain ⟨c, member, word⟩ := letter
  have parts := List.takeWhile_append_dropWhile (p := (!isWord ·)) (l := text)
  have stops := List.head?_dropWhile_not (!isWord ·) text
  have lead : (text.takeWhile (!isWord ·)).getLast?.any isWord = false := by
    rw [← Bool.not_eq_true]
    intro holds
    obtain ⟨d, ends, here⟩ := (Option.any_eq_true _ _).mp holds
    have other := List.mem_takeWhile_imp (List.mem_of_getLast? ends)
    rw [here] at other
    cases other
  have boundary : isBoundary (text.takeWhile (!isWord ·)).getLast?
      (text.dropWhile (!isWord ·)).head? = true := by
    rw [isBoundary, lead]
    cases split : text.dropWhile (!isWord ·) with
    | nil =>
      have none := List.dropWhile_eq_nil_iff.mp split c member
      rw [word] at none
      cases none
    | cons d rest =>
      rw [split] at stops
      simpa using stops
  exact holdsWord_iff.mpr ⟨_, _, parts.symm, boundary, boundary⟩

theorem StandsApart.holdsWord (apart : StandsApart symbol text)
    (word : ∀ c ∈ symbol.toList, isWord c) (letter : ∃ c ∈ text, isWord c) :
    holdsWord symbol text = true := by
  by_cases empty : symbol = ""
  · rw [empty]
    exact holdsWord_empty letter
  · obtain ⟨front, back, split, before, behind⟩ := apart
    have filled : symbol.toList ≠ [] := fun none => empty (String.toList_eq_nil_iff.mp none)
    refine holdsWord_iff.mpr ⟨front, back, split, ?_, ?_⟩
    · rw [isBoundary, before, List.head?_append_of_ne_nil _ filled, List.head?_eq_some_head filled,
        Option.any_some, word _ (List.head_mem filled)]
      rfl
    · rw [if_neg empty, isBoundary, behind, List.getLast?_eq_some_getLast filled, Option.any_some,
        word _ (List.getLast_mem filled)]
      rfl

/-- A symbol that stands apart on a line stands apart in the lines. -/
theorem StandsApart.join (apart : StandsApart symbol line.toList) :
    StandsApart symbol (join "\n" (above ++ line :: below)).toList := by
  obtain ⟨front, back, split, before, behind⟩ := apart
  obtain ⟨rest, whole, opens⟩ : ∃ rest, (Stagecraft.join "\n" (line :: below)).toList =
      line.toList ++ rest ∧ rest.head?.any isWord = false := by
    cases below with
    | nil => exact ⟨[], by simp [Stagecraft.join], rfl⟩
    | cons next below =>
      have feed : isWord '\n' = false := by decide
      refine ⟨'\n' :: (Stagecraft.join "\n" (next :: below)).toList, ?_, feed⟩
      rw [← List.singleton_append, toList_join_append (List.cons_ne_nil _ _)]
      simp [fed]
  refine ⟨fed above ++ front, back ++ rest, ?_, ?_, ?_⟩
  · rw [toList_join_append (List.cons_ne_nil _ _), whole, split]
    simp
  · rw [List.getLast?_append]
    rcases fed_ends above with none | feed
    · rw [none, List.getLast?_nil, Option.or_none]
      exact before
    · have mark : isWord '\n' = false := by decide
      rw [feed]
      cases ends : front.getLast? with
      | none => exact mark
      | some c => rwa [ends] at before
  · rw [List.head?_append]
    cases back with
    | nil => exact opens
    | cons c back => exact behind

end Words

section Names

/-- Lines with a symbol put in front of a closing brace: above a brace on its own line, or on the
line of the brace. A comma goes in where the name before has none. -/
inductive TakesSymbol (symbol : String) : List String → List String → Prop where
  | own {line previous text head tail : String}
      (kept : previous = line ∨ previous = stripEnd line ++ ",")
      (braced : lastBrace? text = some (head, tail)) (alone : isBlankText head) :
      TakesSymbol symbol [line, text] [previous, indentOf previous ++ symbol ++ ",", text]
  | first {line head tail : String} (braced : lastBrace? line = some (head, tail))
      (expects : expectsName (stripEnd head)) :
      TakesSymbol symbol [line] [stripEnd head ++ " " ++ symbol ++ " " ++ tail]
  | next {line head tail : String} (braced : lastBrace? line = some (head, tail)) :
      TakesSymbol symbol [line] [stripEnd head ++ ", " ++ symbol ++ " " ++ tail]

/-- The lines between two places of a file take a symbol, and no others change. -/
def TakesWithin (symbol : String) (start last : Nat) (lines lines' : List String) : Prop :=
  ∃ above old new below, lines = above ++ old ++ below ∧ lines' = above ++ new ++ below ∧
    TakesSymbol symbol old new ∧ start ≤ above.length ∧ above.length + old.length ≤ last + 1

theorem takesWithin_addName {index : Nat} (low : start ≤ index) (high : index ≤ last)
    (inside : index < buffer.lines.length)
    (braced : lastBrace? ((buffer.line? index).getD "") = some (head, tail)) :
    TakesWithin symbol start last buffer.lines
      (addName buffer start index symbol head tail).lines := by
  obtain ⟨above, text, below, parts, rfl⟩ : ∃ above text below,
      buffer.lines = above ++ [text] ++ below ∧ above.length = index := by
    refine ⟨buffer.lines.take index, buffer.lines[index], buffer.lines.drop (index + 1), ?_,
      List.length_take_of_le (Nat.le_of_lt inside)⟩
    rw [List.append_assoc, List.singleton_append, ← List.drop_eq_getElem_cons inside,
      List.take_append_drop]
  have here : (buffer.line? above.length).getD "" = text := by simp [Buffer.line?, parts]
  have replaced (changed : String) :
      (buffer.replace above.length changed).lines = above ++ [changed] ++ below := by
    simp [Buffer.replace, parts]
  have room : above.length + [text].length ≤ last + 1 := Nat.succ_le_succ high
  rw [here] at braced
  rw [addName]
  split
  · next alone =>
    obtain ⟨alone, later⟩ := alone
    have filled : above ≠ [] := List.ne_nil_of_length_pos (Nat.zero_lt_of_lt later)
    obtain ⟨above, line, rfl⟩ := (List.eq_nil_or_concat' above).resolve_left filled
    have size : (above ++ [line]).length = above.length + 1 := List.length_append
    have before : (buffer.line? ((above ++ [line]).length - 1)).getD "" = line := by
      simp [Buffer.line?, parts]
    have made (previous : String) (more : List String) :
        ((buffer.replace ((above ++ [line]).length - 1) previous).insertLines
          (above ++ [line]).length more).lines =
            above ++ (previous :: more ++ [text]) ++ below := by
      have cut : (above ++ [line] ++ [text] ++ below).set above.length previous =
          above ++ [previous] ++ text :: below := by simp
      have long : (above ++ [previous]).length = above.length + 1 := List.length_append
      change putLines _ more (buffer.lines.set _ previous) = _
      rw [parts, size, Nat.add_sub_cancel, cut, ← long, putLines, List.take_left, List.drop_left]
      simp
    have parts' : buffer.lines = above ++ [line, text] ++ below := by simp [parts]
    rw [size] at later room
    rw [before]
    dsimp only
    split
    · exact ⟨above, _, _, below, parts', made _ _, .own (.inl rfl) braced alone,
        Nat.le_of_lt_succ later, room⟩
    · exact ⟨above, _, _, below, parts', made _ _, .own (.inr rfl) braced alone,
        Nat.le_of_lt_succ later, room⟩
  · split
    · next expects =>
      exact ⟨above, _, _, below, parts, replaced _, .first braced expects, low, room⟩
    · exact ⟨above, _, _, below, parts, replaced _, .next braced, low, room⟩

theorem extendImport_cases {index : Nat} (low : start ≤ index) (high : index ≤ last)
    (inside : index < buffer.lines.length)
    (ran : extendImport buffer start symbol index = (after, outcome)) :
    outcome = .withoutNames ∧ after = buffer ∨
      outcome = .added ∧ TakesWithin symbol start last buffer.lines after.lines := by
  rcases extendImport_eq buffer start symbol index with
    same | ⟨place, above, below, _, _, braced, taken⟩
  · rw [same] at ran
    obtain ⟨rfl, rfl⟩ := Prod.mk.inj ran
    exact .inl ⟨rfl, rfl⟩
  · rw [taken] at ran
    obtain ⟨rfl, rfl⟩ := Prod.mk.inj ran
    exact .inr ⟨rfl, takesWithin_addName (below low) (Nat.le_trans above high)
      (Nat.lt_of_le_of_lt above inside) braced⟩

end Names

section Kept

theorem isQuote_of_isWord {c : Char} (word : isWord c) : isQuote c = false := by
  rw [← Bool.not_eq_true]
  intro quote
  rw [isQuote, Bool.or_eq_true, beq_iff_eq, beq_iff_eq] at quote
  rcases quote with rfl | rfl
  · exact absurd word (by decide)
  · exact absurd word (by decide)

variable (word : ∀ c ∈ symbol.toList, isWord c) (free : '\x7d' ∉ module.toList)

include free

theorem alike_comma (line : String) :
    namesModule module (stripEnd line ++ ",") = namesModule module line ∧
      beginsImport (stripEnd line ++ ",") = beginsImport line := by
  obtain ⟨gone, gives⟩ := gives_comma line
  refine ⟨gives.namesModule_eq free, gives.beginsImport_eq ?_⟩
  intro c here blank
  obtain rfl : ',' = c := Option.mem_some.mp here
  exact absurd blank (by decide)

include word

theorem alike_first (braced : lastBrace? line = some (head, tail))
    (expects : expectsName (stripEnd head)) :
    namesModule module (stripEnd head ++ " " ++ symbol ++ " " ++ tail) = namesModule module line ∧
      beginsImport (stripEnd head ++ " " ++ symbol ++ " " ++ tail) = beginsImport line := by
  obtain ⟨gone, rest, -, gives⟩ :=
    gives_first braced fun c member => isQuote_of_isWord (word c member)
  refine ⟨gives.namesModule_eq free, gives.beginsImport_eq ?_⟩
  intro _ _ _
  have stripped : (stripEnd head).toList = dropEndBlanks head.toList := String.toList_ofList
  rw [expectsName, endsWith, endsWith, stripped, Bool.or_eq_true, List.isSuffixOf_iff_suffix,
    List.isSuffixOf_iff_suffix] at expects
  rcases expects with comma | brace
  · exact ⟨',', comma.subset (by simp), by decide⟩
  · exact ⟨'\x7b', brace.subset (by simp), by decide⟩

theorem alike_next (braced : lastBrace? line = some (head, tail)) :
    namesModule module (stripEnd head ++ ", " ++ symbol ++ " " ++ tail) = namesModule module line ∧
      beginsImport (stripEnd head ++ ", " ++ symbol ++ " " ++ tail) = beginsImport line := by
  obtain ⟨gone, rest, -, gives⟩ :=
    gives_next braced fun c member => isQuote_of_isWord (word c member)
  refine ⟨gives.namesModule_eq free, gives.beginsImport_eq ?_⟩
  intro c here blank
  obtain rfl : ',' = c := Option.mem_some.mp here
  exact absurd blank (by decide)

omit free

/-- A symbol on a line of its own names no module. -/
theorem namesModule_ownLine (text : String) :
    namesModule module (indentOf text ++ symbol ++ ",") = false := by
  rw [String.append_assoc, namesModule_indent (isIndent_indentOf _)]
  apply namesModule_of_plain
  intro c member
  rw [String.toList_append, List.mem_append] at member
  rcases member with letter | comma
  · exact isQuote_of_isWord (word c letter)
  · rw [List.mem_singleton.mp comma]
    decide

/-- It begins no import, unless the symbol does. -/
theorem beginsImport_ownLine (named : startsWith symbol "import" = false) (text : String) :
    beginsImport (indentOf text ++ symbol ++ ",") = false := by
  have bare : skipBlanks (symbol.toList ++ [',']) = symbol.toList ++ [','] := by
    cases letters : symbol.toList with
    | nil => decide
    | cons c rest =>
      have letter := word c (by simp [letters])
      apply List.dropWhile_cons_of_neg
      intro blank
      rw [isWord_eq_false_of_isBlank blank] at letter
      cases letter
  have stripped :
      (stripStart (indentOf text ++ symbol ++ ",")).toList = symbol.toList ++ [','] := by
    have parts : (indentOf text ++ symbol ++ ",").toList =
        (indentOf text).toList ++ (symbol.toList ++ [',']) := by simp
    calc (stripStart (indentOf text ++ symbol ++ ",")).toList
        = skipBlanks (indentOf text ++ symbol ++ ",").toList := String.toList_ofList
      _ = skipBlanks (symbol.toList ++ [',']) := by
          rw [parts, skipBlanks_append (isIndent_indentOf text)]
      _ = symbol.toList ++ [','] := bare
  rw [← Bool.not_eq_true, startsWith, List.isPrefixOf_iff_prefix] at named
  rw [← Bool.not_eq_true, beginsImport, startsWith, List.isPrefixOf_iff_prefix, stripped,
    List.prefix_concat_iff, not_or]
  refine ⟨?_, named⟩
  intro same
  have ends := congrArg List.getLast? same
  rw [List.getLast?_concat] at ends
  exact absurd ends (by decide)

end Kept

section Taken

/-- The import is still where it was, and a line longer where the symbol has got one. -/
theorem TakesSymbol.importAt (takes : TakesSymbol symbol old new)
    (word : ∀ c ∈ symbol.toList, isWord c) (named : startsWith symbol "import" = false)
    (free : '\x7d' ∉ module.toList) (low : start ≤ above.length)
    (high : above.length + old.length ≤ last + 1)
    (found : ImportAt module (above ++ old ++ below) start last) :
    ImportAt module (above ++ new ++ below) start (last + (new.length - old.length)) := by
  cases takes with
  | @own line previous text head tail kept braced alone =>
    have alike : namesModule module previous = namesModule module line ∧
        beginsImport previous = beginsImport line := by
      rcases kept with rfl | rfl
      · exact ⟨rfl, rfl⟩
      · exact alike_comma free line
    have parts : above ++ [line, text] ++ below = above ++ [line] ++ text :: below := by simp
    have size : (above ++ [previous]).length = above.length + 1 := by simp
    have room : above.length + 2 ≤ last + 1 := high
    rw [parts] at found
    have made := (found.replace alike.1 alike.2).insert (by omega) (by omega)
      (namesModule_ownLine word previous) (beginsImport_ownLine word named previous)
    simpa using made
  | first braced expects =>
    obtain ⟨names, begins⟩ := alike_first word free braced expects
    exact found.replace names begins
  | next braced =>
    obtain ⟨names, begins⟩ := alike_next word free braced
    exact found.replace names begins

/-- The symbol stands apart on one of the lines. -/
theorem TakesSymbol.apart (takes : TakesSymbol symbol old new) :
    ∃ line ∈ new, StandsApart symbol line.toList := by
  have space : isWord ' ' = false := by decide
  cases takes with
  | @own line previous text head tail kept braced alone =>
    refine ⟨_, List.mem_cons_of_mem _ (List.mem_cons_self ..), (indentOf previous).toList, [','],
      by simp, ?_, by decide⟩
    cases ends : (indentOf previous).toList.getLast? with
    | none => rfl
    | some c =>
      have blank := isIndent_indentOf previous c (List.mem_of_getLast? ends)
      exact isWord_eq_false_of_isBlank blank
  | @first line head tail braced expects =>
    refine ⟨_, List.mem_singleton_self _, (stripEnd head).toList ++ [' '], ' ' :: tail.toList,
      by simp, ?_, space⟩
    rw [List.getLast?_concat]
    exact space
  | @next line head tail braced =>
    refine ⟨_, List.mem_singleton_self _, (stripEnd head).toList ++ [','] ++ [' '],
      ' ' :: tail.toList, by simp, ?_, space⟩
    rw [List.getLast?_concat]
    exact space

/-- What is written in a text, without blanks. -/
def inkOf (text : List Char) : List Char := text.filter (!isBlank ·)

theorem inkOf_append (front back : List Char) : inkOf (front ++ back) = inkOf front ++ inkOf back :=
  List.filter_append ..

theorem inkOf_of_blank (blank : ∀ c ∈ text, isBlank c) : inkOf text = [] := by
  apply List.filter_eq_nil_iff.mpr
  intro c member
  simp [blank c member]

theorem inkOf_of_word (word : ∀ c ∈ text, isWord c) : inkOf text = text := by
  apply List.filter_eq_self.mpr
  intro c member
  rw [Bool.not_eq_true', ← Bool.not_eq_true]
  intro blank
  have letter := word c member
  rw [isWord_eq_false_of_isBlank blank] at letter
  cases letter

/-- In the ink of the lines, the symbol comes right in front of a brace, with a comma on either side
or none. -/
def WritesSymbol (symbol : String) (old new : List Char) : Prop :=
  ∃ front comma comma' back, inkOf old = front ++ '\x7d' :: back ∧
    inkOf new = front ++ comma ++ symbol.toList ++ comma' ++ '\x7d' :: back ∧
    (comma = [] ∨ comma = [',']) ∧ (comma' = [] ∨ comma' = [','])

theorem TakesSymbol.writes (takes : TakesSymbol symbol old new)
    (word : ∀ c ∈ symbol.toList, isWord c) :
    WritesSymbol symbol (old.flatMap (·.toList)) (new.flatMap (·.toList)) := by
  have plain := fun c member => isQuote_of_isWord (word c member)
  have letters := inkOf_of_word word
  have brace (rest : List Char) : inkOf ('\x7d' :: rest) = '\x7d' :: inkOf rest :=
    List.filter_cons_of_pos (by decide)
  have comma (rest : List Char) : inkOf (',' :: rest) = ',' :: inkOf rest :=
    List.filter_cons_of_pos (by decide)
  have space (rest : List Char) : inkOf (' ' :: rest) = inkOf rest :=
    List.filter_cons_of_neg (by decide)
  cases takes with
  | @own line previous text head tail kept braced alone =>
    obtain ⟨mark, written, few⟩ : ∃ mark, inkOf previous.toList = inkOf line.toList ++ mark ∧
        (mark = [] ∨ mark = [',']) := by
      rcases kept with rfl | rfl
      · exact ⟨[], (List.append_nil _).symm, .inl rfl⟩
      · obtain ⟨gone, gives⟩ := gives_comma line
        refine ⟨[','], ?_, .inr rfl⟩
        rw [gives.before, gives.after, inkOf_append, inkOf_append, inkOf_append, inkOf_append,
          inkOf_of_blank gives.blank, comma]
        simp [inkOf]
    obtain ⟨after, whole, -⟩ := lastBrace?_split braced
    have closes : inkOf text.toList = '\x7d' :: inkOf after := by
      rw [whole, inkOf_append, brace, inkOf_of_blank (List.all_eq_true.mp alone), List.nil_append]
    have own : inkOf (indentOf previous ++ symbol ++ ",").toList = symbol.toList ++ [','] := by
      rw [String.toList_append, String.toList_append, inkOf_append, inkOf_append, letters,
        inkOf_of_blank (isIndent_indentOf previous), List.nil_append]
      exact congrArg (symbol.toList ++ ·) (comma [])
    refine ⟨inkOf line.toList, mark, [','], inkOf after, ?_, ?_, few, .inr rfl⟩
    · rw [List.flatMap_cons, List.flatMap_singleton, inkOf_append, closes]
    · rw [List.flatMap_cons, List.flatMap_cons, List.flatMap_singleton, inkOf_append, inkOf_append,
        written, own, closes]
      simp
  | @first line head tail braced expects =>
    obtain ⟨gone, rest, -, gives⟩ := gives_first braced plain
    refine ⟨inkOf (dropEndBlanks head.toList), [], [], inkOf rest, ?_, ?_, .inl rfl, .inl rfl⟩
    · rw [List.flatMap_singleton, gives.before, inkOf_append, inkOf_append, brace,
        inkOf_of_blank gives.blank, List.append_nil]
    · rw [List.flatMap_singleton, gives.after, inkOf_append, inkOf_append, brace, space,
        inkOf_append, letters, space]
      simp [inkOf]
  | @next line head tail braced =>
    obtain ⟨gone, rest, -, gives⟩ := gives_next braced plain
    refine ⟨inkOf (dropEndBlanks head.toList), [','], [], inkOf rest, ?_, ?_, .inr rfl, .inl rfl⟩
    · rw [List.flatMap_singleton, gives.before, inkOf_append, inkOf_append, brace,
        inkOf_of_blank gives.blank, List.append_nil]
    · rw [List.flatMap_singleton, gives.after, inkOf_append, inkOf_append, brace, comma, space,
        inkOf_append, letters, space]
      simp [inkOf]

theorem WritesSymbol.around {old new : List Char} (writes : WritesSymbol symbol old new)
    (above below : List Char) :
    WritesSymbol symbol (above ++ old ++ below) (above ++ new ++ below) := by
  obtain ⟨front, comma, comma', back, before, after, few, few'⟩ := writes
  refine ⟨inkOf above ++ front, comma, comma', back ++ inkOf below, ?_, ?_, few, few'⟩
  · rw [inkOf_append, inkOf_append, before]
    simp
  · rw [inkOf_append, inkOf_append, after]
    simp

end Taken

section Places

/-- The lines of an import. -/
def importLines (lines : List String) (start last : Nat) : List String :=
  (lines.take (last + 1)).drop start

theorem importLines_parts {more : Nat} (low : start ≤ above.length)
    (high : above.length + old.length + more = last + 1) :
    importLines (above ++ old ++ below) start last =
      above.drop start ++ old ++ below.take more := by
  have size : (above ++ old).length + more = last + 1 := by rw [List.length_append, high]
  rw [importLines, ← size, List.take_length_add_append, List.append_assoc,
    List.drop_append_of_le_length low, List.append_assoc]

theorem ImportAt.letter (found : ImportAt module lines start last) :
    ∃ c ∈ (join "\n" (importLines lines start last)).toList, isWord c := by
  obtain ⟨line, present, names⟩ := (Option.any_eq_true _ _).mp found.names.2.1
  obtain ⟨_, back, split, ⟨front, c, blanks, mark, rfl, -⟩, -⟩ := namesModule_iff.mp names
  have order : start ≤ (lines.take last).length := by
    rw [List.length_take_of_le (Nat.le_of_lt found.last_lt)]
    exact found.order
  refine ⟨'f', ?_, by decide⟩
  rw [importLines, List.take_add_one, present, Option.toList_some,
    List.drop_append_of_le_length order, toList_join_append (List.cons_ne_nil _ _), join,
    String.intercalate_singleton, split]
  simp

theorem ensureImport_of_importAt (found : ImportAt module buffer.lines start last) :
    ensureImport buffer symbol module =
      if holdsWord symbol (join "\n" (importLines buffer.lines start last)).toList then
        (buffer, .alreadyThere)
      else extendImport buffer start symbol last := by
  obtain ⟨first, begins⟩ := importAt_iff.mp found
  rw [ensureImport, first]
  simp only [begins]
  rfl

/-- An import holds a symbol that stands apart on one of its lines. -/
theorem ImportAt.holdsWord (found : ImportAt module lines start last)
    (word : ∀ c ∈ symbol.toList, isWord c) (member : line ∈ importLines lines start last)
    (apart : StandsApart symbol line.toList) :
    holdsWord symbol (join "\n" (importLines lines start last)).toList = true := by
  obtain ⟨above, below, split⟩ := List.append_of_mem member
  have here : StandsApart symbol (join "\n" (importLines lines start last)).toList := by
    rw [split]
    exact apart.join
  exact here.holdsWord word found.letter

end Places

section Statements

theorem namesModule_statement (symbol module : String) :
    namesModule module (importStatement symbol module) = true := by
  obtain ⟨lead, source, plain⟩ : ∃ lead, (importSource module).toList = lead ++ module.toList ∧
      ∀ c ∈ lead, isQuote c = false := by
    rw [importSource]
    split
    · exact ⟨[], rfl, by simp⟩
    · exact ⟨"../".toList, String.toList_append, by simp; decide⟩
  refine namesModule_iff.mpr ⟨("import \x7b " ++ symbol ++ " \x7d from '").toList,
    (importSource module ++ "';").toList, by simp [importStatement], ?_, ?_⟩
  · exact ⟨("import \x7b " ++ symbol ++ " \x7d ").toList, ' ', [], '\'', by simp, by decide,
      by simp, by decide⟩
  · exact ⟨lead, '\'', [';'], by simp [source], plain, by decide⟩

theorem beginsImport_statement (symbol module : String) :
    beginsImport (importStatement symbol module) = true :=
  beginsImport_iff.mpr ⟨[], (" \x7b " ++ symbol ++ " \x7d from '" ++ importSource module ++
    "';").toList, by simp [importStatement], by simp⟩

theorem standsApart_statement (symbol module : String) :
    StandsApart symbol (importStatement symbol module).toList :=
  ⟨"import \x7b ".toList, (" \x7d from '" ++ importSource module ++ "';").toList,
    by simp [importStatement], by decide, by simp; decide⟩

/-- A new statement is the import of its module, where none was above. -/
theorem importAt_statement (free : ∀ line ∈ above, namesModule module line = false) :
    ImportAt module (above ++ importStatement symbol module :: below) above.length
      above.length := by
  have here : (above ++ importStatement symbol module :: below)[above.length]? =
      some (importStatement symbol module) := by simp
  constructor
  · refine ⟨Nat.zero_le _, ?_, ?_⟩
    · rw [here, Option.any_some]
      exact namesModule_statement symbol module
    · intro between _ low
      rw [List.getElem?_append_left low, List.getElem?_eq_getElem low, Option.any_some,
        free _ (List.getElem_mem low)]
      exact Bool.false_ne_true
  · exact Nat.le_refl _
  · right
    rw [here, Option.any_some]
    exact beginsImport_statement symbol module
  · intro between low high
    exact absurd (Nat.lt_of_lt_of_le low high) (Nat.lt_irrefl _)

theorem ensureImport_of_statement (word : ∀ c ∈ symbol.toList, isWord c)
    (free : ∀ line ∈ above, namesModule module line = false)
    (parts : buffer.lines = above ++ importStatement symbol module :: below) :
    ensureImport buffer symbol module = (buffer, .alreadyThere) := by
  have found : ImportAt module buffer.lines above.length above.length := by
    rw [parts]
    exact importAt_statement free
  have member : importStatement symbol module ∈
      importLines buffer.lines above.length above.length := by
    rw [parts, importLines, List.take_length_add_append, List.drop_left]
    exact List.mem_cons_self ..
  rw [ensureImport_of_importAt found,
    if_pos (found.holdsWord word member (standsApart_statement symbol module))]

theorem lastImportFrom_none {index : Nat} {inside : Bool} {last : Option Nat}
    (none : lastImportFrom index inside last lines = none) :
    last = .none ∧ (lines ≠ [] → inside = false) ∧ ∀ line ∈ lines, startsImport line = false := by
  induction lines generalizing index inside last with
  | nil => exact ⟨none, fun filled => absurd rfl filled, by simp⟩
  | cons line rest ih =>
    rw [lastImportFrom] at none
    split at none
    · split at none
      · obtain ⟨absent, -⟩ := ih none
        cases absent
      · next more =>
        -- an import that is open here ends on the last line at the latest
        have filled : rest ≠ [] := by
          rintro rfl
          simp at more
        obtain ⟨-, closed, -⟩ := ih none
        cases closed filled
    · next outside =>
      rw [Bool.not_eq_true, Bool.or_eq_false_iff] at outside
      obtain ⟨absent, -, others⟩ := ih none
      refine ⟨absent, fun _ => outside.1, ?_⟩
      intro other member
      rcases List.mem_cons.mp member with rfl | later
      · exact outside.2
      · exact others other later

/-- A new import statement goes in: behind the last import, or with an empty line behind it at the
top of a file without imports. -/
inductive AddsStatement (statement : String) (lines : List String) : List String → Prop where
  | top (none : ∀ line ∈ lines, startsImport line = false) :
      AddsStatement statement lines (statement :: "" :: lines)
  | behind {line : Nat} (found : lastImportLine lines = some line) :
      AddsStatement statement lines (putLines (line + 1) [statement] lines)

theorem addsStatement_addStatement (buffer : Buffer) (symbol module : String) :
    AddsStatement (importStatement symbol module) buffer.lines
      (addStatement buffer symbol module).lines := by
  rw [addStatement]
  cases answer : lastImportLine buffer.lines with
  | none =>
    obtain ⟨-, -, none⟩ := lastImportFrom_none answer
    exact .top none
  | some line => exact .behind answer

theorem AddsStatement.split {statement : String} {lines' : List String}
    (adds : AddsStatement statement lines lines') :
    ∃ above below, lines' = above ++ statement :: below ∧ ∀ line ∈ above, line ∈ lines := by
  cases adds with
  | top none => exact ⟨[], _, rfl, by simp⟩
  | behind found => exact ⟨_, _, List.append_assoc .., fun _ member => List.mem_of_mem_take member⟩

end Statements

/-- The import takes the symbol: it stands where it stood, what is above and below it is the same,
and nothing but the symbol and commas is written in it. -/
structure ExtendsImport (symbol module : String) (start last last' : Nat)
    (lines lines' : List String) : Prop where
  found : ImportAt module lines start last
  still : ImportAt module lines' start last'
  above : lines'.take start = lines.take start
  below : lines'.drop (last' + 1) = lines.drop (last + 1)
  absent : holdsWord symbol (join "\n" (importLines lines start last)).toList = false
  present : holdsWord symbol (join "\n" (importLines lines' start last')).toList = true
  writes : WritesSymbol symbol ((importLines lines start last).flatMap (·.toList))
    ((importLines lines' start last').flatMap (·.toList))

section Once

variable (word : ∀ c ∈ symbol.toList, isWord c) (named : startsWith symbol "import" = false)
  (free : '\x7d' ∉ module.toList)

include word named free

theorem extendsImport_of_takesWithin (found : ImportAt module buffer.lines start last)
    (absent : holdsWord symbol (join "\n" (importLines buffer.lines start last)).toList = false)
    (within : TakesWithin symbol start last buffer.lines after.lines) :
    ∃ last', ExtendsImport symbol module start last last' buffer.lines after.lines := by
  obtain ⟨above, old, new, below, parts, parts', takes, low, high⟩ := within
  obtain ⟨more, room⟩ := Nat.exists_eq_add_of_le high
  have longer : old.length ≤ new.length := by cases takes <;> simp
  have room' : above.length + new.length + more = last + (new.length - old.length) + 1 := by omega
  have block : importLines buffer.lines start last =
      above.drop start ++ old ++ below.take more := by
    rw [parts]
    exact importLines_parts low room.symm
  have block' : importLines after.lines start (last + (new.length - old.length)) =
      above.drop start ++ new ++ below.take more := by
    rw [parts']
    exact importLines_parts low room'
  have still : ImportAt module after.lines start (last + (new.length - old.length)) := by
    rw [parts] at found
    rw [parts']
    exact takes.importAt word named free low high found
  obtain ⟨line, member, apart⟩ := takes.apart
  have inside : line ∈ importLines after.lines start (last + (new.length - old.length)) := by
    rw [block']
    exact List.mem_append_left _ (List.mem_append_right _ member)
  refine ⟨_, found, still, ?_, ?_, absent, still.holdsWord word inside apart, ?_⟩
  · rw [parts, parts', List.append_assoc, List.append_assoc, List.take_append_of_le_length low,
      List.take_append_of_le_length low]
  · have size : (above ++ old).length + more = last + 1 := by
      rw [List.length_append]
      exact room.symm
    have size' : (above ++ new).length + more = last + (new.length - old.length) + 1 := by
      rw [List.length_append]
      exact room'
    rw [parts, parts', ← size, ← size', List.drop_length_add_append, List.drop_length_add_append]
  · rw [block, block']
    simp only [List.flatMap_append]
    exact (takes.writes word).around _ _

/-- The first time, a statement goes in or the import of the module takes the symbol, or the file
stays as it is; when anything went in, the second time the symbol is there. -/
theorem ensureImport_once (made : ensureImport buffer symbol module = (after, outcome)) :
    (outcome ≠ .added → after = buffer) ∧
      (outcome = .added → ensureImport after symbol module = (after, .alreadyThere) ∧
        ((∀ line ∈ buffer.lines, namesModule module line = false) ∧
            AddsStatement (importStatement symbol module) buffer.lines after.lines ∨
          ∃ start last last',
            ExtendsImport symbol module start last last' buffer.lines after.lines)) := by
  cases named' : firstLine (namesModule module) 0 buffer.lines with
  | none =>
    have none := firstLine_eq_none_iff.mp named'
    rw [ensureImport, named'] at made
    obtain ⟨rfl, rfl⟩ := Prod.mk.inj made
    have adds := addsStatement_addStatement buffer symbol module
    obtain ⟨above, below, parts, old⟩ := adds.split
    refine ⟨fun other => absurd rfl other, fun _ => ⟨?_, .inl ⟨none, adds⟩⟩⟩
    exact ensureImport_of_statement word (fun line member => none line (old line member)) parts
  | some last =>
    have found : ImportAt module buffer.lines (importStart buffer.lines last) last :=
      importAt_iff.mpr ⟨named', rfl⟩
    rw [ensureImport_of_importAt found] at made
    split at made
    · obtain ⟨rfl, rfl⟩ := Prod.mk.inj made
      exact ⟨fun _ => rfl, fun other => absurd other (by decide)⟩
    · next absent =>
      rw [Bool.not_eq_true] at absent
      rcases extendImport_cases found.order (Nat.le_refl _) found.last_lt made with
        ⟨rfl, rfl⟩ | ⟨rfl, within⟩
      · exact ⟨fun _ => rfl, fun other => absurd other (by decide)⟩
      · obtain ⟨last', extended⟩ := extendsImport_of_takesWithin word named free found absent within
        refine ⟨fun other => absurd rfl other, fun _ => ⟨?_, .inr ⟨_, _, _, extended⟩⟩⟩
        rw [ensureImport_of_importAt extended.still, if_pos extended.present]

end Once

/-- A list of names over several lines, and the last name has no comma. -/
def listedImport : Buffer :=
  ⟨["import \x7b", "  NARRATOR", "\x7d from './movement-templates';", "export const x = 1;"], []⟩

theorem ensureImport_once_listed :
    startsWith "CELEBRATION" "import" = false ∧ ∃ after : Buffer,
      ensureImport listedImport "CELEBRATION" templateModule = (after, .added) ∧
      ensureImport after "CELEBRATION" templateModule = (after, .alreadyThere) ∧
      after.lines = ["import \x7b", "  NARRATOR,", "  CELEBRATION,",
        "\x7d from './movement-templates';", "export const x = 1;"] := by
  have added : (ensureImport listedImport "CELEBRATION" templateModule).2 = .added := by
    decide +kernel
  have made : ensureImport listedImport "CELEBRATION" templateModule =
      ((ensureImport listedImport "CELEBRATION" templateModule).1, .added) := by
    rw [← added]
  have word : ∀ c ∈ "CELEBRATION".toList, isWord c = true := List.all_eq_true.mp (by decide)
  refine ⟨by decide, _, made, ?_, by decide +kernel⟩
  exact ((ensureImport_once word (by decide) (by decide) made).2 rfl).1

end Stagecraft
