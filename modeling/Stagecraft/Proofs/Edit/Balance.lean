import Stagecraft.Proofs.Edit.EntranceTokens
import Stagecraft.Proofs.Record.Characters

/-!
The brackets of a run. A line that is read as an entrance holds no brackets but those in its names.
The call of a group holds the same ones besides its own, which are balanced, and the default target,
which it leaves out, has none. So a run counts as much as what takes its place, whatever brackets
there are in its names and its comments.
-/

namespace Stagecraft

variable {text rest behind : List Char} {name line indent : String} {side : Side}
  {entrance : Entrance} {run : List Entrance} {calls : List (Side × String × String)}
  {lines : List String}

/-- The characters of the names in a call for an entrance. -/
def namesIn (call : Side × String × String) : List Char := call.2.1.toList ++ call.2.2.toList

section Characters

theorem charDelta_square {c : Char} (opens : c ≠ '[') (closes : c ≠ ']') :
    charDelta .square c = 0 := by
  have first : Brackets.square.opening.toList ≠ [c] := fun same => opens (List.cons.inj same).1.symm
  have second : Brackets.square.closing.toList ≠ [c] :=
    fun same => closes (List.cons.inj same).1.symm
  rw [charDelta, if_neg first, if_neg second]

theorem textDelta_blank (blank : ∀ c ∈ text, isBlank c) : textDelta .square text = 0 := by
  apply textDelta_eq_zero
  intro c member
  have white := blank c member
  exact charDelta_square (ne_of_isBlank white (by decide)) (ne_of_isBlank white (by decide))

theorem textDelta_skipBlanks (text : List Char) :
    textDelta .square (skipBlanks text) = textDelta .square text := by
  have lead : textDelta .square (text.takeWhile isBlank) = 0 :=
    textDelta_blank fun _ member => List.mem_takeWhile_imp member
  have whole := textDelta_append .square (text.takeWhile isBlank) (skipBlanks text)
  rw [takeWhile_append_skipBlanks, lead, Int.zero_add] at whole
  exact whole.symm

theorem textDelta_after {word : String} (flat : textDelta .square word.toList = 0)
    (found : afterWord? word text = some rest) :
    textDelta .square text = textDelta .square rest := by
  rw [eq_append_of_after? found, textDelta_append, flat, Int.zero_add]

theorem textDelta_quoteChars (text : List Char) :
    textDelta .square (quoteChars text) = textDelta .square text := by
  have inner : textDelta .square (text.flatMap escapeQuote) = textDelta .square text := by
    induction text with
    | nil => rfl
    | cons c text ih =>
      have escaped : textDelta .square (escapeQuote c) = textDelta .square [c] := by
        rw [escapeQuote]
        split
        · exact Int.zero_add _
        · rfl
      rw [List.flatMap_cons, textDelta_append, ih, escaped, ← textDelta_append]
      rfl
  have first : textDelta .square ['\''] = 0 := by decide
  rw [quoteChars, ← List.singleton_append, textDelta_append, textDelta_append, inner, first]
  omega

theorem textDelta_defaultTarget (side : Side) :
    textDelta .square side.defaultTarget.toList = 0 := by
  cases side with
  | left => decide
  | right => decide

end Characters

section Entrances

theorem textDelta_matchedName (read : matchedName? text = some (name, rest)) :
    textDelta .square text = textDelta .square name.toList + textDelta .square rest := by
  obtain ⟨mark, quote, rfl, -, -⟩ := matchedName?_split read
  have flat : charDelta .square mark = 0 := by
    rw [isQuote, Bool.or_eq_true, beq_iff_eq, beq_iff_eq] at quote
    rcases quote with rfl | rfl
    · decide
    · decide
  simp only [textDelta, textDelta_append, flat, Int.zero_add]

/-- A target that is not written counts as much as the default one. -/
theorem textDelta_readTarget (side : Side) (text : List Char) :
    textDelta .square text =
      textDelta .square ((readTarget text).1.getD side.defaultTarget).toList +
        textDelta .square (readTarget text).2 := by
  rw [readTarget]
  split
  · next target rest found =>
    obtain ⟨behind, comma, name⟩ := Option.bind_eq_some_iff.mp found
    rw [← textDelta_skipBlanks text, textDelta_after (by decide) comma,
      ← textDelta_skipBlanks behind, textDelta_matchedName name]
    rfl
  · rw [Option.getD_none, textDelta_defaultTarget, Int.zero_add]

theorem textDelta_ending (ends : (dropComma (skipBlanks behind)).all isBlank) :
    textDelta .square behind = 0 := by
  have flat := textDelta_blank (List.all_eq_true.mp ends)
  rw [← textDelta_skipBlanks]
  rw [dropComma] at flat
  cases found : afterWord? "," (skipBlanks behind) with
  | none => rwa [found] at flat
  | some rest =>
    rw [found] at flat
    rw [textDelta_after (by decide) found]
    exact flat

/-- A line that is read as an entrance counts as much as its names. -/
theorem lineDelta_entrance {call : Side × String × String} (read : readEntrance? line = some call) :
    lineDelta .square line = textDelta .square (namesIn call) := by
  obtain ⟨side, character, target⟩ := call
  obtain ⟨opened, sided, inside, named, behind, word, label, paren, name, filled, close, ends⟩ :=
    @readEntrance?_parts line ⟨0, side, character, target⟩ read
  have front : textDelta .square line.toList = textDelta .square sided := by
    have flat : textDelta .square side.label.toList = 0 := by
      cases side with
      | left => decide
      | right => decide
    rw [← textDelta_skipBlanks, textDelta_after (by decide) word, readSide?_split label,
      textDelta_append, flat, Int.zero_add]
  have names : textDelta .square sided = textDelta .square character.toList +
      (textDelta .square target.toList + textDelta .square (readTarget named).2) := by
    have second := textDelta_readTarget side named
    rw [filled] at second
    rw [textDelta_after (by decide) paren, ← textDelta_skipBlanks, textDelta_matchedName name,
      second]
  have back : textDelta .square (readTarget named).2 = 0 := by
    rw [← textDelta_skipBlanks, textDelta_after (by decide) close, textDelta_ending ends]
  rw [lineDelta_eq_textDelta Brackets.single_square, front, names, back, namesIn, textDelta_append,
    Int.add_zero]

end Entrances

section Groups

theorem textDelta_groupEntry (side : Side) (entrance : Entrance) :
    textDelta .square (groupEntry side entrance).toList =
      textDelta .square (namesIn entrance.call) := by
  have names : namesIn entrance.call = entrance.character.toList ++ entrance.target.toList := rfl
  rw [groupEntry, names, textDelta_append]
  split
  · next default =>
    have parts : ("[" ++ quote entrance.character ++ "]").toList =
        ['['] ++ quoteChars entrance.character.toList ++ [']'] := by
      simp [quote]
    rw [parts, textDelta_append, textDelta_append, textDelta_quoteChars, default,
      textDelta_defaultTarget]
    have outer : textDelta .square ['['] + textDelta .square [']'] = 0 := by decide
    omega
  · have parts : ("[" ++ quote entrance.character ++ ", " ++ quote entrance.target ++ "]").toList =
        ['['] ++ quoteChars entrance.character.toList ++ [',', ' '] ++
          quoteChars entrance.target.toList ++ [']'] := by
      simp [quote]
    simp only [parts, textDelta_append, textDelta_quoteChars]
    have outer : textDelta .square ['['] + textDelta .square [',', ' '] +
        textDelta .square [']'] = 0 := by decide
    omega

theorem textDelta_groupEntries (side : Side) (run : List Entrance) :
    textDelta .square (join ", " (run.map (groupEntry side))).toList =
      textDelta .square ((run.map Entrance.call).flatMap namesIn) := by
  induction run using membersLexemes.induct with
  | case1 => rfl
  | case2 last =>
    have one : join ", " ([last].map (groupEntry side)) = groupEntry side last := by
      simp [join]
    rw [one, textDelta_groupEntry]
    simp
  | case3 entrance next rest ih =>
    have split : (join ", " ((entrance :: next :: rest).map (groupEntry side))).toList =
        (groupEntry side entrance).toList ++ ([',', ' '] ++
          (join ", " ((next :: rest).map (groupEntry side))).toList) := by
      simp [join]
    have comma : textDelta .square [',', ' '] = 0 := by decide
    rw [split, textDelta_append, textDelta_append, ih, comma, Int.zero_add, textDelta_groupEntry,
      ← textDelta_append]
    rfl

theorem toList_groupCall (side : Side) (run : List Entrance) (indent : String) :
    (groupCall side run indent).toList = indent.toList ++ ("...".toList ++
      side.groupDirective.toList ++ ['(', '['] ++
        (join ", " (run.map (groupEntry side))).toList ++ [']', ')', ',']) := by
  simp [groupCall]

/-- The call of a group counts as much as its names. -/
theorem lineDelta_groupCall (blank : IsIndent indent) :
    lineDelta .square (groupCall side run indent) =
      textDelta .square ((run.map Entrance.call).flatMap namesIn) := by
  have directive : textDelta .square ("...".toList ++ side.groupDirective.toList) = 0 := by
    cases side with
    | left => decide
    | right => decide
  rw [lineDelta_eq_textDelta Brackets.single_square, toList_groupCall,
    textDelta_append, textDelta_blank blank, textDelta_append, textDelta_append, textDelta_append,
    directive, textDelta_groupEntries]
  have outer : textDelta .square ['(', '['] + textDelta .square [']', ')', ','] = 0 := by decide
  omega

end Groups

section Runs

/-- Entrances and fillers count as much as the names and the comments among them. -/
theorem totalDelta_content
    (content : ∀ line ∈ lines, (readEntrance? line).isSome ∨ isFiller line = true) :
    totalDelta .square lines = totalDelta .square (lines.filter isComment) +
      textDelta .square ((lines.filterMap readEntrance?).flatMap namesIn) := by
  induction lines with
  | nil => rfl
  | cons line lines ih =>
    have rest := ih fun other member => content other (List.mem_cons_of_mem _ member)
    rw [totalDelta, rest]
    cases read : readEntrance? line with
    | some call =>
      have plain : isComment line = false := by
        cases comment : isComment line with
        | false => rfl
        | true =>
          rw [readEntrance?_filler (by rw [isFiller, comment, Bool.or_true])] at read
          cases read
      rw [List.filter_cons_of_neg (by simp [plain]), List.filterMap_cons_some read,
        List.flatMap_cons, textDelta_append, lineDelta_entrance read]
      omega
    | none =>
      rw [List.filterMap_cons_none read]
      by_cases comment : isComment line = true
      · rw [List.filter_cons_of_pos comment, totalDelta, Int.add_assoc]
      · have filler : isFiller line = true := by simpa [read] using content line (by simp)
        have blank : isBlankText line = true := by simpa [isFiller, comment] using filler
        rw [List.filter_cons_of_neg comment, lineDelta_eq_textDelta Brackets.single_square,
          textDelta_blank (List.all_eq_true.mp blank), Int.zero_add]

/-- The lines of a run count as much as those that take their place. -/
theorem IsRun.totalDelta_mergedLines (isRun : IsRun lines run) :
    totalDelta .square (mergedLines lines run) = totalDelta .square (runLines lines run) := by
  have call : lineDelta .square (callOf lines run) =
      textDelta .square ((run.map Entrance.call).flatMap namesIn) := by
    obtain ⟨first, others, rfl⟩ := List.exists_cons_of_ne_nil isRun.filled
    exact lineDelta_groupCall (isIndent_indentOf _)
  obtain ⟨names, content⟩ := isRun.content
  rw [totalDelta_content content, names, mergedLines, totalDelta_append, totalDelta, call]
  simp [totalDelta]

end Runs

end Stagecraft
