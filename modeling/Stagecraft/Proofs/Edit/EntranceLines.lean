import Stagecraft.Proofs.Edit.EntranceTokens

/-!
How a line spells an entrance. The reader of entrance lines is told from a grammar of them: a line
is read as the entrance of a character just when it is made of the call for it, with blanks between
the parts and a comma behind it or none.
-/

namespace Stagecraft

variable {text rest blanks quoted : List Char} {name character target : String} {side : Side}
  {line : String} {c : Char}

def Blanks (text : List Char) : Prop := ∀ c ∈ text, isBlank c

/-- A name of one or more characters that are no quotes, between two quotes of one kind. -/
inductive Quotes (name : String) : List Char → Prop where
  | marked {mark : Char} (quote : isQuote mark) (filled : name ≠ "")
      (plain : ∀ c ∈ name.toList, ¬ isQuote c) : Quotes name (mark :: (name.toList ++ [mark]))

/-- What a call says of the target: nothing of the default one, else a comma and its name. -/
inductive SpellsTarget (side : Side) (target : String) : List Char → Prop where
  | default (same : target = side.defaultTarget) : SpellsTarget side target []
  | named {before after quoted : List Char} (blank : Blanks before) (blank' : Blanks after)
      (quotes : Quotes target quoted) :
      SpellsTarget side target (before ++ ',' :: (after ++ quoted))

/-- A line that holds the call for an entrance and nothing else but blanks and a comma. -/
inductive SpellsEntrance (side : Side) (character target : String) : List Char → Prop where
  | call {indent inner who aim before behind comma tail : List Char} (quotes : Quotes character who)
      (aims : SpellsTarget side target aim) (ends : comma = [] ∨ comma = [','])
      (blank : ∀ gap ∈ [indent, inner, before, behind, tail], Blanks gap) :
      SpellsEntrance side character target
        (indent ++ ("...ENTER_FROM_".toList ++ (side.label.toList ++ '(' :: (inner ++ (who ++
          (aim ++ (before ++ ')' :: (behind ++ (comma ++ tail)))))))))

theorem Quotes.starts (quotes : Quotes name quoted) :
    ∃ mark tail, quoted = mark :: tail ∧ isBlank mark = false := by
  cases quotes with
  | marked quote filled plain => exact ⟨_, _, rfl, (not_blank_of_isQuote quote).1⟩

theorem blanks_takeWhile (text : List Char) : Blanks (text.takeWhile isBlank) :=
  fun _ member => List.mem_takeWhile_imp member

theorem skipBlanks_of_blanks (blank : Blanks text) : skipBlanks text = [] :=
  List.dropWhile_eq_nil_iff.mpr blank

theorem skipBlanks_ink (ink : isBlank c = false) : skipBlanks (c :: rest) = c :: rest :=
  List.dropWhile_cons_of_neg (by simp [ink])

/-- A text is its leading blanks and what is read behind them. -/
theorem split_after {lead : String} {behind : List Char}
    (found : afterWord? lead (skipBlanks text) = some behind) :
    ∃ blanks, Blanks blanks ∧ text = blanks ++ (lead.toList ++ behind) := by
  refine ⟨text.takeWhile isBlank, blanks_takeWhile text, ?_⟩
  rw [← eq_append_of_after? found]
  exact (takeWhile_append_skipBlanks text).symm

section Reading

theorem matchedName?_iff : matchedName? text = some (name, rest) ↔
    ∃ quoted, Quotes name quoted ∧ text = quoted ++ rest := by
  constructor
  · intro read
    obtain ⟨mark, quote, whole, filled, plain⟩ := matchedName?_split read
    exact ⟨_, .marked quote filled plain, by simp [whole]⟩
  · intro parts
    obtain ⟨quoted, quotes, whole⟩ := parts
    cases quotes with
    | @marked mark quote filled plain =>
      obtain ⟨c, others, letters⟩ := List.exists_cons_of_ne_nil
        (mt String.toList_eq_nil_iff.mp filled)
      have known : String.ofList (c :: others) = name := by
        rw [← letters, String.ofList_toList]
      have plain' : ∀ d ∈ c :: others, (!isQuote d) = true := by
        intro d member
        rw [← letters] at member
        simpa using plain d member
      rw [whole, List.cons_append, List.append_assoc, List.singleton_append, matchedName?,
        quotedName?, letters, List.takeWhile_append_of_pos plain',
        List.dropWhile_append_of_pos plain', List.takeWhile_cons_of_neg (by simp [quote]),
        List.dropWhile_cons_of_neg (by simp [quote]), quote, List.append_nil]
      simp only [if_true, known]

/-- A quoted name is read behind blanks, whatever follows it. -/
theorem matchedName?_inner {inner : List Char} (blank : Blanks inner)
    (quotes : Quotes name quoted) :
    matchedName? (skipBlanks (inner ++ (quoted ++ rest))) = some (name, rest) := by
  obtain ⟨mark, tail, rfl, ink⟩ := quotes.starts
  rw [skipBlanks_append blank, List.cons_append, skipBlanks_ink ink]
  exact matchedName?_iff.mpr ⟨_, quotes, rfl⟩

theorem readSide?_iff : readSide? text = some (side, rest) ↔ text = side.label.toList ++ rest := by
  constructor
  · exact readSide?_split
  · intro split
    subst split
    cases side with
    | left =>
      have found : afterWord? "LEFT" (Side.left.label.toList ++ rest) = some rest :=
        after?_append _ _
      rw [readSide?, found]
    | right =>
      have absent : afterWord? "LEFT" (Side.right.label.toList ++ rest) = none :=
        after?_head_ne (by decide)
      have found : afterWord? "RIGHT" (Side.right.label.toList ++ rest) = some rest :=
        after?_append _ _
      rw [readSide?, absent, found]

/-- In front of a closing parenthesis the target is read as it is spelled. -/
theorem readTarget_spelled {aim before : List Char} (aims : SpellsTarget side target aim)
    (blank : Blanks before) :
    ∃ found, found.getD side.defaultTarget = target ∧ ∀ rest,
      readTarget (aim ++ (before ++ ')' :: rest)) = (found, before ++ ')' :: rest) := by
  cases aims with
  | default same =>
    refine ⟨none, same.symm, ?_⟩
    intro rest
    have absent : afterWord? "," (skipBlanks (before ++ ')' :: rest)) = none := by
      rw [skipBlanks_append blank, skipBlanks_ink (by decide)]
      exact after?_head_ne (by decide)
    rw [List.nil_append, readTarget, absent]
    rfl
  | named blank' blank'' quotes =>
    refine ⟨some target, rfl, ?_⟩
    intro rest
    have comma (behind : List Char) : afterWord? "," (',' :: behind) = some behind := rfl
    rw [List.append_assoc, List.cons_append, List.append_assoc, readTarget,
      skipBlanks_append blank', skipBlanks_ink (by decide), comma, Option.bind_some,
      matchedName?_inner blank'' quotes]

/-- What is read as a target is spelled so, and the rest is left. -/
theorem spelled_of_readTarget {named : List Char}
    (same : (readTarget named).1.getD side.defaultTarget = target) :
    ∃ aim, SpellsTarget side target aim ∧ named = aim ++ (readTarget named).2 := by
  rw [readTarget] at same ⊢
  split at same
  · next found rest read =>
    obtain ⟨behind, comma, name⟩ := Option.bind_eq_some_iff.mp read
    obtain ⟨before, blank, whole⟩ := split_after comma
    obtain ⟨quoted, quotes, inner⟩ := matchedName?_iff.mp name
    rw [Option.getD_some] at same
    subst same
    refine ⟨_, .named blank (blanks_takeWhile behind) quotes, ?_⟩
    calc
      named = before ++ ',' :: behind := whole
      _ = before ++ ',' :: (behind.takeWhile isBlank ++ skipBlanks behind) := by
        rw [takeWhile_append_skipBlanks]
      _ = _ := by
        rw [inner]
        simp
  · exact ⟨[], .default same.symm, rfl⟩

/-- Nothing but a comma and blanks stands at the end of a line. -/
theorem ends_iff : (dropComma (skipBlanks text)).all isBlank ↔
    ∃ behind comma tail, text = behind ++ (comma ++ tail) ∧ Blanks behind ∧
      (comma = [] ∨ comma = [',']) ∧ Blanks tail := by
  rw [dropComma]
  constructor
  · intro blank
    cases found : afterWord? "," (skipBlanks text) with
    | none =>
      rw [found] at blank
      refine ⟨_, [], _, (takeWhile_append_skipBlanks text).symm, blanks_takeWhile text, .inl rfl,
        ?_⟩
      exact List.all_eq_true.mp blank
    | some tail =>
      rw [found] at blank
      obtain ⟨behind, blank', whole⟩ := split_after found
      exact ⟨behind, [','], tail, whole, blank', .inr rfl, List.all_eq_true.mp blank⟩
  · intro parts
    obtain ⟨behind, comma, tail, rfl, blank, rfl | rfl, blank'⟩ := parts
    · rw [List.nil_append, skipBlanks_append blank, skipBlanks_of_blanks blank']
      rfl
    · rw [skipBlanks_append blank, List.singleton_append, skipBlanks_ink (by decide)]
      exact List.all_eq_true.mpr blank'

/-- A line is read as an entrance just when it spells the call for it. -/
theorem readEntrance?_iff : readEntrance? line = some (side, character, target) ↔
    SpellsEntrance side character target line.toList := by
  constructor
  · intro read
    obtain ⟨opened, sided, inside, named, last, word, label, paren, name, same, close, ends⟩ :=
      @readEntrance?_parts line ⟨0, side, character, target⟩ read
    obtain ⟨indent, blank, whole⟩ := split_after word
    obtain ⟨who, quotes, inner⟩ := matchedName?_iff.mp name
    obtain ⟨aim, aims, aimed⟩ := spelled_of_readTarget same
    obtain ⟨before, blank', closed⟩ := split_after close
    obtain ⟨behind, comma, tail, rest, blank'', comma', tail'⟩ := ends_iff.mp ends
    have opened' : opened = side.label.toList ++ '(' :: inside := by
      rw [readSide?_split label, eq_append_of_after? paren]
      rfl
    have inside' : inside = inside.takeWhile isBlank ++ (who ++ (aim ++ (before ++ ')' ::
        (behind ++ (comma ++ tail))))) := by
      calc
        inside = inside.takeWhile isBlank ++ skipBlanks inside :=
          (takeWhile_append_skipBlanks inside).symm
        _ = inside.takeWhile isBlank ++ (who ++ (aim ++ (before ++ (")".toList ++ last)))) := by
          rw [inner, ← closed, ← aimed]
        _ = _ := by
          rw [rest]
          rfl
    rw [whole, opened', inside']
    apply SpellsEntrance.call quotes aims comma'
    simp [blank, blanks_takeWhile, blank', blank'', tail']
  · intro spells
    generalize whole : line.toList = text at spells
    cases spells with
    | call quotes aims ends blank =>
      rw [List.forall_mem_cons, List.forall_mem_cons, List.forall_mem_cons, List.forall_mem_cons,
        List.forall_mem_singleton] at blank
      obtain ⟨indent, inner, before, behind, tail⟩ := blank
      have word (more : List Char) : afterWord? "...ENTER_FROM_"
          (skipBlanks ("...ENTER_FROM_".toList ++ more)) = some more := after?_append _ _
      have paren (more : List Char) : afterWord? "(" ('(' :: more) = some more := rfl
      have close (more : List Char) : afterWord? ")" (skipBlanks (')' :: more)) = some more := rfl
      obtain ⟨found, same, aimed⟩ := readTarget_spelled aims before
      rw [readEntrance?, whole, skipBlanks_append indent, word]
      simp only [Option.bind_eq_bind, Option.bind_some, readSide?_iff.mpr rfl, paren,
        matchedName?_inner inner quotes, aimed, skipBlanks_append before, close, same]
      rw [if_pos (ends_iff.mpr ⟨_, _, _, rfl, behind, ends, tail⟩)]
      rfl

end Reading

end Stagecraft
