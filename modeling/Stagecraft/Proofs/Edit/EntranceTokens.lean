import Stagecraft.Proofs.Edit.Merging
import Stagecraft.Proofs.Edit.SpeechTokens
import Stagecraft.Proofs.Edit.Troupe

/-!
The lines of a run, and those that take their place, as elements of a list of steps. A line that is
read as an entrance is one call with or without its comma, unless its names hold what is escaped;
fillers are nothing; the call of the group is one element with its comma.
-/

namespace Stagecraft

variable {text rest blanks : List Char} {lexemes all more : List Lexeme} {line name indent : String}
  {entrance : Entrance} {run : List Entrance} {side : Side} {lines : List String}

/-- A name that a string can hold as it is. -/
def PlainName (name : String) : Prop := ∀ c ∈ name.toList, c ≠ '\\' ∧ c ≠ '\n'

/-- The text, once its line has ended, is cut into these lexemes. -/
def Cuts (text : List Char) (lexemes : List Lexeme) : Prop :=
  ∀ rest all, Lexes rest all → Lexes (text ++ '\n' :: rest) (lexemes ++ all)

section Names

variable {mark : Char}

theorem matchedName?_split {behind : List Char} (read : matchedName? text = some (name, behind)) :
    ∃ mark, isQuote mark ∧ text = mark :: (name.toList ++ mark :: behind) ∧ name ≠ "" ∧
      ∀ c ∈ name.toList, ¬ isQuote c := by
  rw [matchedName?] at read
  split at read
  · next found rest known =>
    split at read
    · next same =>
      obtain ⟨rfl, rfl⟩ := Prod.mk.inj (Option.some.inj read)
      rw [quotedName?.eq_def] at known
      split at known
      · cases known
      · next opening text =>
        split at known
        · next c name closing behind quote taken left =>
          obtain ⟨rfl, rfl⟩ := Prod.mk.inj (Option.some.inj known)
          obtain rfl : opening = closing := same
          have parts := List.takeWhile_append_dropWhile (p := (!isQuote ·)) (l := text)
          rw [taken, left] at parts
          refine ⟨opening, quote, ?_, ?_, ?_⟩
          · rw [String.toList_ofList, ← parts]
          · intro empty
            have none := congrArg String.toList empty
            rw [String.toList_ofList] at none
            cases none
          · intro d member
            rw [String.toList_ofList] at member
            have inside : d ∈ text.takeWhile (!isQuote ·) := by rwa [taken]
            simpa using List.mem_takeWhile_imp inside
        · cases known
    · cases read
  · cases read

theorem textBody?_plain {chars : List Char} (rest : List Char) (quote : isQuote mark)
    (plain : ∀ c ∈ chars, c ≠ mark ∧ c ≠ '\\' ∧ c ≠ '\n') :
    textBody? mark (chars ++ mark :: rest) = some (chars, rest) := by
  have slash : mark ≠ '\\' := by
    rintro rfl
    exact absurd quote (by decide)
  refine textBody?_iff.mpr ⟨slash, ?_, rfl⟩
  induction chars with
  | nil => exact .nil
  | cons c chars ih =>
    obtain ⟨other, slash, feed⟩ := plain c (List.mem_cons_self ..)
    have inner := ih fun d member => plain d (List.mem_cons_of_mem _ member)
    exact .plain slash other (by simp [feed]) inner

theorem unescape_plain {chars : List Char} (plain : ∀ c ∈ chars, c ≠ '\\') :
    unescape chars = chars := by
  induction chars with
  | nil => rfl
  | cons c chars ih =>
    have slash := plain c (List.mem_cons_self ..)
    rw [unescape, ih fun d member => plain d (List.mem_cons_of_mem _ member)]
    · intro a b d e rest same
      exact absurd same slash
    · intro d rest same
      exact absurd same slash

theorem nextPiece?_quote (quote : isQuote mark) :
    nextPiece? (mark :: text) = (textBody? mark text).map fun (body, after) =>
      (.token (.str (String.ofList (unescape body))), after) := by
  have plain : isDecimalDigit mark = false ∧ mark ≠ '-' ∧ mark ≠ '.' ∧ mark ≠ '/' ∧
      isBlank mark = false := by
    rw [isQuote, Bool.or_eq_true, beq_iff_eq, beq_iff_eq] at quote
    rcases quote with rfl | rfl <;> decide
  obtain ⟨digit, sign, point, slash, ink⟩ := plain
  rw [nextPiece?.eq_5 _ _ (by simp [slash]) (by simp [slash]) (by simp [point]),
    if_neg (by simp [ink]), Numeral.read?_of_head digit sign point]
  simp only [quote, Bool.true_or, if_true]

end Names

namespace Cuts

theorem blank (blank : ∀ c ∈ text, isBlank c) : Cuts text [] := by
  intro rest all lexed
  have feed : ∀ c ∈ ['\n'], isBlank c := List.all_eq_true.mp (by decide)
  exact lexes_blanks blank (lexes_blanks feed lexed)

theorem indented (blank : ∀ c ∈ blanks, isBlank c) (cuts : Cuts text lexemes) :
    Cuts (blanks ++ text) lexemes := by
  intro rest all lexed
  rw [List.append_assoc]
  exact lexes_blanks blank (cuts rest all lexed)

theorem skipped (cuts : Cuts (skipBlanks text) lexemes) : Cuts text lexemes := by
  have split := takeWhile_append_skipBlanks text
  rw [← split]
  apply indented _ cuts
  intro c member
  exact List.mem_takeWhile_imp member

theorem mark {mark : Char} (known : mark ∈ ['(', ')', '[', ']', ',']) (cuts : Cuts text lexemes) :
    Cuts (mark :: text) (.punct mark :: lexemes) :=
  fun rest all lexed => lexes_mark known (cuts rest all lexed)

theorem quoted (whole : '\n' ∉ name.toList) (cuts : Cuts text lexemes) :
    Cuts (quoteChars name.toList ++ text) (.str name :: lexemes) := by
  intro rest all lexed
  have cut := lexes_quoteChars whole (cuts rest all lexed)
  rwa [String.ofList_toList, ← List.append_assoc] at cut

theorem spread (cuts : Cuts text lexemes) :
    Cuts ('.' :: '.' :: '.' :: text) (.ellipsis :: lexemes) :=
  fun rest all lexed => .token (nextPiece?.eq_4 _) (cuts rest all lexed)

theorem comment (whole : '\n' ∉ text) : Cuts ('/' :: '/' :: text) [] := by
  intro rest all lexed
  have passed : (text ++ '\n' :: rest).dropWhile (· != '\n') = '\n' :: rest := by
    rw [List.dropWhile_append_of_pos]
    · rfl
    · intro c member
      rw [bne_iff_ne]
      intro same
      exact whole (same ▸ member)
  have feed : ∀ c ∈ ['\n'], isBlank c := List.all_eq_true.mp (by decide)
  have next : nextPiece? ('/' :: '/' :: text ++ '\n' :: rest) = some (.gap, '\n' :: rest) := by
    rw [List.cons_append, List.cons_append, nextPiece?.eq_2, passed]
  exact .gap next (lexes_blanks feed lexed)

/-- A name in front of a parenthesis is one token. -/
theorem called {c : Char} {letters : List Char} (spelled : name.toList = c :: letters)
    (starts : isDecimalDigit c = false ∧ c ≠ '-' ∧ c ≠ '.' ∧ c ≠ '/' ∧ isBlank c = false ∧
      isQuote c = false ∧ (c == backtick) = false ∧ startsName c = true)
    (others : letters.all continuesName = true) (cuts : Cuts ('(' :: text) lexemes) :
    Cuts (name.toList ++ '(' :: text) (.name name :: lexemes) := by
  intro rest all lexed
  obtain ⟨digit, sign, point, slash, ink, quote, tick, letter⟩ := starts
  have stops : continuesName '(' = false := by decide
  have inner := List.all_eq_true.mp others
  have next : nextPiece? (name.toList ++ ('(' :: text ++ '\n' :: rest)) =
      some (.token (.name name), '(' :: text ++ '\n' :: rest) := by
    rw [spelled, List.cons_append, nextPiece?.eq_5 _ _ (by simp [slash]) (by simp [slash])
      (by simp [point]), if_neg (by simp [ink]), Numeral.read?_of_head digit sign point]
    simp only [quote, tick, letter, Bool.or_self, Bool.false_eq_true, if_false, if_true]
    rw [List.takeWhile_append_of_pos inner, List.dropWhile_append_of_pos inner, List.cons_append,
      List.takeWhile_cons_of_neg (by simp [stops]), List.dropWhile_cons_of_neg (by simp [stops]),
      List.append_nil, ← spelled, String.ofList_toList]
  rw [List.append_assoc]
  exact .token next (cuts rest all lexed)

theorem directive (side : Side) (cuts : Cuts ('(' :: text) lexemes) :
    Cuts (side.directive.toList ++ '(' :: text) (.name side.directive :: lexemes) := by
  cases side with
  | left =>
    have spelled : Side.left.directive.toList = 'E' :: "NTER_FROM_LEFT".toList := by decide
    exact called spelled (by decide) (by decide) cuts
  | right =>
    have spelled : Side.right.directive.toList = 'E' :: "NTER_FROM_RIGHT".toList := by decide
    exact called spelled (by decide) (by decide) cuts

theorem groupDirective (side : Side) (cuts : Cuts ('(' :: text) lexemes) :
    Cuts (side.groupDirective.toList ++ '(' :: text) (.name side.groupDirective :: lexemes) := by
  cases side with
  | left =>
    have spelled : Side.left.groupDirective.toList = 'G' :: "ROUP_ENTER_LEFT".toList := by decide
    exact called spelled (by decide) (by decide) cuts
  | right =>
    have spelled : Side.right.groupDirective.toList = 'G' :: "ROUP_ENTER_RIGHT".toList := by decide
    exact called spelled (by decide) (by decide) cuts

/-- A name between equal quotes is one string, if nothing in it is escaped. -/
theorem matched {behind : List Char} (read : matchedName? text = some (name, behind))
    (plain : PlainName name) (cuts : Cuts behind lexemes) : Cuts text (.str name :: lexemes) := by
  intro rest all lexed
  obtain ⟨mark, quote, whole, -, free⟩ := matchedName?_split read
  have body := textBody?_plain (behind ++ '\n' :: rest) quote fun c member =>
    ⟨fun same => free c member (same ▸ quote), plain c member⟩
  have next : nextPiece? (text ++ '\n' :: rest) =
      some (.token (.str name), behind ++ '\n' :: rest) := by
    rw [whole, List.cons_append, List.append_assoc, List.cons_append, nextPiece?_quote quote, body]
    simp only [Option.map_some, unescape_plain fun c member => (plain c member).1,
      String.ofList_toList]
  exact .token next (cuts rest all lexed)

end Cuts

/-- The names of an entrance can be held by strings as they are. -/
structure Entrance.Plain (entrance : Entrance) : Prop where
  character : PlainName entrance.character
  target : PlainName entrance.target

/-- What stands between the parentheses of a call for an entrance. -/
inductive Entrance.Arguments (entrance : Entrance) : List Lexeme → Prop where
  | character (default : entrance.target = entrance.side.defaultTarget) :
      Arguments entrance [.str entrance.character]
  | target : Arguments entrance [.str entrance.character, .punct ',', .str entrance.target]

/-- The lexemes of a call for an entrance, with its comma or without. -/
inductive Entrance.Lexemes (entrance : Entrance) : List Lexeme → List Lexeme → Prop where
  | call {arguments comma : List Lexeme} (holds : entrance.Arguments arguments)
      (ends : comma = [] ∨ comma = [.punct ',']) :
      Lexemes entrance (.ellipsis :: .name entrance.side.directive :: .punct '(' ::
        (arguments ++ [.punct ')'])) comma

section Lines

theorem readSide?_split {behind : List Char} (read : readSide? text = some (side, behind)) :
    text = side.label.toList ++ behind := by
  rw [readSide?] at read
  split at read
  · next other found =>
    cases read
    exact eq_append_of_after? found
  · next none found =>
    cases read
    exact eq_append_of_after? found
  · cases read

theorem cuts_comma {behind : List Char} (ends : (dropComma (skipBlanks behind)).all isBlank) :
    ∃ comma, (comma = [] ∨ comma = [Lexeme.punct ',']) ∧ Cuts behind comma := by
  rw [dropComma] at ends
  cases found : afterWord? "," (skipBlanks behind) with
  | none =>
    rw [found] at ends
    exact ⟨[], .inl rfl, .skipped (.blank (List.all_eq_true.mp ends))⟩
  | some rest =>
    rw [found] at ends
    refine ⟨[.punct ','], .inr rfl, .skipped ?_⟩
    have whole : skipBlanks behind = ',' :: rest := eq_append_of_after? found
    rw [whole]
    exact .mark (by simp) (.blank (List.all_eq_true.mp ends))

theorem readEntrance?_parts (read : readEntrance? line = some entrance.call) :
    ∃ opened sided inside named behind,
      afterWord? "...ENTER_FROM_" (skipBlanks line.toList) = some opened ∧
      readSide? opened = some (entrance.side, sided) ∧ afterWord? "(" sided = some inside ∧
      matchedName? (skipBlanks inside) = some (entrance.character, named) ∧
      (readTarget named).1.getD entrance.side.defaultTarget = entrance.target ∧
      afterWord? ")" (skipBlanks (readTarget named).2) = some behind ∧
      (dropComma (skipBlanks behind)).all isBlank := by
  obtain ⟨opened, word, read⟩ := Option.bind_eq_some_iff.mp read
  obtain ⟨⟨side, sided⟩, label, read⟩ := Option.bind_eq_some_iff.mp read
  obtain ⟨inside, paren, read⟩ := Option.bind_eq_some_iff.mp read
  obtain ⟨⟨character, named⟩, name, read⟩ := Option.bind_eq_some_iff.mp read
  obtain ⟨behind, close, read⟩ := Option.bind_eq_some_iff.mp read
  split at read
  · next ends =>
    have same := Option.some.inj read
    rw [Entrance.call, Prod.mk.injEq, Prod.mk.injEq] at same
    obtain ⟨rfl, rfl, target⟩ := same
    exact ⟨opened, sided, inside, named, behind, word, label, paren, name, target, close, ends⟩
  · cases read

/-- The target of an entrance is never empty. -/
theorem target_ne_empty (read : readEntrance? line = some entrance.call) :
    entrance.target ≠ "" := by
  obtain ⟨_, _, _, named, _, -, -, -, -, target, -⟩ := readEntrance?_parts read
  rw [← target]
  cases found : (readTarget named).1 with
  | none =>
    rw [Option.getD_none]
    cases entrance.side <;> decide
  | some other =>
    rw [readTarget] at found
    split at found
    · next known =>
      obtain ⟨_, -, name⟩ := Option.bind_eq_some_iff.mp known
      obtain ⟨-, -, -, filled, -⟩ := matchedName?_split name
      cases found
      exact filled
    · cases found

/-- The target, if one is written. -/
def targetLexemes : Option String → List Lexeme
  | some target => [.punct ',', .str target]
  | none => []

theorem cuts_target {named : List Char}
    (plain : ∀ target, (readTarget named).1 = some target → PlainName target)
    (cuts : Cuts (readTarget named).2 lexemes) :
    Cuts named (targetLexemes (readTarget named).1 ++ lexemes) := by
  rw [readTarget] at cuts plain ⊢
  split at cuts
  · next target rest found =>
    rw [found] at plain
    obtain ⟨behind, comma, name⟩ := Option.bind_eq_some_iff.mp found
    have whole : skipBlanks named = ',' :: behind := eq_append_of_after? comma
    apply Cuts.skipped
    rw [whole]
    exact .mark (by simp) (.skipped (.matched name (plain target rfl) cuts))
  · exact cuts

/-- A line that is read as an entrance is cut into its call. -/
theorem cuts_entrance (read : readEntrance? line = some entrance.call) (plain : entrance.Plain) :
    ∃ lexemes comma, entrance.Lexemes lexemes comma ∧ Cuts line.toList (lexemes ++ comma) := by
  obtain ⟨opened, sided, inside, named, behind, word, label, paren, name, target, close, ends⟩ :=
    readEntrance?_parts read
  obtain ⟨comma, known, cuts⟩ := cuts_comma ends
  have whole : skipBlanks (readTarget named).2 = ')' :: behind := eq_append_of_after? close
  have closed : Cuts (readTarget named).2 (.punct ')' :: comma) := by
    apply Cuts.skipped
    rw [whole]
    exact .mark (by simp) cuts
  have given : ∀ other, (readTarget named).1 = some other → PlainName other := by
    intro other found
    rw [found, Option.getD_some] at target
    rw [target]
    exact plain.target
  have holds : entrance.Arguments
      (.str entrance.character :: targetLexemes (readTarget named).1) := by
    cases found : (readTarget named).1 with
    | none =>
      rw [found] at target
      exact .character target.symm
    | some other =>
      rw [found, Option.getD_some] at target
      rw [target]
      exact .target
  have call : Cuts ('(' :: inside) (.punct '(' :: (.str entrance.character ::
      (targetLexemes (readTarget named).1 ++ .punct ')' :: comma))) :=
    .mark (by simp) (.skipped (.matched name plain.character (cuts_target given closed)))
  have line' : skipBlanks line.toList =
      '.' :: '.' :: '.' :: (entrance.side.directive.toList ++ '(' :: inside) := by
    have start : skipBlanks line.toList = "...ENTER_FROM_".toList ++ opened :=
      eq_append_of_after? word
    have round : sided = '(' :: inside := eq_append_of_after? paren
    rw [start, readSide?_split label, round, Side.directive, String.toList_append]
    rfl
  refine ⟨_, comma, .call holds known, ?_⟩
  apply Cuts.skipped
  rw [line']
  have spread := (call.directive entrance.side).spread
  simpa using spread

theorem cuts_filler (filler : isFiller line = true) (whole : '\n' ∉ line.toList) :
    Cuts line.toList [] := by
  rw [isFiller, Bool.or_eq_true] at filler
  rcases filler with blank | comment
  · exact .blank (List.all_eq_true.mp blank)
  · obtain ⟨rest, starts⟩ := isComment_starts comment
    apply Cuts.skipped
    rw [starts]
    apply Cuts.comment
    intro feed
    apply whole
    rw [← takeWhile_append_skipBlanks line.toList, starts]
    simp [feed]

end Lines

section Runs

variable {values : List Value} {tokens : List Token} {room inside : Nat}

/-- The lexemes of the calls of a run, one behind the other. -/
inductive RunLexemes : List Entrance → List Lexeme → Prop where
  | done : RunLexemes [] []
  | next {entrance : Entrance} {run : List Entrance} {lexemes comma others : List Lexeme}
      (first : entrance.Lexemes lexemes comma) (rest : RunLexemes run others) :
      RunLexemes (entrance :: run) (lexemes ++ (comma ++ others))

theorem fed_cons (line : String) (lines : List String) :
    fed (line :: lines) = line.toList ++ '\n' :: fed lines := by simp [fed]

theorem lexes_fillers (fillers : ∀ line ∈ lines, isFiller line = true ∧ '\n' ∉ line.toList) :
    Lexes (fed lines) [] := by
  induction lines with
  | nil => exact .nil
  | cons line lines ih =>
    obtain ⟨filler, whole⟩ := fillers line (List.mem_cons_self ..)
    rw [fed_cons]
    exact cuts_filler filler whole _ _ (ih fun other member => fillers other (by simp [member]))

/-- The lines of a run are cut into its calls. -/
theorem lexes_run (isRun : IsRun lines run) (plain : ∀ entrance ∈ run, entrance.Plain)
    (whole : ∀ line ∈ runLines lines run, '\n' ∉ line.toList) :
    ∃ lexemes, RunLexemes run lexemes ∧ Lexes (fed (runLines lines run)) lexemes := by
  induction run with
  | nil => exact absurd rfl isRun.filled
  | cons first rest ih =>
    have named := plain first (List.mem_cons_self ..)
    cases rest with
    | nil =>
      obtain ⟨line, one, read⟩ := runLines_singleton isRun
      obtain ⟨lexemes, comma, known, cuts⟩ := cuts_entrance read named
      refine ⟨_, .next known .done, ?_⟩
      rw [one, fed_cons, ← List.append_assoc]
      exact cuts [] [] .nil
    | cons second rest =>
      obtain ⟨line, fillers, split, read, between⟩ := runLines_cons isRun
      obtain ⟨lexemes, comma, known, cuts⟩ := cuts_entrance read named
      rw [split] at whole
      obtain ⟨others, behind, lexed⟩ := ih isRun.tail
        (fun entrance member => plain entrance (List.mem_cons_of_mem _ member))
        (fun line member => whole line (by simp [member]))
      have free : Lexes (fed fillers) [] := lexes_fillers fun filler member =>
        ⟨between filler member, whole filler (by simp [member])⟩
      refine ⟨_, .next known behind, ?_⟩
      rw [split, fed_cons, fed_append, ← List.append_assoc]
      exact cuts _ _ ((lexes_fed_append free).mpr ⟨others, rfl, lexed⟩)

theorem reads_entrance {comma : List Lexeme} (known : entrance.Lexemes lexemes comma)
    (fits : roomInside? 2 room = some inside) :
    ∃ value, Brings entrance value ∧ ∀ more, Reads (.item room) (lexemes ++ more) value more := by
  have word : wordValue? entrance.side.directive = none := by
    cases entrance.side <;> decide
  obtain ⟨holds, -⟩ := known
  cases holds with
  | character default =>
    refine ⟨_, .character default, fun more => ?_⟩
    exact .spreadItem (.call word fits (.lastItem rfl (by decide) (.plainItem (.str _))))
  | target =>
    refine ⟨_, .target, fun more => ?_⟩
    exact .spreadItem (.call word fits (.nextItem rfl (.plainItem (.str _))
      (.lastItem rfl (by decide) (.plainItem (.str _)))))

theorem not_reads_comma {value : Value} : ¬ Reads (.item room) (.punct ',' :: more) value all := by
  intro read
  cases read with
  | plainItem inner => cases inner

/-- The items of the calls of a run are those that bring it on, with a comma behind them or not. -/
theorem brings_of_items {extra : List Lexeme} (calls : RunLexemes run lexemes)
    (fits : roomInside? 2 room = some inside) (ends : extra = [] ∨ extra = [.punct ','])
    (same : lexemesOf tokens = lexemes ++ extra) (whole : wholeItems? room tokens = some values) :
    List.Forall₂ Brings run values := by
  induction calls generalizing tokens values with
  | done =>
    cases tokens with
    | nil =>
      rw [wholeItems?] at whole
      cases whole
      exact .nil
    | cons token tail =>
      obtain ⟨value, next, others, item, -⟩ := wholeItems?_cons whole
      rcases ends with rfl | rfl
      · cases same
      · rw [same] at item
        exact absurd item not_reads_comma
  | @next entrance run lexemes comma others first rest ih =>
    obtain ⟨value, brings, reads⟩ := reads_entrance first fits
    cases tokens with
    | nil =>
      obtain ⟨-, -⟩ := first
      cases same
    | cons token tail =>
      obtain ⟨value', next, values, item, -, whole', rfl⟩ := wholeItems?_cons whole
      have split : lexemes ++ (comma ++ others) ++ extra =
          lexemes ++ (comma ++ (others ++ extra)) := by
        simp
      rw [same, split] at item
      obtain ⟨rfl, behind⟩ := (reads (comma ++ (others ++ extra))).unique item
      obtain ⟨-, known⟩ := first
      rcases known with rfl | rfl
      · cases rest with
        | done =>
          rcases ends with rfl | rfl
          · cases behind
          · have none : lexemesOf next = [] := (List.cons.inj behind).2.symm
            obtain rfl : next = [] := List.map_eq_nil_iff.mp none
            rw [wholeItems?] at whole'
            cases whole'
            exact .cons brings .nil
        | next later _ =>
          obtain ⟨-, -⟩ := later
          cases behind
      · exact .cons brings (ih (List.cons.inj behind).2.symm whole')

/-- A paragraph of the lines of a run, whole or without its last comma, brings on the run. -/
theorem brings_of_lastElements (isRun : IsRun lines run)
    (plain : ∀ entrance ∈ run, entrance.Plain)
    (whole : ∀ line ∈ runLines lines run, '\n' ∉ line.toList)
    (elements : lastElements? (runLines lines run) = some values) :
    List.Forall₂ Brings run values := by
  obtain ⟨lexemes, calls, lexed⟩ := lexes_run isRun plain whole
  obtain ⟨tokens, cut, rfl⟩ := lexed.tokens 0
  have fits : roomInside? 2 stepRoom = some 987 := rfl
  rw [lastElements?, cut] at elements
  simp only [lastItems?] at elements
  split at elements
  · next found =>
    cases elements
    exact brings_of_items calls fits (.inl rfl) (by simp) found
  · exact brings_of_items calls fits (.inr rfl) (by simp [lexemesOf]) elements

end Runs

section Group

variable {room inside : Nat}

/-- The lexemes of a member of a group. -/
def Entrance.memberLexemes (side : Side) (entrance : Entrance) : List Lexeme :=
  if entrance.target = side.defaultTarget then
    [.punct '[', .str entrance.character, .punct ']']
  else [.punct '[', .str entrance.character, .punct ',', .str entrance.target, .punct ']']

/-- The lexemes of the members of a group with commas between them. -/
def membersLexemes (side : Side) : List Entrance → List Lexeme
  | [] => []
  | [last] => last.memberLexemes side
  | entrance :: next :: rest =>
    entrance.memberLexemes side ++ .punct ',' :: membersLexemes side (next :: rest)

def groupLexemes (side : Side) (run : List Entrance) : List Lexeme :=
  .ellipsis :: .name side.groupDirective :: .punct '(' :: .punct '[' ::
    (membersLexemes side run ++ [.punct ']', .punct ')', .punct ','])

theorem cuts_groupEntry (side : Side) (plain : entrance.Plain) (cuts : Cuts text lexemes) :
    Cuts ((groupEntry side entrance).toList ++ text) (entrance.memberLexemes side ++ lexemes) := by
  have character : '\n' ∉ entrance.character.toList :=
    fun member => (plain.character _ member).2 rfl
  have target : '\n' ∉ entrance.target.toList := fun member => (plain.target _ member).2 rfl
  have close : Cuts (']' :: text) (.punct ']' :: lexemes) := .mark (by simp) cuts
  rw [groupEntry, Entrance.memberLexemes]
  split
  · have entry : Cuts ('[' :: (quoteChars entrance.character.toList ++ ']' :: text))
        (.punct '[' :: .str entrance.character :: .punct ']' :: lexemes) :=
      .mark (by simp) (.quoted character close)
    simpa [quote] using entry
  · have space : ∀ c ∈ [' '], isBlank c := List.all_eq_true.mp (by decide)
    have second : Cuts (',' :: ([' '] ++ (quoteChars entrance.target.toList ++ ']' :: text)))
        (.punct ',' :: .str entrance.target :: .punct ']' :: lexemes) :=
      .mark (by simp) (.indented space (.quoted target close))
    have entry : Cuts ('[' :: (quoteChars entrance.character.toList ++
          ',' :: ([' '] ++ (quoteChars entrance.target.toList ++ ']' :: text))))
        (.punct '[' :: .str entrance.character :: .punct ',' :: .str entrance.target ::
          .punct ']' :: lexemes) :=
      .mark (by simp) (.quoted character second)
    simpa [quote] using entry

theorem cuts_groupEntries (plain : ∀ entrance ∈ run, entrance.Plain) (cuts : Cuts text lexemes) :
    Cuts ((join ", " (run.map (groupEntry side))).toList ++ text)
      (membersLexemes side run ++ lexemes) := by
  induction run using membersLexemes.induct with
  | case1 => exact cuts
  | case2 last =>
    have one : join ", " ([last].map (groupEntry side)) = groupEntry side last := by
      simp [join]
    rw [one]
    exact cuts_groupEntry side (plain last (List.mem_cons_self ..)) cuts
  | case3 entrance next rest ih =>
    have behind := ih fun other member => plain other (List.mem_cons_of_mem _ member)
    have space : ∀ c ∈ [' '], isBlank c := List.all_eq_true.mp (by decide)
    have comma : Cuts (',' :: ([' '] ++
          ((join ", " ((next :: rest).map (groupEntry side))).toList ++ text)))
        (.punct ',' :: (membersLexemes side (next :: rest) ++ lexemes)) :=
      .mark (by simp) (.indented space behind)
    have first := cuts_groupEntry side (plain entrance (List.mem_cons_self ..)) comma
    have split : (join ", " ((entrance :: next :: rest).map (groupEntry side))).toList ++ text =
        (groupEntry side entrance).toList ++ ',' :: ([' '] ++
          ((join ", " ((next :: rest).map (groupEntry side))).toList ++ text)) := by
      simp [join]
    rw [split, membersLexemes, List.append_assoc, List.cons_append]
    exact first

/-- The call of a group is cut into its directive, its members and a comma. -/
theorem cuts_groupCall (blank : IsIndent indent) (plain : ∀ entrance ∈ run, entrance.Plain) :
    Cuts (groupCall side run indent).toList (groupLexemes side run) := by
  have ends : Cuts [']', ')', ','] [.punct ']', .punct ')', .punct ','] :=
    .mark (by simp) (.mark (by simp) (.mark (by simp) (.blank (by simp))))
  have call : Cuts ('(' :: '[' :: ((join ", " (run.map (groupEntry side))).toList ++
        [']', ')', ',']))
      (.punct '(' :: .punct '[' :: (membersLexemes side run ++
        [.punct ']', .punct ')', .punct ','])) :=
    .mark (by simp) (.mark (by simp) (cuts_groupEntries plain ends))
  have whole := (call.groupDirective side).spread.indented blank
  have split : (groupCall side run indent).toList = indent.toList ++ '.' :: '.' :: '.' ::
      (side.groupDirective.toList ++ '(' :: '[' ::
        ((join ", " (run.map (groupEntry side))).toList ++ [']', ')', ','])) := by
    simp [groupCall]
  rw [split]
  exact whole

theorem reads_groupMember (fits : roomInside? 3 room = some inside) :
    Reads (.item room) (entrance.memberLexemes side ++ more) (entrance.member side) more := by
  rw [Entrance.memberLexemes, Entrance.member]
  split
  · exact .plainItem (.array fits (.lastItem rfl (by decide) (.plainItem (.str _))))
  · exact .plainItem (.array fits (.nextItem rfl (.plainItem (.str _))
      (.lastItem rfl (by decide) (.plainItem (.str _)))))

theorem reads_groupMembers (filled : run ≠ []) (fits : roomInside? 3 room = some inside) :
    Reads (.items room ']') (membersLexemes side run ++ .punct ']' :: more)
      (run.map (Entrance.member side)) more := by
  have opens (entrance : Entrance) (behind : List Lexeme) :
      headIs ']' (entrance.memberLexemes side ++ behind) = false := by
    rw [Entrance.memberLexemes]
    split <;> rfl
  induction run using membersLexemes.induct with
  | case1 => exact absurd rfl filled
  | case2 last => exact .lastItem (opens last _) (by decide) (reads_groupMember fits)
  | case3 entrance next rest ih =>
    rw [membersLexemes, List.append_assoc, List.cons_append]
    exact .nextItem (opens entrance _) (reads_groupMember fits) (ih (List.cons_ne_nil _ _))

/-- The lines in the place of a run are one element, which brings on the group. -/
theorem wholeElements?_merged {first : Entrance} {rest : List Entrance}
    (plain : ∀ entrance ∈ first :: rest, entrance.Plain)
    (whole : ∀ line ∈ runLines lines (first :: rest), '\n' ∉ line.toList) :
    wholeElements? (mergedLines lines (first :: rest)) =
      some [groupElement first.side (first :: rest)] := by
  have comments : Lexes (fed ((runLines lines (first :: rest)).filter isComment)) [] := by
    apply lexes_fillers
    intro line member
    obtain ⟨inside, comment⟩ := List.mem_filter.mp member
    exact ⟨by rw [isFiller, comment, Bool.or_true], whole line inside⟩
  have call : Lexes (fed [callOf lines (first :: rest)])
      (groupLexemes first.side (first :: rest) ++ []) := by
    rw [fed_cons]
    exact cuts_groupCall (isIndent_indentOf _) plain _ _ Lexes.nil
  rw [List.append_nil] at call
  have lexed : Lexes (fed (mergedLines lines (first :: rest)))
      (groupLexemes first.side (first :: rest)) := by
    rw [mergedLines, fed_append]
    exact (lexes_fed_append comments).mpr ⟨_, rfl, call⟩
  obtain ⟨tokens, cut, same⟩ := lexed.tokens 0
  have word : wordValue? first.side.groupDirective = none := by
    cases first.side <;> decide
  have fits : roomInside? 2 stepRoom = some 987 := rfl
  have fits' : roomInside? 3 987 = some 984 := rfl
  have fits'' : roomInside? 3 984 = some 981 := rfl
  have list : Reads (.items 987 ')') (.punct '[' :: (membersLexemes first.side (first :: rest) ++
      [.punct ']', .punct ')', .punct ',']))
      [.list ((first :: rest).map (Entrance.member first.side))] [.punct ','] :=
    .lastItem rfl (by decide)
      (.plainItem (.array fits' (reads_groupMembers (List.cons_ne_nil _ _) fits'')))
  have item : Reads (.item stepRoom) (lexemesOf tokens) (groupElement first.side (first :: rest))
      [.punct ','] := by
    rw [same]
    exact .spreadItem (.call word fits list)
  obtain ⟨next, none, elements⟩ := wholeItems?_of_reads item
  obtain rfl : next = [] := List.map_eq_nil_iff.mp none
  rw [wholeElements?, cut]
  simp only [elements]
  rw [wholeItems?]
  rfl

end Group

end Stagecraft
