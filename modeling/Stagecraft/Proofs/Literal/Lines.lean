import Stagecraft.Literal.Lexer
import Stagecraft.Proofs.Literal.Numeral

/-!
Tokens line by line. A token goes on behind a line feed only while a mark of its own is open, so a
text that ends with a line feed and is cut into tokens by itself is cut the same in front of any
other text.
-/

namespace Stagecraft

variable {text more rest : List Char} {lexemes others : List Lexeme} {piece : Piece}

/-- A comment is closed where a star and a slash first stand together. -/
theorem afterComment?_iff :
    afterComment? text = some rest ↔
      ∃ inner, ¬ ['*', '/'] <:+: inner ∧ text = inner ++ '*' :: '/' :: rest := by
  constructor
  · intro found
    induction text using afterComment?.induct with
    | case1 tail =>
      rw [afterComment?, Option.some.injEq] at found
      subst found
      exact ⟨[], by simp, rfl⟩
    | case2 c tail other ih =>
      rw [afterComment?] at found
      · obtain ⟨inner, free, rfl⟩ := ih found
        refine ⟨c :: inner, ?_, rfl⟩
        intro closed
        rcases List.infix_cons_iff.mp closed with ⟨after, split⟩ | inside
        · obtain ⟨star, slash⟩ := List.cons.inj split
          exact other (after ++ '*' :: '/' :: rest) star.symm (by rw [← slash]; rfl)
        · exact free inside
      · exact other
    | case3 => cases found
  · rintro ⟨inner, free, rfl⟩
    induction inner with
    | nil => rfl
    | cons c inner ih =>
      rw [List.cons_append, afterComment?]
      · exact ih fun inside => free (inside.trans (List.suffix_cons _ _).isInfix)
      · intro after star same
        cases inner with
        | nil => cases same
        | cons d inner =>
          obtain ⟨rfl, -⟩ := List.cons.inj same
          exact free ⟨[], inner, by rw [star]; rfl⟩

theorem afterComment?_append (found : afterComment? text = some rest) :
    afterComment? (text ++ more) = some (rest ++ more) := by
  obtain ⟨inner, free, rfl⟩ := afterComment?_iff.mp found
  exact afterComment?_iff.mpr ⟨inner, free, by simp⟩

theorem afterComment?_suffix (found : afterComment? text = some rest) : rest <:+ text := by
  obtain ⟨inner, -, rfl⟩ := afterComment?_iff.mp found
  exact ⟨inner ++ ['*', '/'], by simp⟩

section Quotations

variable {mark c : Char} {body : List Char}

/-- What may stand between two marks: escapes, and characters that neither escape nor close, among
which a line feed stands only between backticks. -/
inductive Enclosed (mark : Char) : List Char → Prop where
  | nil : Enclosed mark []
  | escape {c : Char} {body : List Char} (inner : Enclosed mark body) :
      Enclosed mark ('\\' :: c :: body)
  | plain {c : Char} {body : List Char} (slash : c ≠ '\\') (other : c ≠ mark)
      (inline' : ¬ (c = '\n' ∧ mark ≠ backtick)) (inner : Enclosed mark body) :
      Enclosed mark (c :: body)

theorem textBody?_cons (slash : c ≠ '\\') :
    textBody? mark (c :: rest) =
      if c = mark then some ([], rest)
      else if c = '\n' ∧ mark ≠ backtick then none
      else (textBody? mark rest).map fun (body, after) => (c :: body, after) := by
  rw [textBody?]
  · intro same
    exact absurd same slash
  · intro d after same
    exact absurd same slash

/-- A quotation goes up to the first mark that no backslash escapes. -/
theorem textBody?_iff :
    textBody? mark text = some (body, rest) ↔
      mark ≠ '\\' ∧ Enclosed mark body ∧ text = body ++ mark :: rest := by
  constructor
  · intro read
    have unescaped {c : Char} {tail : List Char} (alone : c = '\\' → tail = [] → False)
        (escaped : ∀ d after, c = '\\' → tail = d :: after → False) : c ≠ '\\' := by
      intro same
      cases tail with
      | nil => exact alone same rfl
      | cons d tail => exact escaped d tail same rfl
    induction text using textBody?.induct mark generalizing body with
    | case1 => simp [textBody?] at read
    | case2 => simp [textBody?] at read
    | case3 c tail ih =>
      rw [textBody?] at read
      obtain ⟨⟨inner, behind⟩, found, same⟩ := Option.map_eq_some_iff.mp read
      cases same
      obtain ⟨slash, enclosed, rfl⟩ := ih found
      exact ⟨slash, .escape enclosed, rfl⟩
    | case4 tail alone escaped =>
      rw [textBody?_cons (unescaped alone escaped), if_pos rfl] at read
      cases read
      exact ⟨unescaped alone escaped, .nil, rfl⟩
    | case5 c tail alone escaped other stop =>
      rw [textBody?_cons (unescaped alone escaped), if_neg other, if_pos stop] at read
      cases read
    | case6 c tail alone escaped other open' ih =>
      rw [textBody?_cons (unescaped alone escaped), if_neg other, if_neg open'] at read
      obtain ⟨⟨inner, behind⟩, found, same⟩ := Option.map_eq_some_iff.mp read
      cases same
      obtain ⟨slash, enclosed, rfl⟩ := ih found
      exact ⟨slash, .plain (unescaped alone escaped) other open' enclosed, rfl⟩
  · rintro ⟨slash, enclosed, rfl⟩
    induction enclosed with
    | nil => rw [List.nil_append, textBody?_cons slash, if_pos rfl]
    | escape inner ih =>
      rw [List.cons_append, List.cons_append, textBody?, ih]
      rfl
    | plain slash other inline' inner ih =>
      rw [List.cons_append, textBody?_cons slash, if_neg other, if_neg inline', ih]
      rfl

theorem textBody?_append (read : textBody? mark text = some (body, rest)) :
    textBody? mark (text ++ more) = some (body, rest ++ more) := by
  obtain ⟨slash, enclosed, rfl⟩ := textBody?_iff.mp read
  exact textBody?_iff.mpr ⟨slash, enclosed, by simp⟩

theorem textBody?_suffix (read : textBody? mark text = some (body, rest)) : rest <:+ text := by
  obtain ⟨-, -, rfl⟩ := textBody?_iff.mp read
  exact ⟨body ++ [mark], by simp⟩

end Quotations

theorem nextPiece?_suffix (read : nextPiece? text = some (piece, rest)) : rest <:+ text := by
  simp only [nextPiece?] at read
  split at read
  · cases read
  · cases read
    exact ((List.dropWhile_suffix _).trans (List.suffix_cons _ _)).trans (List.suffix_cons _ _)
  · simp only [Option.map_eq_some_iff, Prod.mk.injEq] at read
    obtain ⟨after, found, -, rfl⟩ := read
    exact ((afterComment?_suffix found).trans (List.suffix_cons _ _)).trans (List.suffix_cons _ _)
  · cases read
    exact ((List.suffix_cons _ _).trans (List.suffix_cons _ _)).trans (List.suffix_cons _ _)
  · next c tail _ _ _ =>
    split at read
    · cases read
      exact (List.dropWhile_suffix _).trans (List.suffix_cons _ _)
    · split at read
      · next found =>
        cases read
        exact Numeral.read?_suffix found
      · split at read
        · simp only [Option.map_eq_some_iff, Prod.exists, Prod.mk.injEq] at read
          obtain ⟨body, after, found, -, rfl⟩ := read
          exact (textBody?_suffix found).trans (List.suffix_cons _ _)
        · split at read
          · cases read
            exact (List.dropWhile_suffix _).trans (List.suffix_cons _ _)
          · split at read
            · cases read
              exact List.suffix_cons _ _
            · cases read

theorem skipBlanks_eq_nil_or (text more : List Char) :
    skipBlanks (text ++ more) = skipBlanks text ++ more ∨
      skipBlanks text = [] ∧ skipBlanks (text ++ more) = skipBlanks more := by
  simp only [skipBlanks, List.dropWhile_append]
  cases text.dropWhile isBlank with
  | nil => simp
  | cons c text => simp

theorem leads_of_append {lead : List Char} (whole : text.getLast? = some '\n')
    (plain : '\n' ∉ lead) (leads : lead <+: text ++ more) : lead <+: text := by
  rcases List.prefix_or_prefix_of_prefix leads (List.prefix_append text more) with inside | past
  · exact inside
  · exact absurd (past.subset (List.mem_of_getLast? whole)) plain

/-- The piece at a character that is no blank and starts no comment and no spread. -/
def solidPiece? (c : Char) (rest : List Char) : Option (Piece × List Char) :=
  match Numeral.read? (c :: rest) with
  | some (numeral, after) => some (.ofNumeral numeral, after)
  | none =>
    if isQuote c || c == backtick then
      (textBody? c rest).map fun (body, after) =>
        (.token (.str (String.ofList (unescape body))), after)
    else if startsName c then
      some (.token (.name (String.ofList (c :: rest.takeWhile continuesName))),
        rest.dropWhile continuesName)
    else if isPunctMark c then some (.token (.punct c), rest)
    else none

theorem solidPiece?_append {c : Char} {tail : List Char} (more : List Char)
    (inner : '\n' ∈ tail) (read : solidPiece? c tail = some (piece, rest)) :
    solidPiece? c (tail ++ more) = some (piece, rest ++ more) := by
  have digits := Numeral.read?_append more (List.mem_cons_of_mem c inner)
  rw [List.cons_append] at digits
  rw [solidPiece?] at read ⊢
  rw [digits]
  cases found : Numeral.read? (c :: tail) with
  | some parts =>
    simp only [found, Option.some.injEq, Prod.mk.injEq] at read
    obtain ⟨rfl, rfl⟩ := read
    rfl
  | none =>
    simp only [found, Option.map_none] at read ⊢
    split at read
    · next quoted =>
      simp only [Option.map_eq_some_iff, Prod.exists, Prod.mk.injEq] at read
      obtain ⟨body, after, found, rfl, rfl⟩ := read
      rw [if_pos quoted, textBody?_append found]
      rfl
    · next unquoted =>
      rw [if_neg unquoted]
      split at read
      · next named =>
        have stops : continuesName '\n' = false := by decide
        obtain ⟨rfl, rfl⟩ := Prod.mk.inj (Option.some.inj read)
        have ends := span_append continuesName more inner stops
        rw [if_pos named, ends.1, ends.2]
      · next unnamed =>
        rw [if_neg unnamed]
        split at read
        · next mark =>
          obtain ⟨rfl, rfl⟩ := Prod.mk.inj (Option.some.inj read)
          rw [if_pos mark]
        · cases read

/-- Only blanks at the end of a text run on into the next one. -/
theorem nextPiece?_append (more : List Char) (whole : text.getLast? = some '\n')
    (read : nextPiece? text = some (piece, rest)) :
    nextPiece? (text ++ more) = some (piece, rest ++ more) ∨
      piece = .gap ∧ rest = [] ∧ nextPiece? (text ++ more) = some (.gap, skipBlanks more) := by
  unfold nextPiece? at read
  split at read
  · cases read
  · next tail =>
    obtain ⟨rfl, rfl⟩ := Prod.mk.inj (Option.some.inj read)
    have inner : '\n' ∈ tail := by simpa using List.mem_of_getLast? whole
    have stops : ('\n' != '\n') = false := by decide
    left
    simp [nextPiece?, (span_append (· != '\n') more inner stops).2]
  · next tail =>
    simp only [Option.map_eq_some_iff, Prod.mk.injEq] at read
    obtain ⟨after, found, rfl, rfl⟩ := read
    left
    simp [nextPiece?, afterComment?_append found]
  · next tail =>
    obtain ⟨rfl, rfl⟩ := Prod.mk.inj (Option.some.inj read)
    left
    simp [nextPiece?]
  · next c tail line block dots =>
    have line' (after : List Char) (slash : c = '/') (same : tail ++ more = '/' :: after) :
        False := by
      have leads : ['/', '/'] <+: c :: tail ++ more := ⟨after, by simp [slash, same]⟩
      obtain ⟨left, split⟩ := leads_of_append whole (by decide) leads
      exact line left slash (List.cons.inj split).2.symm
    have block' (after : List Char) (slash : c = '/') (same : tail ++ more = '*' :: after) :
        False := by
      have leads : ['/', '*'] <+: c :: tail ++ more := ⟨after, by simp [slash, same]⟩
      obtain ⟨left, split⟩ := leads_of_append whole (by decide) leads
      exact block left slash (List.cons.inj split).2.symm
    have dots' (after : List Char) (dot : c = '.') (same : tail ++ more = '.' :: '.' :: after) :
        False := by
      have leads : ['.', '.', '.'] <+: c :: tail ++ more := ⟨after, by simp [dot, same]⟩
      obtain ⟨left, split⟩ := leads_of_append whole (by decide) leads
      exact dots left dot (List.cons.inj split).2.symm
    rw [List.cons_append, nextPiece?.eq_5 c (tail ++ more) line' block' dots']
    by_cases blank : isBlank c
    · rw [if_pos blank, Option.some.injEq, Prod.mk.injEq] at read
      obtain ⟨rfl, rfl⟩ := read
      rw [if_pos blank]
      rcases skipBlanks_eq_nil_or tail more with whole' | ⟨empty, onward⟩
      · exact .inl (by rw [whole'])
      · exact .inr ⟨rfl, empty, by rw [onward]⟩
    · have inner : '\n' ∈ tail := by
        rcases List.mem_cons.mp (List.mem_of_getLast? whole) with rfl | inner
        · exact absurd rfl blank
        · exact inner
      rw [if_neg blank] at read ⊢
      exact .inl (solidPiece?_append more inner read)

theorem nextPiece?_of_blank {c : Char} {tail : List Char} (blank : isBlank c) :
    nextPiece? (c :: tail) = some (.gap, skipBlanks tail) := by
  rw [nextPiece?.eq_5, if_pos blank]
  all_goals
    rintro after rfl
    exact absurd blank (by decide)

def lexemesOf (tokens : List Token) : List Lexeme := tokens.map (·.lexeme)

/-- The lexemes of a text, wherever it stands. -/
inductive Lexes : List Char → List Lexeme → Prop where
  | nil : Lexes [] []
  | gap {text rest : List Char} {lexemes : List Lexeme}
      (piece : nextPiece? text = some (.gap, rest)) (others : Lexes rest lexemes) :
      Lexes text lexemes
  | token {text rest : List Char} {lexeme : Lexeme} {lexemes : List Lexeme}
      (piece : nextPiece? text = some (.token lexeme, rest)) (others : Lexes rest lexemes) :
      Lexes text (lexeme :: lexemes)

section Tokens

variable {stop : Nat} {lexeme : Lexeme}

theorem tokensUpTo_of_gap (next : nextPiece? text = some (.gap, rest)) :
    tokensUpTo stop text = tokensUpTo stop rest := by
  cases text with
  | nil => cases next
  | cons c tail =>
    rw [tokensUpTo]
    split
    · next none =>
      rw [next] at none
      cases none
    · next found =>
      rw [next] at found
      cases found
      rfl

theorem tokensUpTo_of_token (next : nextPiece? text = some (.token lexeme, rest)) :
    tokensUpTo stop text =
      (tokensUpTo stop rest).map (⟨lexeme, stop - codeCount text⟩ :: ·) := by
  cases text with
  | nil => cases next
  | cons c tail =>
    rw [tokensUpTo]
    split
    · next none =>
      rw [next] at none
      cases none
    · next found =>
      rw [next] at found
      cases found
      rfl

theorem lexes_of_tokensUpTo {tokens : List Token} (cut : tokensUpTo stop text = .ok tokens) :
    Lexes text (lexemesOf tokens) := by
  induction text using tokensUpTo.induct stop generalizing tokens with
  | case1 =>
    rw [tokensUpTo, Except.ok.injEq] at cut
    subst cut
    exact .nil
  | case2 c tail none =>
    rw [tokensUpTo] at cut
    split at cut
    · cases cut
    · next found =>
      rw [none] at found
      cases found
  | case3 c tail rest limit next =>
    rw [tokensUpTo] at cut
    split at cut
    · cases cut
    · next found =>
      rw [next] at found
      cases found
      cases cut
  | case4 c tail rest next _ ih =>
    rw [tokensUpTo_of_gap next] at cut
    exact .gap next (ih cut)
  | case5 c tail rest lexeme next _ ih =>
    rw [tokensUpTo_of_token next] at cut
    cases behind : tokensUpTo stop rest with
    | error fault =>
      rw [behind] at cut
      cases cut
    | ok others =>
      rw [behind] at cut
      cases cut
      exact .token next (ih behind)

/-- No token stands behind the end of the text. -/
theorem offset_le_of_tokensUpTo {tokens : List Token} (cut : tokensUpTo stop text = .ok tokens) :
    ∀ token ∈ tokens, token.offset ≤ stop := by
  have lexed := lexes_of_tokensUpTo cut
  generalize lexemesOf tokens = lexemes at lexed
  induction lexed generalizing tokens with
  | nil =>
    rw [tokensUpTo, Except.ok.injEq] at cut
    rw [← cut]
    exact List.forall_mem_nil _
  | gap next _ ih =>
    rw [tokensUpTo_of_gap next] at cut
    exact ih cut
  | @token text rest _ _ next _ ih =>
    rw [tokensUpTo_of_token next] at cut
    cases behind : tokensUpTo stop rest with
    | error fault =>
      rw [behind] at cut
      cases cut
    | ok others =>
      rw [behind] at cut
      cases cut
      exact List.forall_mem_cons.mpr ⟨Nat.sub_le _ _, ih behind⟩

end Tokens

namespace Lexes

theorem tokens (lexed : Lexes text lexemes) (stop : Nat) :
    ∃ tokens, tokensUpTo stop text = .ok tokens ∧ lexemesOf tokens = lexemes := by
  induction lexed with
  | nil => exact ⟨[], by rw [tokensUpTo], rfl⟩
  | gap next _ ih =>
    obtain ⟨tokens, cut, same⟩ := ih
    exact ⟨tokens, by rw [tokensUpTo_of_gap next, cut], same⟩
  | @token text rest lexeme lexemes next _ ih =>
    obtain ⟨tokens, cut, rfl⟩ := ih
    refine ⟨⟨lexeme, stop - codeCount text⟩ :: tokens, ?_, rfl⟩
    rw [tokensUpTo_of_token next, cut]
    rfl

theorem gap_iff (next : nextPiece? text = some (.gap, rest)) :
    Lexes text lexemes ↔ Lexes rest lexemes := by
  constructor
  · intro lexed
    cases lexed with
    | nil => cases next
    | gap piece others =>
      rw [next] at piece
      cases piece
      exact others
    | token piece =>
      rw [next] at piece
      cases piece
  · exact .gap next

theorem token_iff {lexeme : Lexeme} (next : nextPiece? text = some (.token lexeme, rest)) :
    Lexes text lexemes ↔ ∃ others, lexemes = lexeme :: others ∧ Lexes rest others := by
  constructor
  · intro lexed
    cases lexed with
    | nil => cases next
    | gap piece =>
      rw [next] at piece
      cases piece
    | token piece others =>
      rw [next] at piece
      cases piece
      exact ⟨_, rfl, others⟩
  · rintro ⟨others, rfl, lexed⟩
    exact .token next lexed

theorem skipBlanks_iff : Lexes (skipBlanks text) lexemes ↔ Lexes text lexemes := by
  cases text with
  | nil => rfl
  | cons c tail =>
    by_cases blank : isBlank c
    · rw [gap_iff (nextPiece?_of_blank blank), skipBlanks, List.dropWhile_cons_of_pos blank,
        skipBlanks]
    · rw [skipBlanks, List.dropWhile_cons_of_neg blank]

/-- A text that ends with a line feed keeps its lexemes in front of any other. -/
theorem append_iff (first : Lexes text lexemes) (whole : text = [] ∨ text.getLast? = some '\n')
    {all : List Lexeme} :
    Lexes (text ++ more) all ↔ ∃ others, all = lexemes ++ others ∧ Lexes more others := by
  have ends {text rest : List Char} {piece : Piece} (next : nextPiece? text = some (piece, rest))
      (whole : text.getLast? = some '\n') : rest = [] ∨ rest.getLast? = some '\n' := by
    obtain ⟨used, rfl⟩ := nextPiece?_suffix next
    cases last : rest.getLast? with
    | none => exact .inl (List.getLast?_eq_none_iff.mp last)
    | some c =>
      rw [List.getLast?_append, last, Option.some_or] at whole
      exact .inr whole
  have filled {text rest : List Char} {piece : Piece} (next : nextPiece? text = some (piece, rest))
      (whole : text = [] ∨ text.getLast? = some '\n') : text.getLast? = some '\n' := by
    rcases whole with rfl | whole
    · cases next
    · exact whole
  induction first generalizing all with
  | nil => simp
  | @gap text rest lexemes next lexed ih =>
    have whole := filled next whole
    rcases nextPiece?_append more whole next with next' | ⟨-, rfl, next'⟩
    · rw [gap_iff next']
      exact ih (ends next whole)
    · have empty : lexemes = [] := by
        cases lexed with
        | nil => rfl
        | gap next => cases next
        | token next => cases next
      rw [gap_iff next', skipBlanks_iff, empty]
      constructor
      · intro both
        exact ⟨all, rfl, both⟩
      · rintro ⟨others, rfl, second⟩
        exact second
  | @token text rest lexeme lexemes next _ ih =>
    have whole := filled next whole
    rcases nextPiece?_append more whole next with next' | ⟨same, -, -⟩
    · rw [token_iff next']
      constructor
      · rintro ⟨_, rfl, both⟩
        obtain ⟨others, rfl, second⟩ := (ih (ends next whole)).mp both
        exact ⟨others, rfl, second⟩
      · rintro ⟨others, rfl, second⟩
        exact ⟨lexemes ++ others, rfl, (ih (ends next whole)).mpr ⟨others, rfl, second⟩⟩
    · cases same

end Lexes

end Stagecraft
