import Stagecraft.Proofs.Literal.Quoted

/-!
Tokens and what stands between them. A token ends before a blank or a comment as it does before any
token that may follow it, so the stretches between the tokens may be filled with other blanks and
comments, or with some where there were none, and the lexemes stay what they are.
-/

namespace Stagecraft

variable {text after left rest : List Char} {lexeme : Lexeme} {lexemes : List Lexeme} {c : Char}

section Exchange

theorem textBody?_cut {mark : Char} {body : List Char}
    (read : textBody? mark (text ++ rest) = some (body, left ++ rest)) :
    textBody? mark text = some (body, left) := by
  obtain ⟨slash, enclosed, split⟩ := textBody?_iff.mp read
  refine textBody?_iff.mpr ⟨slash, enclosed, ?_⟩
  apply List.append_cancel_right
  rw [split, List.append_assoc, List.cons_append]

theorem startsName_lt (letter : startsName c) : c.toNat < 128 := by
  simp only [startsName, Bool.or_eq_true, beq_iff_eq] at letter
  rcases letter with (alpha | rfl) | rfl
  · rcases (Bool.or_eq_true _ _).mp alpha with upper | lower
    · have most : c.val ≤ 'Z'.val := (of_decide_eq_true upper).2
      exact Nat.lt_of_le_of_lt most (by decide)
    · have most : c.val ≤ 'z'.val := of_decide_eq_true (Bool.and_eq_true_iff.mp lower).2
      exact Nat.lt_of_le_of_lt most (by decide)
  · decide
  · decide

theorem startsName_plain (letter : startsName c) :
    isDecimalDigit c = false ∧ c ≠ '-' ∧ c ≠ '.' := by
  have all : ∀ n < 128, startsName (Char.ofNat n) →
      isDecimalDigit (Char.ofNat n) = false ∧ Char.ofNat n ≠ '-' ∧ Char.ofNat n ≠ '.' := by
    decide +kernel
  have here := all c.toNat (startsName_lt letter)
  rw [Char.ofNat_toNat] at here
  exact here letter

/-- The characters that open a quotation, a name or a mark open no numeral. -/
theorem read?_of_opener (opens : isQuote c || c == backtick || startsName c || isPunctMark c) :
    Numeral.read? (c :: rest) = none := by
  have plain : isDecimalDigit c = false ∧ c ≠ '-' ∧ c ≠ '.' := by
    simp only [Bool.or_eq_true] at opens
    rcases opens with ((quote | tick) | letter) | mark
    · rw [isQuote, Bool.or_eq_true, beq_iff_eq, beq_iff_eq] at quote
      rcases quote with rfl | rfl <;> decide
    · rw [beq_iff_eq] at tick
      subst tick
      decide
    · exact startsName_plain letter
    · have known : ("\x7b\x7d[](),:;".toList.all fun d =>
          !isDecimalDigit d && d != '-' && d != '.') = true := by
        decide
      rw [isPunctMark, List.contains_iff_mem] at mark
      simpa [and_assoc] using List.all_eq_true.mp known c mark
  exact Numeral.read?_of_head plain.1 plain.2.1 plain.2.2

theorem solidPiece?_exchange {tail : List Char} (halts : Halts after)
    (read : solidPiece? c (tail ++ rest) = some (.token lexeme, left ++ rest)) :
    solidPiece? c (tail ++ after) = some (.token lexeme, left ++ after) := by
  rw [solidPiece?] at read
  split at read
  · next numeral behind found =>
    obtain ⟨piece, rfl⟩ := Prod.mk.inj (Option.some.inj read)
    rw [← List.cons_append] at found
    have alone := Numeral.read?_cut found
    have again : Numeral.read? (c :: (tail ++ after)) = some (numeral, left ++ after) := by
      rw [← List.cons_append, Numeral.read?_halt halts, alone]
      rfl
    rw [solidPiece?, again, ← piece]
  · next missing =>
    split at read
    · next quoted =>
      obtain ⟨⟨body, behind⟩, found, same⟩ := Option.map_eq_some_iff.mp read
      obtain ⟨piece, rfl⟩ := Prod.mk.inj same
      have again : Numeral.read? (c :: (tail ++ after)) = none :=
        read?_of_opener (by simp [quoted])
      rw [solidPiece?, again]
      simp only
      rw [if_pos quoted, textBody?_append (textBody?_cut found), ← piece]
      rfl
    · next unquoted =>
      split at read
      · next named =>
        obtain ⟨piece, dropped⟩ := Prod.mk.inj (Option.some.inj read)
        have again : Numeral.read? (c :: (tail ++ after)) = none :=
          read?_of_opener (by simp [named])
        obtain ⟨taken, behind⟩ := span_cut dropped
        obtain ⟨taken', behind'⟩ := span_halt tail fun c first => (halts.stops c first).2.1
        rw [solidPiece?, again]
        simp only
        rw [if_neg unquoted, if_pos named, taken', behind', taken, behind, ← piece]
      · next unnamed =>
        split at read
        · next mark =>
          obtain ⟨piece, same⟩ := Prod.mk.inj (Option.some.inj read)
          have again : Numeral.read? (c :: (tail ++ after)) = none :=
            read?_of_opener (by simp [mark])
          rw [solidPiece?, again]
          simp only
          rw [if_neg unquoted, if_neg unnamed, if_pos mark, List.append_cancel_right same, ← piece]
        · cases read

theorem nextPiece?_of_solid {tail : List Char} (ink : isBlank c = false) (slash : c ≠ '/')
    (dots : ∀ more, c :: tail ≠ '.' :: '.' :: '.' :: more) :
    nextPiece? (c :: tail) = solidPiece? c tail := by
  rw [nextPiece?.eq_5 c tail (fun _ same => absurd same slash) (fun _ same => absurd same slash)
    fun more dot same => dots more (by rw [dot, same]), if_neg (by simp [ink])]
  rfl

theorem solidPiece?_slash (tail : List Char) : solidPiece? '/' tail = none := by
  rw [solidPiece?, Numeral.read?_of_head (by decide) (by decide) (by decide)]
  rfl

/-- A token is a spread, or starts with a character that is no blank and no slash. -/
theorem nextPiece?_token_cases {tail : List Char}
    (read : nextPiece? (c :: tail) = some (.token lexeme, rest)) :
    c :: tail = '.' :: '.' :: '.' :: rest ∧ lexeme = .ellipsis ∨
      isBlank c = false ∧ c ≠ '/' ∧ (∀ more, c :: tail ≠ '.' :: '.' :: '.' :: more) ∧
        solidPiece? c tail = some (.token lexeme, rest) := by
  unfold nextPiece? at read
  split at read
  · cases read
  · cases read
  · obtain ⟨_, -, same⟩ := Option.map_eq_some_iff.mp read
    cases same
  · next same =>
    cases read
    exact .inl ⟨same, rfl⟩
  · next c tail line block dots same =>
    cases same
    split at read
    · cases read
    · next ink =>
      have solid : solidPiece? c tail = some (.token lexeme, rest) := read
      refine .inr ⟨by simpa using ink, ?_, ?_, solid⟩
      · rintro rfl
        rw [solidPiece?_slash] at solid
        cases solid
      · intro more same
        obtain ⟨dot, behind⟩ := List.cons.inj same
        exact dots more dot behind

/-- Dots do not run on into what halts. -/
theorem Halts.dots {lead : List Char} (halts : Halts after) (dots : ∀ d ∈ lead, d = '.')
    (leads : lead <+: text ++ after) : lead <+: text := by
  rcases List.prefix_or_prefix_of_prefix leads (List.prefix_append text after) with
    inside | ⟨behind, rfl⟩
  · exact inside
  · rw [List.prefix_append_right_inj] at leads
    cases behind with
    | nil => exact (List.append_nil text).symm ▸ List.prefix_rfl
    | cons d behind =>
      obtain ⟨more, rfl⟩ := leads
      have stops := (halts.stops d rfl).2.2
      rw [dots d (by simp)] at stops
      exact absurd stops (by decide)

/-- A token that leaves a part of the text is the same where this part is followed by a blank, a
comment or the end. -/
theorem nextPiece?_exchange (halts : Halts after)
    (read : nextPiece? (text ++ rest) = some (.token lexeme, left ++ rest)) :
    nextPiece? (text ++ after) = some (.token lexeme, left ++ after) := by
  cases text with
  | nil =>
    have bound := nextPiece?_length read
    simp only [List.nil_append, List.length_append] at bound
    omega
  | cons c tail =>
    rcases nextPiece?_token_cases read with ⟨same, rfl⟩ | ⟨ink, slash, dots, solid⟩
    · have dots : c :: tail = ['.', '.', '.'] ++ left := by
        apply List.append_cancel_right
        exact same
      rw [dots, List.append_assoc]
      rfl
    · rw [List.cons_append, nextPiece?_of_solid ink slash]
      · exact solidPiece?_exchange halts solid
      · intro more same
        have leads : ['.', '.', '.'] <+: (c :: tail) ++ after := ⟨more, same.symm⟩
        obtain ⟨behind, split⟩ := halts.dots (by simp) leads
        apply dots (behind ++ rest)
        change c :: tail ++ rest = _
        rw [← split]
        rfl

end Exchange

section Pads

variable {space stretch : List Char}

/-- One blank, a block comment up to where it is closed first, or a line comment with the line feed
that ends it. -/
inductive Pad : List Char → Prop where
  | blank {c : Char} (blank : isBlank c) : Pad [c]
  | block {inner : List Char} (free : ¬ ['*', '/'] <:+: inner) :
      Pad ('/' :: '*' :: (inner ++ ['*', '/']))
  | line {inner : List Char} (whole : '\n' ∉ inner) : Pad ('/' :: '/' :: (inner ++ ['\n']))

/-- Blanks and comments in a row, but at least one of them. -/
inductive Spacing : List Char → Prop where
  | one {space : List Char} (pad : Pad space) : Spacing space
  | more {space stretch : List Char} (pad : Pad space) (others : Spacing stretch) :
      Spacing (space ++ stretch)

theorem Pad.lexes_iff (pad : Pad space) :
    Lexes (space ++ rest) lexemes ↔ Lexes rest lexemes := by
  cases pad with
  | @blank c blank =>
    have next : nextPiece? ([c] ++ rest) = some (.gap, skipBlanks rest) :=
      nextPiece?_of_blank blank
    rw [Lexes.gap_iff next, Lexes.skipBlanks_iff]
  | @block inner free =>
    have closed : afterComment? (inner ++ ['*', '/'] ++ rest) = some rest :=
      afterComment?_iff.mpr ⟨inner, free, by simp⟩
    have next : nextPiece? ('/' :: '*' :: (inner ++ ['*', '/']) ++ rest) = some (.gap, rest) := by
      rw [List.cons_append, List.cons_append, nextPiece?, closed]
      rfl
    rw [Lexes.gap_iff next]
  | @line inner whole =>
    have feed : nextPiece? ('\n' :: rest) = some (.gap, skipBlanks rest) :=
      nextPiece?_of_blank (by decide)
    have next : nextPiece? ('/' :: '/' :: (inner ++ ['\n']) ++ rest) =
        some (.gap, '\n' :: rest) := by
      have plain : ∀ c ∈ inner, (c != '\n') = true := by
        intro c member
        simpa using fun same : c = '\n' => whole (same ▸ member)
      rw [List.cons_append, List.cons_append, nextPiece?, List.append_assoc,
        List.dropWhile_append_of_pos plain]
      rfl
    rw [Lexes.gap_iff next, Lexes.gap_iff feed, Lexes.skipBlanks_iff]

theorem Spacing.lexes_iff (spacing : Spacing stretch) :
    Lexes (stretch ++ rest) lexemes ↔ Lexes rest lexemes := by
  induction spacing with
  | one pad => exact pad.lexes_iff
  | more pad _ ih => rw [List.append_assoc, pad.lexes_iff, ih]

theorem Pad.halts (pad : Pad space) (text : List Char) : Halts (space ++ text) := by
  cases pad with
  | blank blank =>
    rintro _ ⟨⟩
    exact .inl blank
  | block | line =>
    rintro _ ⟨⟩
    exact .inr rfl

theorem Spacing.halts (spacing : Spacing stretch) (text : List Char) : Halts (stretch ++ text) := by
  cases spacing with
  | one pad => exact pad.halts text
  | more pad _ =>
    rw [List.append_assoc]
    exact pad.halts _

/-- A line feed in front is a blank of its own. -/
theorem Spacing.behind_feed (spacing : Spacing ('\n' :: stretch)) :
    stretch = [] ∨ Spacing stretch := by
  have first {space behind : List Char} (pad : Pad space)
      (split : space ++ behind = '\n' :: stretch) : stretch = behind := by
    cases pad with
    | blank => exact (List.cons.inj split).2.symm
    | block | line => cases split
  generalize whole : '\n' :: stretch = all at spacing
  cases spacing with
  | one pad => exact .inl (first pad (by rw [List.append_nil, whole]))
  | more pad others =>
    rw [first pad whole.symm]
    exact .inr others

theorem Spacing.append (spacing : Spacing stretch) {others : List Char} (more : Spacing others) :
    Spacing (stretch ++ others) := by
  induction spacing with
  | one pad => exact .more pad more
  | more pad _ ih =>
    rw [List.append_assoc]
    exact .more pad ih

theorem spacing_of_blanks {c : Char} {blanks : List Char} (blank : ∀ d ∈ c :: blanks, isBlank d) :
    Spacing (c :: blanks) := by
  induction blanks generalizing c with
  | nil => exact .one (.blank (blank c (List.mem_cons_self ..)))
  | cons d blanks ih =>
    have others := ih fun e member => blank e (List.mem_cons_of_mem _ member)
    exact .more (.blank (blank c (List.mem_cons_self ..))) others

theorem solidPiece?_ne_gap (c : Char) (tail rest : List Char) :
    solidPiece? c tail ≠ some (.gap, rest) := by
  intro read
  rw [solidPiece?] at read
  split at read
  · next numeral behind found =>
    have gap := (Prod.mk.inj (Option.some.inj read)).1
    rw [Piece.ofNumeral] at gap
    split at gap <;> cases gap
  · split at read
    · obtain ⟨_, -, same⟩ := Option.map_eq_some_iff.mp read
      cases same
    · split at read
      · cases read
      · split at read <;> cases read

/-- What is passed over is spacing, or a line comment whose line feed is still to come. -/
theorem gap_cases (read : nextPiece? (space ++ rest) = some (.gap, rest)) :
    Spacing space ∨ ∃ inner, '\n' ∉ inner ∧ space = '/' :: '/' :: inner ∧
      ∀ c ∈ rest.head?, c = '\n' := by
  generalize whole : space ++ rest = all at read
  unfold nextPiece? at read
  split at read
  · cases read
  · next tail =>
    obtain ⟨-, rfl⟩ := Prod.mk.inj (Option.some.inj read)
    have split : space = '/' :: '/' :: tail.takeWhile (· != '\n') := by
      apply List.append_cancel_right
      rw [whole, List.cons_append, List.cons_append, List.takeWhile_append_dropWhile]
    refine .inr ⟨_, ?_, split, ?_⟩
    · intro feed
      exact absurd (List.mem_takeWhile_imp feed) (by decide)
    · intro c first
      have stops := List.head?_dropWhile_not (· != '\n') tail
      rw [first] at stops
      simpa using stops
  · next tail =>
    obtain ⟨after, closed, same⟩ := Option.map_eq_some_iff.mp read
    cases same
    obtain ⟨inner, free, rfl⟩ := afterComment?_iff.mp closed
    have split : space = '/' :: '*' :: (inner ++ ['*', '/']) := by
      apply List.append_cancel_right
      rw [whole]
      simp
    rw [split]
    exact .inl (.one (.block free))
  · cases read
  · next c tail _ _ _ =>
    split at read
    · next blank =>
      obtain ⟨-, rfl⟩ := Prod.mk.inj (Option.some.inj read)
      have split : space = c :: tail.takeWhile isBlank := by
        apply List.append_cancel_right
        rw [whole, List.cons_append, takeWhile_append_skipBlanks]
      have blanks : ∀ d ∈ c :: tail.takeWhile isBlank, isBlank d :=
        List.forall_mem_cons.mpr ⟨blank, fun d member => List.mem_takeWhile_imp member⟩
      rw [split]
      exact .inl (spacing_of_blanks blanks)
    · exact absurd read (solidPiece?_ne_gap c tail rest)

end Pads

end Stagecraft
