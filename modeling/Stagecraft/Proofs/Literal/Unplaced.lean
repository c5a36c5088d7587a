import Stagecraft.Proofs.Literal.Grammar

/-!
Reading goes by lexemes alone. Where the tokens stand only shows in where a fault is reported, so
texts with the same lexemes are read as the same value or refused for the same cause.
-/

namespace Stagecraft

variable {stop stop' : Nat} {tokens others : List Token}

/-- What is wrong with a text, wherever in it that is. -/
def ReadFault.cause : ReadFault → SyntaxProblem ⊕ Limit
  | malformed error => .inl error.problem
  | beyond limit => .inr limit

/-- The answers of a reader to tokens in two places: the same is read and the same lexemes are left,
or both lists are refused for the same cause. -/
inductive ReadAlike {α : Type} (tokens others : List Token) :
    Except ReadFault (α × Rest tokens) → Except ReadFault (α × Rest others) → Prop where
  | read {answer : α} {rest : Rest tokens} {rest' : Rest others}
      (left : lexemesOf rest.1 = lexemesOf rest'.1) :
      ReadAlike tokens others (.ok (answer, rest)) (.ok (answer, rest'))
  | failed {fault fault' : ReadFault} (cause : fault.cause = fault'.cause) :
      ReadAlike tokens others (.error fault) (.error fault')

theorem placeOf_lexeme (same : lexemesOf tokens = lexemesOf others) :
    (placeOf stop tokens).1 = (placeOf stop' others).1 := by
  cases tokens with
  | nil =>
    cases others with
    | nil => rfl
    | cons => cases same
  | cons token tail =>
    cases others with
    | nil => cases same
    | cons other tail' => exact congrArg some (List.cons.inj same).1

theorem failAt_cause (stop stop' : Nat) (same : lexemesOf tokens = lexemesOf others)
    (problem : Option Lexeme → SyntaxProblem) :
    (ReadFault.malformed ⟨problem (placeOf stop tokens).1, (placeOf stop tokens).2⟩).cause =
      (ReadFault.malformed ⟨problem (placeOf stop' others).1, (placeOf stop' others).2⟩).cause := by
  rw [ReadFault.cause, ReadFault.cause, placeOf_lexeme same]

theorem readAlike_failAt {α : Type} (problem : Option Lexeme → SyntaxProblem)
    (same : lexemesOf tokens = lexemesOf others) :
    ReadAlike (α := α) tokens others (failAt stop tokens problem) (failAt stop' others problem) :=
  .failed (failAt_cause stop stop' same problem)

theorem startsWithMark_alike (mark : Char) (same : lexemesOf tokens = lexemesOf others) :
    startsWithMark mark tokens = startsWithMark mark others := by
  rw [startsWithMark_eq, startsWithMark_eq, same]

theorem lexemesOf_tail (same : lexemesOf tokens = lexemesOf others) :
    lexemesOf tokens.tail = lexemesOf others.tail := by
  rw [lexemesOf, lexemesOf, List.map_tail, List.map_tail]
  exact congrArg List.tail same

/-- A separator is found behind the same lexeme, or missing for the same cause. -/
theorem readSeparator_alike (stop stop' : Nat) (closer : Char)
    (same : lexemesOf tokens = lexemesOf others) :
    (∃ next within next' within', readSeparator stop closer tokens = .ok ⟨next, within⟩ ∧
      readSeparator stop' closer others = .ok ⟨next', within'⟩ ∧
      lexemesOf next = lexemesOf next') ∨
    ∃ fault fault', readSeparator stop closer tokens = .error fault ∧
      readSeparator stop' closer others = .error fault' ∧ fault.cause = fault'.cause := by
  rw [readSeparator, readSeparator, startsWithMark_alike ',' same, startsWithMark_alike closer same]
  split
  · exact .inl ⟨tokens.tail, by simp, others.tail, by simp, rfl, rfl, lexemesOf_tail same⟩
  · split
    · exact .inl ⟨tokens, Nat.le_refl _, others, Nat.le_refl _, rfl, rfl, same⟩
    · exact .inr ⟨_, _, rfl, rfl, failAt_cause stop stop' same _⟩

mutual

theorem readAlike_value : (tokens others : List Token) →
    lexemesOf tokens = lexemesOf others → (room : Nat) →
    ReadAlike tokens others (readValue stop room tokens) (readValue stop' room others)
  | [], [], same, room => by
    rw [readValue, readValue]
    exact readAlike_failAt _ same
  | ⟨lexeme, offset⟩ :: tail, ⟨_, offset'⟩ :: tail', same, room => by
    obtain ⟨rfl, behind⟩ := List.cons.inj same
    rw [readValue, readValue]
    cases lexeme with
    | int n => exact .read behind
    | float x => exact .read behind
    | str text => exact .read behind
    | ellipsis => exact readAlike_failAt _ same
    | punct mark =>
      simp only
      split
      · cases roomInside? 2 room with
        | none => exact .failed rfl
        | some inside =>
          have inner := readAlike_members tail tail' behind inside
          simp only
          generalize readMembers stop inside tail = here,
            readMembers stop' inside tail' = there at inner
          cases inner with
          | read left => exact .read left
          | failed cause => exact .failed cause
      · split
        · cases roomInside? 3 room with
          | none => exact .failed rfl
          | some inside =>
            have inner := readAlike_items ']' tail tail' behind inside
            simp only
            generalize readItems stop inside ']' tail = here,
              readItems stop' inside ']' tail' = there at inner
            cases inner with
            | read left => exact .read left
            | failed cause => exact .failed cause
        · exact readAlike_failAt _ same
    | name id =>
      have args := lexemesOf_tail behind
      simp only [startsWithMark_alike '(' behind]
      split
      · exact .read behind
      · split
        · cases roomInside? 2 room with
          | none => exact .failed rfl
          | some inside =>
            have inner := readAlike_items ')' tail.tail tail'.tail args inside
            simp only
            generalize readItems stop inside ')' tail.tail = here,
              readItems stop' inside ')' tail'.tail = there at inner
            cases inner with
            | read left => exact .read left
            | failed cause => exact .failed cause
        · exact .read behind
termination_by tokens => 3 * tokens.length
decreasing_by all_goals simp only [List.length_cons, List.length_tail]; omega

theorem readAlike_item : (tokens others : List Token) →
    lexemesOf tokens = lexemesOf others → (room : Nat) →
    ReadAlike tokens others (readItem stop room tokens) (readItem stop' room others)
  | [], [], same, room => by
    rw [readItem, readItem]
    exact readAlike_failAt _ same
  | ⟨lexeme, offset⟩ :: tail, ⟨_, offset'⟩ :: tail', same, room => by
    obtain ⟨rfl, behind⟩ := List.cons.inj same
    rw [readItem, readItem]
    cases lexeme with
    | ellipsis =>
      have inner := readAlike_value tail tail' behind room
      simp only
      generalize readValue stop room tail = here, readValue stop' room tail' = there at inner
      cases inner with
      | read left => exact .read left
      | failed cause => exact .failed cause
    | _ => exact readAlike_value _ _ same room
termination_by tokens => 3 * tokens.length + 1
decreasing_by all_goals simp only [List.length_cons]; omega

theorem readAlike_items (closer : Char) : (tokens others : List Token) →
    lexemesOf tokens = lexemesOf others → (room : Nat) →
    ReadAlike tokens others (readItems stop room closer tokens) (readItems stop' room closer others)
  | [], [], same, room => by
    rw [readItems, readItems]
    exact readAlike_failAt _ same
  | ⟨lexeme, offset⟩ :: tail, ⟨_, offset'⟩ :: tail', same, room => by
    obtain ⟨rfl, behind⟩ := List.cons.inj same
    rw [readItems, readItems]
    split
    · exact .read behind
    · have item := readAlike_item (⟨lexeme, offset⟩ :: tail) (⟨lexeme, offset'⟩ :: tail')
        same room
      generalize readItem stop room (⟨lexeme, offset⟩ :: tail) = here,
        readItem stop' room (⟨lexeme, offset'⟩ :: tail') = there at item
      cases item with
      | failed cause => exact .failed cause
      | @read value rest rest' left =>
        obtain ⟨rest, shorter⟩ := rest
        obtain ⟨rest', shorter'⟩ := rest'
        simp only
        rcases readSeparator_alike stop stop' closer left with
          ⟨next, within, next', within', here, there, left⟩ | ⟨fault, fault', here, there, cause⟩
        · have less : next.length < tail.length + 1 := Nat.lt_of_le_of_lt within shorter
          rw [here, there]
          have inner := readAlike_items closer next next' left room
          simp only
          generalize readItems stop room closer next = here,
            readItems stop' room closer next' = there at inner
          cases inner with
          | read left => exact .read left
          | failed cause => exact .failed cause
        · rw [here, there]
          exact .failed cause
termination_by tokens => 3 * tokens.length + 2
decreasing_by all_goals simp only [List.length_cons]; omega

theorem readAlike_member : (tokens others : List Token) →
    lexemesOf tokens = lexemesOf others → (room : Nat) →
    ReadAlike tokens others (readMember stop room tokens) (readMember stop' room others)
  | [], [], same, room => by
    rw [readMember, readMember]
    exact readAlike_failAt _ same
  | ⟨lexeme, offset⟩ :: tail, ⟨_, offset'⟩ :: tail', same, room => by
    obtain ⟨rfl, behind⟩ := List.cons.inj same
    have value := lexemesOf_tail behind
    rw [readMember, readMember]
    simp only [startsWithMark_alike ':' behind]
    split
    · have inner := readAlike_value tail tail' behind room
      generalize readValue stop room tail = here, readValue stop' room tail' = there at inner
      cases inner with
      | read left => exact .read left
      | failed cause => exact .failed cause
    · exact readAlike_failAt _ same
    · split
      · have inner := readAlike_value tail.tail tail'.tail value room
        generalize readValue stop room tail.tail = here,
          readValue stop' room tail'.tail = there at inner
        cases inner with
        | read left => exact .read left
        | failed cause => exact .failed cause
      · exact .read behind
termination_by tokens => 3 * tokens.length + 1
decreasing_by all_goals simp only [List.length_cons, List.length_tail]; omega

theorem readAlike_members : (tokens others : List Token) →
    lexemesOf tokens = lexemesOf others → (room : Nat) →
    ReadAlike tokens others (readMembers stop room tokens) (readMembers stop' room others)
  | [], [], same, room => by
    rw [readMembers, readMembers]
    exact readAlike_failAt _ same
  | ⟨lexeme, offset⟩ :: tail, ⟨_, offset'⟩ :: tail', same, room => by
    obtain ⟨rfl, behind⟩ := List.cons.inj same
    rw [readMembers, readMembers]
    split
    · exact .read behind
    · have member := readAlike_member (⟨lexeme, offset⟩ :: tail) (⟨lexeme, offset'⟩ :: tail')
        same room
      generalize readMember stop room (⟨lexeme, offset⟩ :: tail) = here,
        readMember stop' room (⟨lexeme, offset'⟩ :: tail') = there at member
      cases member with
      | failed cause => exact .failed cause
      | @read member rest rest' left =>
        obtain ⟨rest, shorter⟩ := rest
        obtain ⟨rest', shorter'⟩ := rest'
        simp only
        rcases readSeparator_alike stop stop' '\x7d' left with
          ⟨next, within, next', within', here, there, left⟩ | ⟨fault, fault', here, there, cause⟩
        · have less : next.length < tail.length + 1 := Nat.lt_of_le_of_lt within shorter
          rw [here, there]
          have inner := readAlike_members next next' left room
          simp only
          generalize readMembers stop room next = here,
            readMembers stop' room next' = there at inner
          cases inner with
          | read left => exact .read left
          | failed cause => exact .failed cause
        · rw [here, there]
          exact .failed cause
termination_by tokens => 3 * tokens.length + 2
decreasing_by all_goals simp only [List.length_cons]; omega

end

theorem dropMarks_alike (same : lexemesOf tokens = lexemesOf others) :
    lexemesOf (dropMarks tokens) = lexemesOf (dropMarks others) := by
  have marks (tokens : List Token) : lexemesOf (dropMarks tokens) =
      (lexemesOf tokens).dropWhile fun lexeme => lexeme.isPunct ',' || lexeme.isPunct ';' := by
    rw [lexemesOf, lexemesOf, dropMarks, List.dropWhile_map]
    rfl
  rw [marks, marks, same]

/-- Tokens with the same lexemes give the same value, or are refused for the same cause. -/
theorem readTokens_alike (stop stop' : Nat) (same : lexemesOf tokens = lexemesOf others) :
    (readTokens stop tokens).mapError ReadFault.cause =
      (readTokens stop' others).mapError ReadFault.cause := by
  rw [readTokens, readTokens, readWithin, readWithin]
  have read : ReadAlike tokens others (readValue stop nestingRoom tokens)
      (readValue stop' nestingRoom others) := readAlike_value tokens others same nestingRoom
  generalize readValue stop nestingRoom tokens = here,
    readValue stop' nestingRoom others = there at read
  cases read with
  | failed cause => exact congrArg Except.error cause
  | @read value rest rest' left =>
    have marks := dropMarks_alike left
    simp only
    cases here : dropMarks rest.1 with
    | nil =>
      cases there : dropMarks rest'.1 with
      | nil => rfl
      | cons => simp [here, there, lexemesOf] at marks
    | cons token tail =>
      cases there : dropMarks rest'.1 with
      | nil => simp [here, there, lexemesOf] at marks
      | cons token' tail' =>
        rw [here, there] at marks
        have lexeme : token.lexeme = token'.lexeme := (List.cons.inj marks).1
        simp only [Except.mapError, ReadFault.cause, lexeme]

end Stagecraft
