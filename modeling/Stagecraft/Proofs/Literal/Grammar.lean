import Mathlib.Data.List.TakeWhile
import Stagecraft.Literal.Reader
import Stagecraft.Proofs.Literal.Lines

/-!
The literal notation as a grammar over lexemes. The reader reads what the grammar derives and
nothing else; a derivation looks at most one lexeme behind its end, and only for what could go on
with a call or a key.
-/

namespace Stagecraft

/-- What is to be read, and the room for it. -/
inductive Goal where
  | value (room : Nat)
  | item (room : Nat)
  | items (room : Nat) (closer : Char)
  | member (room : Nat)
  | members (room : Nat)

abbrev Goal.Answer : Goal → Type
  | value _ | item _ => Value
  | items _ _ => List Value
  | member _ => Member
  | members _ => List Member

def headIs (mark : Char) : List Lexeme → Bool
  | [] => false
  | lexeme :: _ => lexeme.isPunct mark

/-- The grammar: the lexemes, what they are read as, and those that are left. -/
inductive Reads : (goal : Goal) → List Lexeme → goal.Answer → List Lexeme → Prop where
  | int {room : Nat} {more : List Lexeme} (n : Int) :
      Reads (.value room) (.int n :: more) (.int n) more
  | float {room : Nat} {more : List Lexeme} (x : Float) :
      Reads (.value room) (.float x :: more) (.float x) more
  | str {room : Nat} {more : List Lexeme} (text : String) :
      Reads (.value room) (.str text :: more) (.str text) more
  | word {room : Nat} {more : List Lexeme} {id : String} {value : Value}
      (word : wordValue? id = some value) : Reads (.value room) (.name id :: more) value more
  | name {room : Nat} {more : List Lexeme} {id : String} (plain : wordValue? id = none)
      (alone : headIs '(' more = false) : Reads (.value room) (.name id :: more) (.name id) more
  | call {room inside : Nat} {more rest : List Lexeme} {id : String} {args : List Value}
      (plain : wordValue? id = none) (fits : roomInside? 2 room = some inside)
      (inner : Reads (.items inside ')') more args rest) :
      Reads (.value room) (.name id :: .punct '(' :: more) (.call id args) rest
  | object {room inside : Nat} {more rest : List Lexeme} {members : List Member}
      (fits : roomInside? 2 room = some inside)
      (inner : Reads (.members inside) more members rest) :
      Reads (.value room) (.punct '\x7b' :: more) (objectOf members) rest
  | array {room inside : Nat} {more rest : List Lexeme} {items : List Value}
      (fits : roomInside? 3 room = some inside)
      (inner : Reads (.items inside ']') more items rest) :
      Reads (.value room) (.punct '[' :: more) (.list items) rest
  | spreadItem {room : Nat} {more rest : List Lexeme} {value : Value}
      (inner : Reads (.value room) more value rest) :
      Reads (.item room) (.ellipsis :: more) (.spread value) rest
  | plainItem {room : Nat} {all rest : List Lexeme} {value : Value}
      (inner : Reads (.value room) all value rest) : Reads (.item room) all value rest
  | noItem {room : Nat} {closer : Char} {more : List Lexeme} :
      Reads (.items room closer) (.punct closer :: more) [] more
  | nextItem {room : Nat} {closer : Char} {all next rest : List Lexeme} {value : Value}
      {values : List Value} (inside : headIs closer all = false)
      (first : Reads (.item room) all value (.punct ',' :: next))
      (others : Reads (.items room closer) next values rest) :
      Reads (.items room closer) all (value :: values) rest
  | lastItem {room : Nat} {closer : Char} {all rest : List Lexeme} {value : Value}
      (inside : headIs closer all = false) (other : closer ≠ ',')
      (first : Reads (.item room) all value (.punct closer :: rest)) :
      Reads (.items room closer) all [value] rest
  | spreadMember {room : Nat} {more rest : List Lexeme} {value : Value}
      (inner : Reads (.value room) more value rest) :
      Reads (.member room) (.ellipsis :: more) (.spread value) rest
  | entry {room : Nat} {lexeme : Lexeme} {more rest : List Lexeme} {key : String} {value : Value}
      (named : lexeme.key? = some key) (inner : Reads (.value room) more value rest) :
      Reads (.member room) (lexeme :: .punct ':' :: more) (.entry key value) rest
  | keyAlone {room : Nat} {lexeme : Lexeme} {more : List Lexeme} {key : String}
      (named : lexeme.key? = some key) (alone : headIs ':' more = false) :
      Reads (.member room) (lexeme :: more) (.entry key (.name key)) more
  | noMember {room : Nat} {more : List Lexeme} :
      Reads (.members room) (.punct '\x7d' :: more) [] more
  | nextMember {room : Nat} {all next rest : List Lexeme} {member : Member}
      {members : List Member} (inside : headIs '\x7d' all = false)
      (first : Reads (.member room) all member (.punct ',' :: next))
      (others : Reads (.members room) next members rest) :
      Reads (.members room) all (member :: members) rest
  | lastMember {room : Nat} {all rest : List Lexeme} {member : Member}
      (inside : headIs '\x7d' all = false)
      (first : Reads (.member room) all member (.punct '\x7d' :: rest)) :
      Reads (.members room) all [member] rest

variable {goal : Goal} {answer : goal.Answer} {all rest after : List Lexeme}

/-- Neither goes on with a call or a key where the other does not. -/
def Alike (rest after : List Lexeme) : Prop :=
  headIs '(' rest = headIs '(' after ∧ headIs ':' rest = headIs ':' after

theorem alike_of_head {lexeme : Lexeme} : Alike (lexeme :: rest) (lexeme :: after) := ⟨rfl, rfl⟩

theorem headIs_append {mark : Char} {used : List Lexeme} (filled : used ≠ []) :
    headIs mark (used ++ rest) = headIs mark (used ++ after) := by
  cases used with
  | nil => exact absurd rfl filled
  | cons lexeme used => rfl

/-- What stands behind a derivation can be exchanged. -/
theorem Reads.exchange (read : Reads goal all answer rest) :
    ∃ used, used ≠ [] ∧ all = used ++ rest ∧
      ∀ after, Alike rest after → Reads goal (used ++ after) answer after := by
  induction read with
  | int n => exact ⟨[.int n], by simp, rfl, fun after _ => .int n⟩
  | float x => exact ⟨[.float x], by simp, rfl, fun after _ => .float x⟩
  | str text => exact ⟨[.str text], by simp, rfl, fun after _ => .str text⟩
  | @word _ _ id _ word => exact ⟨[.name id], by simp, rfl, fun after _ => .word word⟩
  | @name _ _ id plain alone =>
    exact ⟨[.name id], by simp, rfl, fun after alike => .name plain (alike.1 ▸ alone)⟩
  | @call _ _ _ _ id _ plain fits _ ih =>
    obtain ⟨used, -, rfl, kept⟩ := ih
    exact ⟨.name id :: .punct '(' :: used, by simp, rfl,
      fun after alike => .call plain fits (kept after alike)⟩
  | object fits _ ih =>
    obtain ⟨used, -, rfl, kept⟩ := ih
    exact ⟨.punct '\x7b' :: used, by simp, rfl, fun after alike => .object fits (kept after alike)⟩
  | array fits _ ih =>
    obtain ⟨used, -, rfl, kept⟩ := ih
    exact ⟨.punct '[' :: used, by simp, rfl, fun after alike => .array fits (kept after alike)⟩
  | spreadItem _ ih =>
    obtain ⟨used, -, rfl, kept⟩ := ih
    exact ⟨.ellipsis :: used, by simp, rfl, fun after alike => .spreadItem (kept after alike)⟩
  | plainItem _ ih =>
    obtain ⟨used, filled, rfl, kept⟩ := ih
    exact ⟨used, filled, rfl, fun after alike => .plainItem (kept after alike)⟩
  | @noItem _ closer _ => exact ⟨[.punct closer], by simp, rfl, fun after _ => .noItem⟩
  | nextItem inside _ _ ih ih' =>
    obtain ⟨first, filled, rfl, kept⟩ := ih
    obtain ⟨others, -, rfl, kept'⟩ := ih'
    refine ⟨first ++ .punct ',' :: others, by simp, by simp, ?_⟩
    intro after alike
    rw [List.append_assoc]
    exact .nextItem (headIs_append filled ▸ inside) (kept _ alike_of_head) (kept' after alike)
  | @lastItem _ closer _ _ _ inside other _ ih =>
    obtain ⟨first, filled, rfl, kept⟩ := ih
    refine ⟨first ++ [.punct closer], by simp, by simp, ?_⟩
    intro after alike
    rw [List.append_assoc]
    exact .lastItem (headIs_append filled ▸ inside) other (kept _ alike_of_head)
  | spreadMember _ ih =>
    obtain ⟨used, -, rfl, kept⟩ := ih
    exact ⟨.ellipsis :: used, by simp, rfl, fun after alike => .spreadMember (kept after alike)⟩
  | @entry _ lexeme _ _ _ _ named _ ih =>
    obtain ⟨used, -, rfl, kept⟩ := ih
    exact ⟨lexeme :: .punct ':' :: used, by simp, rfl,
      fun after alike => .entry named (kept after alike)⟩
  | @keyAlone _ lexeme _ _ named alone =>
    exact ⟨[lexeme], by simp, rfl, fun after alike => .keyAlone named (alike.2 ▸ alone)⟩
  | noMember => exact ⟨[.punct '\x7d'], by simp, rfl, fun after _ => .noMember⟩
  | nextMember inside _ _ ih ih' =>
    obtain ⟨first, filled, rfl, kept⟩ := ih
    obtain ⟨others, -, rfl, kept'⟩ := ih'
    refine ⟨first ++ .punct ',' :: others, by simp, by simp, ?_⟩
    intro after alike
    rw [List.append_assoc]
    exact .nextMember (headIs_append filled ▸ inside) (kept _ alike_of_head) (kept' after alike)
  | lastMember inside _ ih =>
    obtain ⟨first, filled, rfl, kept⟩ := ih
    refine ⟨first ++ [.punct '\x7d'], by simp, by simp, ?_⟩
    intro after alike
    rw [List.append_assoc]
    exact .lastMember (headIs_append filled ▸ inside) (kept _ alike_of_head)

theorem isPunct_iff {mark : Char} {lexeme : Lexeme} :
    lexeme.isPunct mark = true ↔ lexeme = .punct mark := by
  cases lexeme <;> simp [Lexeme.isPunct]

theorem headIs_iff {mark : Char} : headIs mark all = true ↔ ∃ more, all = .punct mark :: more := by
  cases all with
  | nil => simp [headIs]
  | cons lexeme more => simp [headIs, isPunct_iff]

theorem not_isPunct_of_headIs {mark : Char} {token : Token} {tail : List Token}
    (other : headIs mark (lexemesOf (token :: tail)) = false) :
    ¬ token.lexeme.isPunct mark = true :=
  Bool.eq_false_iff.mp other

theorem startsWithMark_eq {mark : Char} (tokens : List Token) :
    startsWithMark mark tokens = headIs mark (lexemesOf tokens) := by
  cases tokens with
  | nil => rfl
  | cons token tail => rfl

def Goal.read (stop : Nat) : (goal : Goal) → (tokens : List Token) →
    Except ReadFault (goal.Answer × Rest tokens)
  | value room, tokens => readValue stop room tokens
  | item room, tokens => readItem stop room tokens
  | items room closer, tokens => readItems stop room closer tokens
  | member room, tokens => readMember stop room tokens
  | members room, tokens => readMembers stop room tokens

section Reader

variable {stop : Nat} {tokens : List Token}

/-- A separator is a comma that is passed over or the closing mark in its place. -/
theorem readSeparator_ok {closer : Char} {next : List Token} {within : next.length ≤ tokens.length}
    (separated : readSeparator stop closer tokens = .ok ⟨next, within⟩) :
    lexemesOf tokens = .punct ',' :: lexemesOf next ∨
      closer ≠ ',' ∧ next = tokens ∧ headIs closer (lexemesOf tokens) = true := by
  rw [readSeparator] at separated
  split at separated
  · next comma =>
    cases separated
    rw [startsWithMark_eq, headIs_iff] at comma
    obtain ⟨more, same⟩ := comma
    left
    cases tokens with
    | nil => cases same
    | cons token tail => rw [same, ← (List.cons.inj same).2, List.tail_cons, lexemesOf]
  · next other =>
    split at separated
    · next closed =>
      cases separated
      rw [startsWithMark_eq] at closed other
      refine .inr ⟨?_, rfl, closed⟩
      rintro rfl
      exact other closed
    · cases separated

theorem readSeparator_comma {closer : Char} {offset : Nat} :
    readSeparator stop closer (⟨.punct ',', offset⟩ :: tokens) = .ok ⟨tokens, Nat.le_succ _⟩ := rfl

theorem readSeparator_closer {closer : Char} (other : closer ≠ ',') {offset : Nat} :
    readSeparator stop closer (⟨.punct closer, offset⟩ :: tokens) =
      .ok ⟨⟨.punct closer, offset⟩ :: tokens, Nat.le_refl _⟩ := by
  have plain : ¬ startsWithMark ',' (⟨.punct closer, offset⟩ :: tokens) = true := by
    simpa [startsWithMark, Lexeme.isPunct] using other
  have closed : startsWithMark closer (⟨.punct closer, offset⟩ :: tokens) = true := by
    simp [startsWithMark, Lexeme.isPunct]
  rw [readSeparator, if_neg plain, if_pos closed]

theorem failAt_ne_ok {α : Type} {problem : Option Lexeme → SyntaxProblem} {result : α} :
    failAt stop tokens problem ≠ .ok result := by
  intro same
  cases same

mutual

theorem reads_value : {tokens : List Token} → {room : Nat} → {value : Value} →
    {rest : Rest tokens} → readValue stop room tokens = .ok (value, rest) →
    Reads (.value room) (lexemesOf tokens) value (lexemesOf rest.1)
  | [], _, _, _, read => by
    rw [readValue] at read
    exact absurd read failAt_ne_ok
  | token :: tail, _, _, _, read => by
    obtain ⟨lexeme, offset⟩ := token
    rw [readValue] at read
    cases lexeme with
    | int n =>
      cases read
      exact .int n
    | float x =>
      cases read
      exact .float x
    | str text =>
      cases read
      exact .str text
    | ellipsis => exact absurd read failAt_ne_ok
    | punct mark =>
      simp only at read
      split at read
      · next brace =>
        subst brace
        split at read
        · cases read
        · next inside fits =>
          split at read
          · cases read
          · next inner =>
            cases read
            exact .object fits (reads_members inner)
      · split at read
        · next bracket =>
          subst bracket
          split at read
          · cases read
          · next inside fits =>
            split at read
            · cases read
            · next inner =>
              cases read
              exact .array fits (reads_items inner)
        · exact absurd read failAt_ne_ok
    | name id =>
      simp only at read
      split at read
      · next word =>
        cases read
        exact .word word
      · next plain =>
        split at read
        · next opened =>
          split at read
          · cases read
          · next inside fits =>
            split at read
            · cases read
            · next inner =>
              cases read
              have args := reads_items inner
              cases tail with
              | nil => cases opened
              | cons paren tail =>
                obtain ⟨lexeme, place⟩ := paren
                obtain rfl : lexeme = .punct '(' := isPunct_iff.mp opened
                exact .call plain fits args
        · next alone =>
          cases read
          refine .name plain ?_
          rw [← Bool.not_eq_true]
          rwa [startsWithMark_eq] at alone
termination_by tokens => 3 * tokens.length
decreasing_by all_goals simp only [List.length_cons, List.length_tail]; omega

theorem reads_item : {tokens : List Token} → {room : Nat} → {value : Value} → {rest : Rest tokens} →
    readItem stop room tokens = .ok (value, rest) →
    Reads (.item room) (lexemesOf tokens) value (lexemesOf rest.1)
  | [], _, _, _, read => by
    rw [readItem] at read
    exact absurd read failAt_ne_ok
  | token :: tail, _, _, _, read => by
    obtain ⟨lexeme, offset⟩ := token
    rw [readItem] at read
    split at read
    · next dots =>
      obtain rfl : lexeme = .ellipsis := dots
      split at read
      · cases read
      · next inner =>
        cases read
        exact .spreadItem (reads_value inner)
    · exact .plainItem (reads_value read)
termination_by tokens => 3 * tokens.length + 1
decreasing_by all_goals simp only [List.length_cons]; omega

theorem reads_items : {tokens : List Token} → {room : Nat} → {closer : Char} →
    {values : List Value} → {rest : Rest tokens} → readItems stop room closer tokens = .ok (values, rest) →
    Reads (.items room closer) (lexemesOf tokens) values (lexemesOf rest.1)
  | [], _, closer, _, _, read => by
    rw [readItems] at read
    exact absurd read failAt_ne_ok
  | token :: tail, _, closer, _, _, read => by
    rw [readItems] at read
    split at read
    · next closed =>
      cases read
      obtain ⟨lexeme, offset⟩ := token
      obtain rfl : lexeme = .punct closer := isPunct_iff.mp closed
      exact .noItem
    · next open' =>
      split at read
      · cases read
      · next value after shorter first =>
        split at read
        · cases read
        · next next' within separated =>
          split at read
          · cases read
          · next others =>
            cases read
            have inside : headIs closer (lexemesOf (token :: tail)) = false := by
              rwa [← Bool.not_eq_true]
            have less : next'.length < tail.length + 1 := Nat.lt_of_le_of_lt within shorter
            have item := reads_item first
            have behind := reads_items others
            rcases readSeparator_ok separated with comma | ⟨other, rfl, closed⟩
            · rw [comma] at item
              exact .nextItem inside item behind
            · obtain ⟨more, same⟩ := headIs_iff.mp closed
              rw [same] at item behind
              cases behind with
              | noItem => exact .lastItem inside other item
              | nextItem outside => simp [headIs, Lexeme.isPunct] at outside
              | lastItem outside => simp [headIs, Lexeme.isPunct] at outside
termination_by tokens => 3 * tokens.length + 2
decreasing_by all_goals simp only [List.length_cons]; omega

theorem reads_member : {tokens : List Token} → {room : Nat} → {member : Member} →
    {rest : Rest tokens} → readMember stop room tokens = .ok (member, rest) →
    Reads (.member room) (lexemesOf tokens) member (lexemesOf rest.1)
  | [], _, _, _, read => by
    rw [readMember] at read
    exact absurd read failAt_ne_ok
  | token :: tail, _, _, _, read => by
    obtain ⟨lexeme, offset⟩ := token
    rw [readMember] at read
    split at read
    · next dots =>
      obtain rfl : lexeme = .ellipsis := dots
      split at read
      · cases read
      · next inner =>
        cases read
        exact .spreadMember (reads_value inner)
    · exact absurd read failAt_ne_ok
    · next key named _ =>
      split at read
      · next colon =>
        split at read
        · cases read
        · next inner =>
          cases read
          have value := reads_value inner
          cases tail with
          | nil => cases colon
          | cons mark tail =>
            obtain ⟨mark, place⟩ := mark
            obtain rfl : mark = .punct ':' := isPunct_iff.mp colon
            exact .entry named value
      · next alone =>
        cases read
        refine .keyAlone named ?_
        rw [← Bool.not_eq_true]
        rwa [startsWithMark_eq] at alone
termination_by tokens => 3 * tokens.length + 1
decreasing_by all_goals simp only [List.length_cons, List.length_tail]; omega

theorem reads_members : {tokens : List Token} → {room : Nat} → {members : List Member} →
    {rest : Rest tokens} → readMembers stop room tokens = .ok (members, rest) →
    Reads (.members room) (lexemesOf tokens) members (lexemesOf rest.1)
  | [], _, _, _, read => by
    rw [readMembers] at read
    exact absurd read failAt_ne_ok
  | token :: tail, _, _, _, read => by
    rw [readMembers] at read
    split at read
    · next closed =>
      cases read
      obtain ⟨lexeme, offset⟩ := token
      obtain rfl : lexeme = .punct '\x7d' := isPunct_iff.mp closed
      exact .noMember
    · next open' =>
      split at read
      · cases read
      · next member after shorter first =>
        split at read
        · cases read
        · next next' within separated =>
          split at read
          · cases read
          · next others =>
            cases read
            have inside : headIs '\x7d' (lexemesOf (token :: tail)) = false := by
              rwa [← Bool.not_eq_true]
            have less : next'.length < tail.length + 1 := Nat.lt_of_le_of_lt within shorter
            have member := reads_member first
            have behind := reads_members others
            rcases readSeparator_ok separated with comma | ⟨-, rfl, closed⟩
            · rw [comma] at member
              exact .nextMember inside member behind
            · obtain ⟨more, same⟩ := headIs_iff.mp closed
              rw [same] at member behind
              cases behind with
              | noMember => exact .lastMember inside member
              | nextMember outside => simp [headIs, Lexeme.isPunct] at outside
              | lastMember outside => simp [headIs, Lexeme.isPunct] at outside
termination_by tokens => 3 * tokens.length + 2
decreasing_by all_goals simp only [List.length_cons]; omega

end

theorem lexemesOf_eq_cons {lexeme : Lexeme} {more : List Lexeme} :
    lexemesOf tokens = lexeme :: more ↔
      ∃ offset tail, tokens = ⟨lexeme, offset⟩ :: tail ∧ lexemesOf tail = more := by
  constructor
  · intro same
    cases tokens with
    | nil => cases same
    | cons token tail =>
      obtain ⟨other, offset⟩ := token
      obtain ⟨rfl, behind⟩ := List.cons.inj same
      exact ⟨offset, tail, rfl, behind⟩
  · rintro ⟨offset, tail, rfl, rfl⟩
    rfl

/-- Tokens with these lexemes are read so, wherever they stand. -/
def Goal.Answers (stop : Nat) (goal : Goal) (all : List Lexeme) (answer : goal.Answer)
    (rest : List Lexeme) : Prop :=
  ∀ tokens, lexemesOf tokens = all →
    ∃ out, goal.read stop tokens = .ok (answer, out) ∧ lexemesOf out.1 = rest

section Answers

variable {room inside : Nat} {more next : List Lexeme} {id key : String} {value : Value}
  {values : List Value} {member : Member} {members : List Member} {closer : Char}
  {lexeme : Lexeme}

theorem answers_int (n : Int) :
    (Goal.value room).Answers stop (.int n :: more) (.int n) more := by
  intro tokens same
  obtain ⟨offset, tail, rfl, rfl⟩ := lexemesOf_eq_cons.mp same
  exact ⟨⟨tail, Nat.lt_succ_self _⟩, by rw [Goal.read, readValue], rfl⟩

theorem answers_float (x : Float) :
    (Goal.value room).Answers stop (.float x :: more) (.float x) more := by
  intro tokens same
  obtain ⟨offset, tail, rfl, rfl⟩ := lexemesOf_eq_cons.mp same
  exact ⟨⟨tail, Nat.lt_succ_self _⟩, by rw [Goal.read, readValue], rfl⟩

theorem answers_str (text : String) :
    (Goal.value room).Answers stop (.str text :: more) (.str text) more := by
  intro tokens same
  obtain ⟨offset, tail, rfl, rfl⟩ := lexemesOf_eq_cons.mp same
  exact ⟨⟨tail, Nat.lt_succ_self _⟩, by rw [Goal.read, readValue], rfl⟩

theorem answers_word (word : wordValue? id = some value) :
    (Goal.value room).Answers stop (.name id :: more) value more := by
  intro tokens same
  obtain ⟨offset, tail, rfl, rfl⟩ := lexemesOf_eq_cons.mp same
  refine ⟨⟨tail, Nat.lt_succ_self _⟩, ?_, rfl⟩
  rw [Goal.read, readValue]
  simp only [word]

theorem answers_name (plain : wordValue? id = none) (alone : headIs '(' more = false) :
    (Goal.value room).Answers stop (.name id :: more) (.name id) more := by
  intro tokens same
  obtain ⟨offset, tail, rfl, rfl⟩ := lexemesOf_eq_cons.mp same
  rw [← startsWithMark_eq] at alone
  refine ⟨⟨tail, Nat.lt_succ_self _⟩, ?_, rfl⟩
  rw [Goal.read, readValue]
  simp only [plain, alone, Bool.false_eq_true, if_false]

theorem answers_call (plain : wordValue? id = none) (fits : roomInside? 2 room = some inside)
    (args : (Goal.items inside ')').Answers stop more values rest) :
    (Goal.value room).Answers stop (.name id :: .punct '(' :: more) (.call id values) rest := by
  intro tokens same
  obtain ⟨offset, opened, rfl, behind⟩ := lexemesOf_eq_cons.mp same
  obtain ⟨place, tail, rfl, rfl⟩ := lexemesOf_eq_cons.mp behind
  obtain ⟨⟨out, shorter⟩, inner, rfl⟩ := args tail rfl
  refine ⟨⟨out, length_lt_of_lt_tail shorter⟩, ?_, rfl⟩
  have paren : startsWithMark '(' (⟨.punct '(', place⟩ :: tail) = true := rfl
  simp only [Goal.read] at inner ⊢
  rw [readValue]
  simp only [plain, paren, fits, List.tail_cons, inner, if_true]

theorem answers_object (fits : roomInside? 2 room = some inside)
    (body : (Goal.members inside).Answers stop more members rest) :
    (Goal.value room).Answers stop (.punct '\x7b' :: more) (objectOf members) rest := by
  intro tokens same
  obtain ⟨offset, tail, rfl, rfl⟩ := lexemesOf_eq_cons.mp same
  obtain ⟨⟨out, shorter⟩, inner, rfl⟩ := body tail rfl
  refine ⟨⟨out, Nat.lt_succ_of_lt shorter⟩, ?_, rfl⟩
  simp only [Goal.read] at inner ⊢
  rw [readValue]
  simp only [fits, inner, if_true]

theorem answers_array (fits : roomInside? 3 room = some inside)
    (body : (Goal.items inside ']').Answers stop more values rest) :
    (Goal.value room).Answers stop (.punct '[' :: more) (.list values) rest := by
  intro tokens same
  obtain ⟨offset, tail, rfl, rfl⟩ := lexemesOf_eq_cons.mp same
  obtain ⟨⟨out, shorter⟩, inner, rfl⟩ := body tail rfl
  refine ⟨⟨out, Nat.lt_succ_of_lt shorter⟩, ?_, rfl⟩
  have other : ¬ '[' = '\x7b' := by decide
  simp only [Goal.read] at inner ⊢
  rw [readValue]
  simp only [fits, inner, if_true, other, if_false]

theorem answers_spreadItem (spread : (Goal.value room).Answers stop more value rest) :
    (Goal.item room).Answers stop (.ellipsis :: more) (.spread value) rest := by
  intro tokens same
  obtain ⟨offset, tail, rfl, rfl⟩ := lexemesOf_eq_cons.mp same
  obtain ⟨⟨out, shorter⟩, inner, rfl⟩ := spread tail rfl
  refine ⟨⟨out, Nat.lt_succ_of_lt shorter⟩, ?_, rfl⟩
  simp only [Goal.read] at inner ⊢
  rw [readItem]
  simp only [inner]

theorem answers_plainItem (plain : (Goal.value room).Answers stop all value rest) :
    (Goal.item room).Answers stop all value rest := by
  intro tokens same
  obtain ⟨out, inner, left⟩ := plain tokens same
  refine ⟨out, ?_, left⟩
  simp only [Goal.read] at inner ⊢
  cases tokens with
  | nil =>
    rw [readValue] at inner
    exact absurd inner failAt_ne_ok
  | cons token tail =>
    rw [readItem]
    split
    · next dots =>
      rw [readValue] at inner
      simp only [dots] at inner
      exact absurd inner failAt_ne_ok
    · exact inner

theorem answers_noItem :
    (Goal.items room closer).Answers stop (.punct closer :: more) [] more := by
  intro tokens same
  obtain ⟨offset, tail, rfl, rfl⟩ := lexemesOf_eq_cons.mp same
  refine ⟨⟨tail, Nat.lt_succ_self _⟩, ?_, rfl⟩
  rw [Goal.read, readItems, if_pos (isPunct_iff.mpr rfl)]

theorem answers_nextItem (open' : headIs closer all = false)
    (item : (Goal.item room).Answers stop all value (.punct ',' :: next))
    (items : (Goal.items room closer).Answers stop next values rest) :
    (Goal.items room closer).Answers stop all (value :: values) rest := by
  intro tokens same
  obtain ⟨⟨after, shorter⟩, first, behind⟩ := item tokens same
  obtain ⟨offset, next, rfl, rfl⟩ := lexemesOf_eq_cons.mp behind
  obtain ⟨⟨out, less⟩, others, rfl⟩ := items next rfl
  simp only [List.length_cons] at shorter
  refine ⟨⟨out, by omega⟩, ?_, rfl⟩
  simp only [Goal.read] at first others ⊢
  cases tokens with
  | nil => exact absurd shorter (Nat.not_lt_zero _)
  | cons token tail =>
    subst same
    rw [readItems, if_neg (not_isPunct_of_headIs open')]
    simp only [first, readSeparator_comma, others]

theorem answers_lastItem (open' : headIs closer all = false) (other : closer ≠ ',')
    (item : (Goal.item room).Answers stop all value (.punct closer :: rest)) :
    (Goal.items room closer).Answers stop all [value] rest := by
  intro tokens same
  obtain ⟨⟨after, shorter⟩, first, behind⟩ := item tokens same
  obtain ⟨offset, next, rfl, rfl⟩ := lexemesOf_eq_cons.mp behind
  simp only [List.length_cons] at shorter
  refine ⟨⟨next, by omega⟩, ?_, rfl⟩
  simp only [Goal.read] at first ⊢
  cases tokens with
  | nil => exact absurd shorter (Nat.not_lt_zero _)
  | cons token tail =>
    subst same
    rw [readItems, if_neg (not_isPunct_of_headIs open')]
    simp only [first, readSeparator_closer other]
    rw [readItems, if_pos (isPunct_iff.mpr rfl)]

theorem answers_spreadMember (spread : (Goal.value room).Answers stop more value rest) :
    (Goal.member room).Answers stop (.ellipsis :: more) (.spread value) rest := by
  intro tokens same
  obtain ⟨offset, tail, rfl, rfl⟩ := lexemesOf_eq_cons.mp same
  obtain ⟨⟨out, shorter⟩, inner, rfl⟩ := spread tail rfl
  refine ⟨⟨out, Nat.lt_succ_of_lt shorter⟩, ?_, rfl⟩
  simp only [Goal.read] at inner ⊢
  rw [readMember]
  simp only [inner]

theorem answers_entry (named : lexeme.key? = some key)
    (written : (Goal.value room).Answers stop more value rest) :
    (Goal.member room).Answers stop (lexeme :: .punct ':' :: more) (.entry key value) rest := by
  intro tokens same
  obtain ⟨offset, keyed, rfl, behind⟩ := lexemesOf_eq_cons.mp same
  obtain ⟨place, tail, rfl, rfl⟩ := lexemesOf_eq_cons.mp behind
  obtain ⟨⟨out, shorter⟩, inner, rfl⟩ := written tail rfl
  refine ⟨⟨out, length_lt_of_lt_tail shorter⟩, ?_, rfl⟩
  have colon : startsWithMark ':' (⟨.punct ':', place⟩ :: tail) = true := rfl
  simp only [Goal.read] at inner ⊢
  rw [readMember]
  split
  · next dots =>
    cases dots
    cases named
  · next unnamed _ =>
    rw [named] at unnamed
    cases unnamed
  · next other named' _ =>
    rw [named] at named'
    cases named'
    simp only [colon, if_true, List.tail_cons, inner]

theorem answers_keyAlone (named : lexeme.key? = some key) (alone : headIs ':' more = false) :
    (Goal.member room).Answers stop (lexeme :: more) (.entry key (.name key)) more := by
  intro tokens same
  obtain ⟨offset, tail, rfl, rfl⟩ := lexemesOf_eq_cons.mp same
  rw [← startsWithMark_eq] at alone
  refine ⟨⟨tail, Nat.lt_succ_self _⟩, ?_, rfl⟩
  rw [Goal.read, readMember]
  split
  · next dots =>
    cases dots
    cases named
  · next unnamed _ =>
    rw [named] at unnamed
    cases unnamed
  · next other named' _ =>
    rw [named] at named'
    cases named'
    simp only [alone, Bool.false_eq_true, if_false]

theorem answers_noMember :
    (Goal.members room).Answers stop (.punct '\x7d' :: more) [] more := by
  intro tokens same
  obtain ⟨offset, tail, rfl, rfl⟩ := lexemesOf_eq_cons.mp same
  refine ⟨⟨tail, Nat.lt_succ_self _⟩, ?_, rfl⟩
  rw [Goal.read, readMembers, if_pos (isPunct_iff.mpr rfl)]

theorem answers_nextMember (open' : headIs '\x7d' all = false)
    (one : (Goal.member room).Answers stop all member (.punct ',' :: next))
    (others : (Goal.members room).Answers stop next members rest) :
    (Goal.members room).Answers stop all (member :: members) rest := by
  intro tokens same
  obtain ⟨⟨after, shorter⟩, first, behind⟩ := one tokens same
  obtain ⟨offset, next, rfl, rfl⟩ := lexemesOf_eq_cons.mp behind
  obtain ⟨⟨out, less⟩, later, rfl⟩ := others next rfl
  simp only [List.length_cons] at shorter
  refine ⟨⟨out, by omega⟩, ?_, rfl⟩
  simp only [Goal.read] at first later ⊢
  cases tokens with
  | nil => exact absurd shorter (Nat.not_lt_zero _)
  | cons token tail =>
    subst same
    rw [readMembers, if_neg (not_isPunct_of_headIs open')]
    simp only [first, readSeparator_comma, later]

theorem answers_lastMember (open' : headIs '\x7d' all = false)
    (one : (Goal.member room).Answers stop all member (.punct '\x7d' :: rest)) :
    (Goal.members room).Answers stop all [member] rest := by
  intro tokens same
  obtain ⟨⟨after, shorter⟩, first, behind⟩ := one tokens same
  obtain ⟨offset, next, rfl, rfl⟩ := lexemesOf_eq_cons.mp behind
  simp only [List.length_cons] at shorter
  refine ⟨⟨next, by omega⟩, ?_, rfl⟩
  simp only [Goal.read] at first ⊢
  cases tokens with
  | nil => exact absurd shorter (Nat.not_lt_zero _)
  | cons token tail =>
    subst same
    have other : '\x7d' ≠ ',' := by decide
    rw [readMembers, if_neg (not_isPunct_of_headIs open')]
    simp only [first, readSeparator_closer other]
    rw [readMembers, if_pos (isPunct_iff.mpr rfl)]

end Answers

/-- What the grammar derives is read, whatever the offsets. -/
theorem Reads.read (derived : Reads goal all answer rest) (stop : Nat) :
    goal.Answers stop all answer rest := by
  induction derived with
  | int n => exact answers_int n
  | float x => exact answers_float x
  | str text => exact answers_str text
  | word word => exact answers_word word
  | name plain alone => exact answers_name plain alone
  | call plain fits _ args => exact answers_call plain fits args
  | object fits _ body => exact answers_object fits body
  | array fits _ body => exact answers_array fits body
  | spreadItem _ spread => exact answers_spreadItem spread
  | plainItem _ plain => exact answers_plainItem plain
  | noItem => exact answers_noItem
  | nextItem inside _ _ item items => exact answers_nextItem inside item items
  | lastItem inside other _ item => exact answers_lastItem inside other item
  | spreadMember _ spread => exact answers_spreadMember spread
  | entry named _ written => exact answers_entry named written
  | keyAlone named alone => exact answers_keyAlone named alone
  | noMember => exact answers_noMember
  | nextMember inside _ _ one others => exact answers_nextMember inside one others
  | lastMember inside _ one => exact answers_lastMember inside one

/-- A text has one reading. -/
theorem Reads.unique {other : goal.Answer} (first : Reads goal all answer rest)
    (second : Reads goal all other after) : answer = other ∧ rest = after := by
  have whole : lexemesOf (all.map (⟨·, 0⟩)) = all := by simp [lexemesOf, Function.comp_def]
  obtain ⟨out, read, rfl⟩ := first.read 0 _ whole
  obtain ⟨out', read', rfl⟩ := second.read 0 _ whole
  rw [read, Except.ok.injEq, Prod.mk.injEq] at read'
  obtain ⟨rfl, rfl⟩ := read'
  exact ⟨rfl, rfl⟩

def marksOnly (lexemes : List Lexeme) : Bool :=
  lexemes.all fun lexeme => lexeme.isPunct ',' || lexeme.isPunct ';'

theorem dropMarks_eq_nil_iff : dropMarks tokens = [] ↔ marksOnly (lexemesOf tokens) = true := by
  simp [dropMarks, marksOnly, lexemesOf, List.dropWhile_eq_nil_iff]

end Reader

theorem readWithin_iff {room stop : Nat} {tokens : List Token} {value : Value} :
    readWithin room stop tokens = .ok value ↔
      ∃ rest, Reads (.value room) (lexemesOf tokens) value rest ∧ marksOnly rest = true := by
  rw [readWithin]
  constructor
  · intro read
    split at read
    · cases read
    · next rest shorter found =>
      split at read
      · next none =>
        cases read
        exact ⟨_, reads_value found, dropMarks_eq_nil_iff.mp none⟩
      · cases read
  · rintro ⟨rest, derived, marks⟩
    obtain ⟨⟨out, shorter⟩, read, rfl⟩ := derived.read stop tokens rfl
    simp only [Goal.read] at read
    simp only [read, dropMarks_eq_nil_iff.mpr marks]

theorem readTokens_iff {stop : Nat} {tokens : List Token} {value : Value} :
    readTokens stop tokens = .ok value ↔
      ∃ rest, Reads (.value nestingRoom) (lexemesOf tokens) value rest ∧ marksOnly rest = true :=
  readWithin_iff

/-- A text is read as a value when its lexemes derive it and only marks are left. -/
theorem readLiteral_iff {text : String} {value : Value} :
    readLiteral text = .ok value ↔
      ∃ lexemes rest, Lexes text.toList lexemes ∧ Reads (.value nestingRoom) lexemes value rest ∧
        marksOnly rest = true := by
  constructor
  · intro read
    cases cut : tokenize text with
    | error fault =>
      rw [readLiteral, cut] at read
      cases read
    | ok tokens =>
      rw [readLiteral, cut] at read
      obtain ⟨rest, derived, marks⟩ := readTokens_iff.mp read
      exact ⟨_, rest, lexes_of_tokensUpTo cut, derived, marks⟩
  · rintro ⟨lexemes, rest, lexed, derived, marks⟩
    obtain ⟨tokens, cut, rfl⟩ := lexed.tokens (codeCount text.toList)
    rw [readLiteral, show tokenize text = .ok tokens from cut]
    exact readTokens_iff.mpr ⟨rest, derived, marks⟩

end Stagecraft
