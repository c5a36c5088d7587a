import Stagecraft.Literal.Lexer

/-!
Reading values from tokens. A value is an object, an array, a text, a number, one of four words, a
name, or a call. Separators may follow the last item, and marks may follow the whole.
-/

namespace Stagecraft

/-- The words that stand for a value of their own. -/
def wordValue? : String → Option Value
  | "true" => some (.bool true)
  | "false" => some (.bool false)
  | "null" | "undefined" => some .null
  | _ => none

/-- The key a lexeme names. -/
def Lexeme.key? : Lexeme → Option String
  | int n => some (Value.int n).text
  | float x => some (Value.float x).text
  | str text => some text
  | name id => some id
  | punct _ | ellipsis => none

/-- A member of an object as it is written. -/
inductive Member where
  | entry (key : String) (value : Value)
  | spread (value : Value)

/-- A spread object is merged in; any other spread adds nothing. -/
def Member.addTo (fields : Fields) : Member → Fields
  | entry key value => fields.put key value
  | spread (.object more) => fields.putAll more
  | spread _ => fields

def objectOf (members : List Member) : Value := .object (members.foldl Member.addTo [])

/-- Tokens left over by a reader that used at least one. -/
abbrev Rest (tokens : List Token) := { rest : List Token // rest.length < tokens.length }

/-- Where the first token stands, or the end of the text. -/
def placeOf (stop : Nat) : List Token → Option Lexeme × Nat
  | [] => (none, stop)
  | token :: _ => (some token.lexeme, token.offset)

def failAt {α : Type} (stop : Nat) (tokens : List Token) (problem : Option Lexeme → SyntaxProblem) :
    Except ReadFault α :=
  let (found, offset) := placeOf stop tokens
  .error (.malformed ⟨problem found, offset⟩)

/-- The token is the given mark. -/
def startsWithMark (mark : Char) : List Token → Bool
  | [] => false
  | token :: _ => token.lexeme.isPunct mark

/-- After an item stands a comma, or the closing mark, which is left in place. -/
def readSeparator (stop : Nat) (closer : Char) (tokens : List Token) :
    Except ReadFault { rest : List Token // rest.length ≤ tokens.length } :=
  if startsWithMark ',' tokens then .ok ⟨tokens.tail, by simp⟩
  else if startsWithMark closer tokens then .ok ⟨tokens, Nat.le_refl _⟩
  else failAt stop tokens (.separator closer)

theorem length_lt_of_lt_tail {token : Token} {tail rest : List Token}
    (shorter : rest.length < tail.tail.length) : rest.length < (token :: tail).length := by
  rw [List.length_tail] at shorter
  rw [List.length_cons]
  omega

mutual

/-- A value, with `room` for the values within it. -/
def readValue (stop room : Nat) (tokens : List Token) : Except ReadFault (Value × Rest tokens) :=
  match tokens with
  | [] => failAt stop [] .value
  | token :: tail =>
    match token.lexeme with
    | .int n => .ok (.int n, ⟨tail, Nat.lt_succ_self _⟩)
    | .float x => .ok (.float x, ⟨tail, Nat.lt_succ_self _⟩)
    | .str text => .ok (.str text, ⟨tail, Nat.lt_succ_self _⟩)
    | .ellipsis => failAt stop (token :: tail) .value
    | .punct mark =>
      if mark = '\x7b' then
        match roomInside? 2 room with
        | none => .error (.beyond .nesting)
        | some inside =>
          match readMembers stop inside tail with
          | .error e => .error e
          | .ok (members, ⟨rest, shorter⟩) =>
            .ok (objectOf members, ⟨rest, Nat.lt_succ_of_lt shorter⟩)
      else if mark = '[' then
        match roomInside? 3 room with
        | none => .error (.beyond .nesting)
        | some inside =>
          match readItems stop inside ']' tail with
          | .error e => .error e
          | .ok (items, ⟨rest, shorter⟩) => .ok (.list items, ⟨rest, Nat.lt_succ_of_lt shorter⟩)
      else failAt stop (token :: tail) .value
    | .name id =>
      match wordValue? id with
      | some value => .ok (value, ⟨tail, Nat.lt_succ_self _⟩)
      | none =>
        if startsWithMark '(' tail then
          match roomInside? 2 room with
          | none => .error (.beyond .nesting)
          | some inside =>
            match readItems stop inside ')' tail.tail with
            | .error e => .error e
            | .ok (items, ⟨rest, shorter⟩) =>
              .ok (.call id items, ⟨rest, length_lt_of_lt_tail shorter⟩)
        else .ok (.name id, ⟨tail, Nat.lt_succ_self _⟩)
termination_by 3 * tokens.length
decreasing_by all_goals simp only [List.length_cons, List.length_tail]; omega

/-- An item of an array or a call, which may be spread. -/
def readItem (stop room : Nat) (tokens : List Token) : Except ReadFault (Value × Rest tokens) :=
  match tokens with
  | [] => failAt stop [] .value
  | token :: tail =>
    match token.lexeme with
    | .ellipsis =>
      match readValue stop room tail with
      | .error e => .error e
      | .ok (value, ⟨rest, shorter⟩) => .ok (.spread value, ⟨rest, Nat.lt_succ_of_lt shorter⟩)
    | _ => readValue stop room (token :: tail)
termination_by 3 * tokens.length + 1
decreasing_by all_goals simp only [List.length_cons]; omega

/-- Items up to the closing mark. -/
def readItems (stop room : Nat) (closer : Char) (tokens : List Token) :
    Except ReadFault (List Value × Rest tokens) :=
  match tokens with
  | [] => failAt stop [] .value
  | token :: tail =>
    if token.lexeme.isPunct closer then .ok ([], ⟨tail, Nat.lt_succ_self _⟩)
    else
      match readItem stop room (token :: tail) with
      | .error e => .error e
      | .ok (value, ⟨rest, shorter⟩) =>
        match readSeparator stop closer rest with
        | .error e => .error e
        | .ok ⟨next, within⟩ =>
          have : next.length < tail.length + 1 := Nat.lt_of_le_of_lt within shorter
          match readItems stop room closer next with
          | .error e => .error e
          | .ok (values, ⟨last, less⟩) => .ok (value :: values, ⟨last, by omega⟩)
termination_by 3 * tokens.length + 2
decreasing_by all_goals simp only [List.length_cons]; omega

/-- A spread, a key with its value, or a key alone, which stands for the name it spells. -/
def readMember (stop room : Nat) (tokens : List Token) : Except ReadFault (Member × Rest tokens) :=
  match tokens with
  | [] => failAt stop [] .key
  | token :: tail =>
    match token.lexeme, token.lexeme.key? with
    | .ellipsis, _ =>
      match readValue stop room tail with
      | .error e => .error e
      | .ok (value, ⟨rest, shorter⟩) => .ok (.spread value, ⟨rest, Nat.lt_succ_of_lt shorter⟩)
    | _, none => failAt stop (token :: tail) .key
    | _, some key =>
      if startsWithMark ':' tail then
        match readValue stop room tail.tail with
        | .error e => .error e
        | .ok (value, ⟨rest, shorter⟩) =>
          .ok (.entry key value, ⟨rest, length_lt_of_lt_tail shorter⟩)
      else .ok (.entry key (.name key), ⟨tail, Nat.lt_succ_self _⟩)
termination_by 3 * tokens.length + 1
decreasing_by all_goals simp only [List.length_cons, List.length_tail]; omega

/-- Members up to the closing brace. -/
def readMembers (stop room : Nat) (tokens : List Token) :
    Except ReadFault (List Member × Rest tokens) :=
  match tokens with
  | [] => failAt stop [] .key
  | token :: tail =>
    if token.lexeme.isPunct '\x7d' then .ok ([], ⟨tail, Nat.lt_succ_self _⟩)
    else
      match readMember stop room (token :: tail) with
      | .error e => .error e
      | .ok (member, ⟨rest, shorter⟩) =>
        match readSeparator stop '\x7d' rest with
        | .error e => .error e
        | .ok ⟨next, within⟩ =>
          have : next.length < tail.length + 1 := Nat.lt_of_le_of_lt within shorter
          match readMembers stop room next with
          | .error e => .error e
          | .ok (members, ⟨last, less⟩) => .ok (member :: members, ⟨last, by omega⟩)
termination_by 3 * tokens.length + 2
decreasing_by all_goals simp only [List.length_cons]; omega

end

/-- Commas and semicolons after a value. -/
def dropMarks (tokens : List Token) : List Token :=
  tokens.dropWhile fun token => token.lexeme.isPunct ',' || token.lexeme.isPunct ';'

/-- Reads the tokens of a text of `stop` codes as one value, with `room` for the values within. -/
def readWithin (room stop : Nat) (tokens : List Token) : Except ReadFault Value :=
  match readValue stop room tokens with
  | .error e => .error e
  | .ok (value, ⟨rest, _⟩) =>
    match dropMarks rest with
    | [] => .ok value
    | token :: _ => .error (.malformed ⟨.trailing token.lexeme, token.offset⟩)

def readTokens (stop : Nat) (tokens : List Token) : Except ReadFault Value :=
  readWithin nestingRoom stop tokens

def readLiteral (text : String) : Except ReadFault Value := do
  readTokens (codeCount text.toList) (← tokenize text)

end Stagecraft
