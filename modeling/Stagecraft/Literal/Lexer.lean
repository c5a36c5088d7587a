import Stagecraft.Literal.Numeral
import Stagecraft.Text.Scan

/-!
Cutting a text into tokens. Blanks and comments stand between tokens and have no meaning.
-/

namespace Stagecraft

def backtick : Char := '\x60'

/-- What follows the end of a block comment. -/
def afterComment? : List Char → Option (List Char)
  | '*' :: '/' :: rest => some rest
  | _ :: rest => afterComment? rest
  | [] => none

/-- The characters up to the closing mark, with their escapes, and what follows it. Only a text
between backticks goes over a line feed that has no backslash before it. -/
def textBody? (mark : Char) : List Char → Option (List Char × List Char)
  | [] => none
  | ['\\'] => none
  | '\\' :: c :: rest => (textBody? mark rest).map fun (body, after) => ('\\' :: c :: body, after)
  | c :: rest =>
    if c = mark then some ([], rest)
    else if c = '\n' ∧ mark ≠ backtick then none
    else (textBody? mark rest).map fun (body, after) => (c :: body, after)

/-- The character an escape letter names; any other letter stands for itself. -/
def namedEscape : Char → Char
  | 'n' => '\n'
  | 't' => '\t'
  | 'r' => '\r'
  | 'b' => '\x08'
  | 'f' => '\x0c'
  | 'v' => '\x0b'
  | '0' => '\x00'
  | c => c

/-- A backslash and `u` before four hexadecimal digits name a code; any other backslash belongs to
the character after it. -/
def unescape : List Char → List Char
  | '\\' :: 'u' :: a :: b :: c :: d :: rest =>
    match hexCode? a b c d with
    | some code => codeChars code ++ unescape rest
    | none => 'u' :: unescape (a :: b :: c :: d :: rest)
  | '\\' :: c :: rest => namedEscape c :: unescape rest
  | c :: rest => c :: unescape rest
  | [] => []

def isPunctMark (c : Char) : Bool := "\x7b\x7d[](),:;".toList.contains c

/-- What starts a text: a token, something to pass over, or what goes beyond a limit. -/
inductive Piece where
  | token (lexeme : Lexeme)
  | gap
  | beyond (limit : Limit)

def Piece.ofNumeral (numeral : Numeral) : Piece :=
  if numeral.isTooLong then beyond .digits else token numeral.lexeme

/-- The first piece of a text and what follows it. -/
def nextPiece? : List Char → Option (Piece × List Char)
  | [] => none
  | '/' :: '/' :: rest => some (.gap, rest.dropWhile (· != '\n'))
  | '/' :: '*' :: rest => (afterComment? rest).map fun after => (.gap, after)
  | '.' :: '.' :: '.' :: rest => some (.token .ellipsis, rest)
  | c :: rest =>
    if isBlank c then some (.gap, skipBlanks rest)
    else match Numeral.read? (c :: rest) with
    | some (numeral, after) => some (.ofNumeral numeral, after)
    | none =>
      if isQuote c || c == backtick then
        (textBody? c rest).map fun (body, after) =>
          (.token (.str (String.ofList (unescape body))), after)
      else if startsName c then
        some (.token (.name (String.ofList (c :: rest.takeWhile continuesName))),
          rest.dropWhile continuesName)
      else if isPunctMark c then some (.token (.punct c), rest)
      else none

theorem afterComment?_length {text rest : List Char} (found : afterComment? text = some rest) :
    rest.length < text.length := by
  induction text using afterComment?.induct with
  | case1 tail =>
    simp only [afterComment?, Option.some.injEq] at found
    subst found
    simp only [List.length_cons]
    omega
  | case2 c tail other ih =>
    rw [afterComment?] at found
    · have bound := ih found
      simp only [List.length_cons]
      omega
    · exact other
  | case3 => simp [afterComment?] at found

theorem textBody?_length {mark : Char} {text body rest : List Char}
    (read : textBody? mark text = some (body, rest)) : rest.length < text.length := by
  induction text using textBody?.induct mark generalizing body with
  | case1 => simp [textBody?] at read
  | case2 => simp [textBody?] at read
  | case3 c tail ih =>
    simp only [textBody?, Option.map_eq_some_iff, Prod.exists, Prod.mk.injEq] at read
    obtain ⟨inner, after, found, -, rfl⟩ := read
    have bound := ih found
    simp only [List.length_cons]
    omega
  | case4 tail _ _ =>
    simp [textBody?] at read
    obtain ⟨-, rfl⟩ := read
    simp
  | case5 c tail _ _ other stop =>
    rw [textBody?] at read <;> simp_all
  | case6 c tail _ _ other open' ih =>
    rw [textBody?] at read
    · simp only [other, open', if_false, Option.map_eq_some_iff, Prod.exists,
        Prod.mk.injEq] at read
      obtain ⟨inner, after, found, -, rfl⟩ := read
      have bound := ih found
      simp only [List.length_cons]
      omega
    · assumption
    · assumption

theorem nextPiece?_length {text rest : List Char} {piece : Piece}
    (read : nextPiece? text = some (piece, rest)) : rest.length < text.length := by
  simp only [nextPiece?] at read
  split at read
  · simp at read
  · next tail =>
    simp only [Option.some.injEq, Prod.mk.injEq] at read
    obtain ⟨-, rfl⟩ := read
    have bound := (List.dropWhile_suffix (· != '\n') (l := tail)).length_le
    simp only [List.length_cons]
    omega
  · simp only [Option.map_eq_some_iff, Prod.mk.injEq] at read
    obtain ⟨after, found, -, rfl⟩ := read
    have bound := afterComment?_length found
    simp only [List.length_cons]
    omega
  · simp only [Option.some.injEq, Prod.mk.injEq] at read
    obtain ⟨-, rfl⟩ := read
    simp only [List.length_cons]
    omega
  · next c tail _ _ _ =>
    split at read
    · simp only [Option.some.injEq, Prod.mk.injEq] at read
      obtain ⟨-, rfl⟩ := read
      exact Nat.lt_succ_of_le (skipBlanks_length_le tail)
    · split at read
      · next found =>
        simp only [Option.some.injEq, Prod.mk.injEq] at read
        obtain ⟨-, rfl⟩ := read
        exact Numeral.read?_length found
      · split at read
        · simp only [Option.map_eq_some_iff, Prod.exists, Prod.mk.injEq] at read
          obtain ⟨body, after, found, -, rfl⟩ := read
          exact Nat.lt_succ_of_lt (textBody?_length found)
        · split at read
          · simp only [Option.some.injEq, Prod.mk.injEq] at read
            obtain ⟨-, rfl⟩ := read
            exact Nat.lt_succ_of_le (List.dropWhile_suffix continuesName).length_le
          · split at read
            · simp only [Option.some.injEq, Prod.mk.injEq] at read
              obtain ⟨-, rfl⟩ := read
              exact Nat.lt_succ_self _
            · simp at read

/-- The tokens of a text that ends at an offset of `stop`. -/
def tokensUpTo (stop : Nat) : List Char → Except ReadFault (List Token)
  | [] => .ok []
  | c :: tail =>
    let offset := stop - codeCount (c :: tail)
    match _ : nextPiece? (c :: tail) with
    | none => .error (.malformed ⟨.character ((codes (c :: tail)).headD 0), offset⟩)
    | some (piece, rest) =>
      match piece, tokensUpTo stop rest with
      | .beyond limit, _ => .error (.beyond limit)
      | .gap, tokens => tokens
      | .token lexeme, tokens => tokens.map (⟨lexeme, offset⟩ :: ·)
termination_by text => text.length
decreasing_by exact nextPiece?_length ‹_›

def tokenize (text : String) : Except ReadFault (List Token) :=
  tokensUpTo (codeCount text.toList) text.toList

end Stagecraft
