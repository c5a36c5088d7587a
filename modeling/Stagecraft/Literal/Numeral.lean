import Stagecraft.Decimal.Dyadic
import Stagecraft.Literal.Token
import Stagecraft.Text.Digit

/-!
Numerals: a sign, digits with or without a point, and an exponent. One with a point or an exponent
stands for a double, any other for an integer.
-/

namespace Stagecraft

structure Numeral where
  negative : Bool
  whole : List Char
  fraction : Option (List Char)
  exponent : Option Int

namespace Numeral

def takeDigits (text : List Char) : List Char × List Char :=
  (text.takeWhile isDecimalDigit, text.dropWhile isDecimalDigit)

/-- The mark, an optional sign and at least one digit; otherwise there is no exponent here. -/
def exponent? : List Char → Option (Int × List Char)
  | mark :: text =>
    if mark = 'e' ∨ mark = 'E' then
      let (negative, unsigned) := match text with
        | '-' :: rest => (true, rest)
        | '+' :: rest => (false, rest)
        | rest => (false, rest)
      match takeDigits unsigned with
      | ([], _) => none
      | (digits, rest) =>
        some (if negative then -(ofDigits digits : Int) else ofDigits digits, rest)
    else none
  | [] => none

/-- Digits, or a point and digits. -/
def mantissa? (text : List Char) : Option (List Char × Option (List Char) × List Char) :=
  match takeDigits text with
  | ([], '.' :: rest) =>
    match takeDigits rest with
    | ([], _) => none
    | (fraction, rest) => some ([], some fraction, rest)
  | ([], _) => none
  | (whole, '.' :: rest) =>
    let (fraction, rest) := takeDigits rest
    some (whole, some fraction, rest)
  | (whole, rest) => some (whole, none, rest)

def read? (text : List Char) : Option (Numeral × List Char) :=
  let (negative, unsigned) := match text with
    | '-' :: rest => (true, rest)
    | rest => (false, rest)
  match mantissa? unsigned with
  | none => none
  | some (whole, fraction, rest) =>
    match exponent? rest with
    | none => some (⟨negative, whole, fraction, none⟩, rest)
    | some (exponent, rest) => some (⟨negative, whole, fraction, some exponent⟩, rest)

/-- A whole number with more digits than the limit. -/
def isTooLong (n : Numeral) : Bool :=
  n.fraction.isNone && n.exponent.isNone && digitLimit < n.whole.length

def lexeme (n : Numeral) : Lexeme :=
  match n.fraction, n.exponent with
  | none, none => .int (if n.negative then -(ofDigits n.whole : Int) else ofDigits n.whole)
  | fraction, exponent =>
    let places := fraction.getD []
    let x := floatOfDecimal (ofDigits (n.whole ++ places)) (exponent.getD 0 - places.length)
    .float (if n.negative then -x else x)

theorem takeDigits_length_le {text digits rest : List Char}
    (taken : takeDigits text = (digits, rest)) : rest.length ≤ text.length := by
  rw [← (Prod.mk.inj taken).2]
  exact (List.dropWhile_suffix isDecimalDigit).length_le

theorem takeDigits_length_lt {text digits rest : List Char} (filled : digits ≠ [])
    (taken : takeDigits text = (digits, rest)) : rest.length < text.length := by
  have both := List.takeWhile_append_dropWhile (p := isDecimalDigit) (l := text)
  simp only [takeDigits, Prod.mk.injEq] at taken
  rw [taken.1, taken.2] at both
  have positive := List.length_pos_iff.mpr filled
  have total := congrArg List.length both
  rw [List.length_append] at total
  omega

theorem exponent?_length {text rest : List Char} {exponent : Int}
    (read : exponent? text = some (exponent, rest)) : rest.length ≤ text.length := by
  cases text with
  | nil => simp [exponent?] at read
  | cons mark text =>
    simp only [exponent?] at read
    split at read
    · split at read
      · simp at read
      · next found =>
        simp only [Option.some.injEq, Prod.mk.injEq] at read
        obtain ⟨-, rfl⟩ := read
        have bound := takeDigits_length_le found
        split at bound <;> simp only [List.length_cons] at bound ⊢ <;> omega
    · simp at read

theorem mantissa?_length {text whole rest : List Char} {fraction : Option (List Char)}
    (read : mantissa? text = some (whole, fraction, rest)) : rest.length < text.length := by
  simp only [mantissa?] at read
  split at read
  · next taken =>
    have bound := takeDigits_length_le taken
    split at read
    · simp at read
    · next found =>
      simp only [Option.some.injEq, Prod.mk.injEq] at read
      obtain ⟨-, -, rfl⟩ := read
      have inner := takeDigits_length_le found
      simp only [List.length_cons] at bound
      omega
  · simp at read
  · next taken =>
    simp only [Option.some.injEq, Prod.mk.injEq] at read
    obtain ⟨-, -, rfl⟩ := read
    have bound := takeDigits_length_le taken
    simp only [List.length_cons] at bound
    exact Nat.lt_of_le_of_lt (takeDigits_length_le rfl) bound
  · next filled _ taken =>
    simp only [Option.some.injEq, Prod.mk.injEq] at read
    obtain ⟨rfl, -, rfl⟩ := read
    exact takeDigits_length_lt (fun empty => filled empty) taken

theorem read?_length {text rest : List Char} {n : Numeral} (read : read? text = some (n, rest)) :
    rest.length < text.length := by
  simp only [read?] at read
  split at read
  · simp at read
  · next found =>
    have bound := mantissa?_length found
    have unsigned : (match text with
        | '-' :: rest => (true, rest)
        | rest => (false, rest)).2.length ≤ text.length := by
      split <;> simp
    split at read
    · simp only [Option.some.injEq, Prod.mk.injEq] at read
      obtain ⟨-, rfl⟩ := read
      omega
    · next power =>
      simp only [Option.some.injEq, Prod.mk.injEq] at read
      obtain ⟨-, rfl⟩ := read
      have more := exponent?_length power
      omega

end Numeral

end Stagecraft
