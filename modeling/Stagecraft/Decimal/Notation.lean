import Stagecraft.Decimal.Shortest

/-!
How decimals are laid out as text: positionally near one, with an exponent far from it.
-/

namespace Stagecraft

/-- Choices of a layout: the decimal orders written positionally, the least width of an exponent,
and the words for what is no number. -/
structure NumberStyle where
  firstOrder : Int
  lastOrder : Int
  exponentWidth : Nat
  infinity : String
  undefined : String

/-- Numbers in records, sheets and manifests: `0.0001` and `1000000.0` stand as they are, `1e-05`
and `1e+16` have an exponent of two digits at least. -/
def numberStyle : NumberStyle := ⟨-4, 15, 2, "inf", "nan"⟩

/-- Digits without the zeros at their end, the last one excepted. -/
def trimZeros (digits : List Char) : List Char :=
  match (digits.reverse.dropWhile (· == '0')).reverse with
  | [] => ['0']
  | kept => kept

def padLeft (width : Nat) (digits : List Char) : List Char :=
  List.replicate (width - digits.length) '0' ++ digits

def padRight (width : Nat) (digits : List Char) : List Char :=
  digits ++ List.replicate (width - digits.length) '0'

/-- A point after the first `whole` digits, with a digit on either side of it. -/
def positional (digits : List Char) (whole : Nat) : List Char :=
  let padded := padRight (whole + 1) digits
  padded.take whole ++ '.' :: padded.drop whole

def scientific (style : NumberStyle) (digits : List Char) (order : Int) : List Char :=
  let mantissa := match digits with
    | first :: second :: rest => first :: '.' :: second :: rest
    | short => short
  let sign := if order < 0 then '-' else '+'
  mantissa ++ 'e' :: sign :: padLeft style.exponentWidth (Nat.toDigits 10 order.natAbs)

/-- A decimal without its sign. -/
def NumberStyle.layout (style : NumberStyle) (x : Decimal) : List Char :=
  let all := Nat.toDigits 10 x.digits
  let order := (all.length : Int) - 1 + x.exponent
  let digits := trimZeros all
  if x.digits = 0 then positional digits 1
  else if order < style.firstOrder || style.lastOrder < order then scientific style digits order
  else if order < 0 then positional (List.replicate (-order).toNat '0' ++ digits) 1
  else positional digits (order.toNat + 1)

def NumberStyle.text (style : NumberStyle) (x : Float) : String :=
  if x.isNaN then style.undefined else
  let sign := if signBit x then "-" else ""
  if x.isInf then sign ++ style.infinity
  else sign ++ String.ofList (style.layout (Dyadic.ofFloat x).shortest)

/-- A number with one place after the point; a half goes to the even neighbour. -/
def oneDecimal (x : Float) : String :=
  let (num, den) := (Dyadic.ofFloat x).fraction
  let digits := padLeft 2 (Nat.toDigits 10 (roundEven (num * 10) den))
  let sign := if signBit x then "-" else ""
  sign ++ String.ofList (digits.dropLast ++ '.' :: digits.drop (digits.length - 1))

end Stagecraft
