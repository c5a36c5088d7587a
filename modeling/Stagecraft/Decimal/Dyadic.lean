/-!
Doubles as exact numbers `mantissa * 2 ^ exponent`, and the double nearest to a fraction.
-/

namespace Stagecraft

/-- A finite double without its sign. -/
structure Dyadic where
  mantissa : Nat
  exponent : Int
  deriving DecidableEq, Repr

/-- Where the mantissas of normal doubles begin; among the bits, the unit of the exponent. -/
def hiddenBit : Nat := Nat.pow 2 52

def infinityBits : Nat := 0x7ff * hiddenBit

namespace Dyadic

/-- The magnitude of a finite double from its 63 low bits. -/
def ofBits (bits : Nat) : Dyadic :=
  let field : Nat := bits / hiddenBit
  if field = 0 then ⟨bits, -1074⟩
  else ⟨hiddenBit + bits % hiddenBit, (field : Int) - 1075⟩

/-- Numerator and denominator. -/
def fraction (x : Dyadic) : Nat × Nat :=
  (x.mantissa * Nat.pow 2 x.exponent.toNat, Nat.pow 2 (-x.exponent).toNat)

end Dyadic

/-- The integer nearest to a fraction; a half goes to the even neighbour. -/
def roundEven (num den : Nat) : Nat :=
  let low := num / den
  let twice := 2 * (num % den)
  if den < twice || (twice == den && low % 2 == 1) then low + 1 else low

/-- The fraction `num / den` over `2 ^ exponent`. -/
def overTwoPow (num den : Nat) (exponent : Int) : Nat × Nat :=
  (num * Nat.pow 2 (-exponent).toNat, den * Nat.pow 2 exponent.toNat)

/-- The bits of the double nearest to a fraction. They count the doubles below it, so a mantissa
that rounds up to the next power of two carries into the exponent, and past the largest double
lies infinity. -/
def nearestBits (num den : Nat) : Nat :=
  if num = 0 then 0 else
  let guess := (num.log2 : Int) - den.log2 - 53
  let wide := overTwoPow num den guess
  let exponent := max (-1074) (if wide.1 / wide.2 < 2 * hiddenBit then guess else guess + 1)
  let place := overTwoPow num den exponent
  min ((exponent + 1074).toNat * hiddenBit + roundEven place.1 place.2) infinityBits

def floatOfBits (bits : Nat) : Float := Float.ofBits (UInt64.ofNat bits)

/-- The bits of the double nearest to `digits * 10 ^ exponent`. Outside the range of doubles the
power of ten is not computed. -/
def decimalBits (digits : Nat) (exponent : Int) : Nat :=
  let size := (digits.log2 : Int) * 3 / 10 + exponent
  if digits = 0 || size < -400 then 0
  else if 400 < size then infinityBits
  else nearestBits (digits * Nat.pow 10 exponent.toNat) (Nat.pow 10 (-exponent).toNat)

def floatOfDecimal (digits : Nat) (exponent : Int) : Float :=
  floatOfBits (decimalBits digits exponent)

/-- The double nearest to an integer, unless it lies beyond the largest one. -/
def floatOfInt? (n : Int) : Option Float :=
  let magnitude := floatOfBits (nearestBits n.natAbs 1)
  if magnitude.isInf then none else some (if n < 0 then -magnitude else magnitude)

/-- The magnitude of a finite double. -/
def Dyadic.ofFloat (x : Float) : Dyadic := Dyadic.ofBits (x.toBits.toNat % Nat.pow 2 63)

/-- The sign of a double; zero has one too. -/
def signBit (x : Float) : Bool := Nat.pow 2 63 ≤ x.toBits.toNat

/-- Whether a double and an integer are the same number. -/
def floatIsInt (x : Float) (n : Int) : Bool :=
  let (num, den) := (Dyadic.ofFloat x).fraction
  x.isFinite && num == n.natAbs * den && (n == 0 || signBit x == decide (n < 0))

end Stagecraft
