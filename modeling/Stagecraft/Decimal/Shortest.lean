import Stagecraft.Decimal.Dyadic

/-!
The fewest decimal digits that read back as a given double, and of those the nearest to it.
-/

namespace Stagecraft

/-- A decimal `digits * 10 ^ exponent`. -/
structure Decimal where
  digits : Nat
  exponent : Int
  deriving DecidableEq, Repr

namespace Dyadic

/-- A multiple of a quarter of the double's unit, over `10 ^ exponent`. -/
def quartersOver (x : Dyadic) (quarters : Nat) (exponent : Int) : Nat × Nat :=
  let (num, den) := overTwoPow quarters 1 (2 - x.exponent)
  (num * Nat.pow 10 (-exponent).toNat, den * Nat.pow 10 exponent.toNat)

/-- Ends of the interval of numbers that round to the double, in quarters of its unit. Below a
power of two the neighbour is half as far away. -/
def interval (x : Dyadic) : Nat × Nat :=
  let below := if x.mantissa = hiddenBit ∧ -1074 < x.exponent then 1 else 2
  (4 * x.mantissa - below, 4 * x.mantissa + 2)

/-- Whether `n * 10 ^ exponent` rounds to the double. An end counts when the mantissa is even. -/
def contains (x : Dyadic) (n : Nat) (exponent : Int) : Bool :=
  let (low, lowDen) := x.quartersOver x.interval.1 exponent
  let (high, highDen) := x.quartersOver x.interval.2 exponent
  if x.mantissa % 2 = 0 then low ≤ n * lowDen && n * highDen ≤ high
  else low < n * lowDen && n * highDen < high

/-- The largest `k` with `10 ^ k` at most the number. -/
def decimalOrder (x : Dyadic) : Int :=
  let guess := ((x.mantissa.log2 : Int) + x.exponent) * 30103 / 100000
  let reaches (k : Int) : Bool :=
    let (num, den) := x.quartersOver (4 * x.mantissa) k
    den ≤ num
  if reaches (guess + 1) then guess + 1 else if reaches guess then guess else guess - 1

/-- The neighbours of the double on the grid of multiples of `10 ^ exponent`: the one that reads
back, or the nearer one if both do. -/
def onGrid? (x : Dyadic) (exponent : Int) : Option Nat :=
  let (num, den) := x.quartersOver (4 * x.mantissa) exponent
  let low := num / den
  match x.contains low exponent, x.contains (low + 1) exponent with
  | true, true => some (roundEven num den)
  | true, false => some low
  | false, true => some (low + 1)
  | false, false => none

/-- Tries grids from coarse to fine; seventeen digits always suffice. -/
def shortestFrom (x : Dyadic) (order : Int) : Nat → Decimal
  | 0 => ⟨roundEven (x.quartersOver (4 * x.mantissa) (order - 16)).1
      (x.quartersOver (4 * x.mantissa) (order - 16)).2, order - 16⟩
  | tries + 1 =>
    let exponent := order - 16 + tries
    match x.onGrid? exponent with
    | some digits => ⟨digits, exponent⟩
    | none => shortestFrom x order tries

def shortest (x : Dyadic) : Decimal :=
  if x.mantissa = 0 then ⟨0, 0⟩ else shortestFrom x x.decimalOrder 17

end Dyadic

end Stagecraft
