import PythonFlow.Decimal.Nearest

/-!
# Shortest decimal of a double

The numbers that round to a double form an interval around it, which has its ends in it if the
significand is even. The shortest decimal of a double is the one with the fewest digits in that
interval, and of these the one nearest to the double. On any decimal grid with a point in the
interval, one of the double's two neighbours lies in it, so that only these have to be tried.
-/

set_option autoImplicit false

namespace PythonFlow.Decimal

namespace Dyadic

/-- Numerator and denominator of the value over `10 ^ power`. -/
def quotientOver (x : Dyadic) (power : Int) : Nat × Nat :=
  scaled (x.significand * Nat.pow 2 x.exponent.toNat) (Nat.pow 2 (-x.exponent).toNat) 10 power

/-- Distance to the lower end of the interval, in quarters of the last place. It is halved at a
power of two, below which doubles are closer together. -/
def lowerQuarters (x : Dyadic) : Nat :=
  if x.significand = Nat.pow 2 52 ∧ -1074 < x.exponent then 1 else 2

/-- Whether `digits * 10 ^ power` rounds to the double. -/
def holds (x : Dyadic) (digits : Nat) (power : Int) : Bool :=
  let (num, den) := x.quotientOver power
  let m := x.significand
  let point := 4 * m * digits * den
  let low := (4 * m - x.lowerQuarters) * num
  let high := (4 * m + 2) * num
  if m % 2 = 0 then low ≤ point && point ≤ high else low < point && point < high

/-- The neighbour on the grid of `10 ^ power` that rounds to the double. Of two the nearer is
taken, and the upper one if both are equally near. -/
def onGrid (x : Dyadic) (power : Int) : Option Nat :=
  let (num, den) := x.quotientOver power
  let below := num / den
  match x.holds below power, x.holds (below + 1) power with
  | true, true => some (if 2 * (num % den) < den then below else below + 1)
  | true, false => some below
  | false, true => some (below + 1)
  | false, false => none

def search (x : Dyadic) : Nat → Int → Nat × Int
  | 0, power => (roundQuotient (x.quotientOver power).1 (x.quotientOver power).2, power)
  | grids + 1, power =>
    match x.onGrid power with
    | some digits => (digits, power)
    | none => search x grids (power - 1)

/-- The exponent of the first digit of a positive value, starting from a guess that is not too
small. -/
def leadingExponent (x : Dyadic) : Nat → Int → Int
  | 0, power => power
  | steps + 1, power =>
    let (num, den) := x.quotientOver power
    if den ≤ num then power else leadingExponent x steps (power - 1)

/-- Digits and power of ten of the shortest decimal. Seventeen digits are always enough, and no
double has a digit above the place `308` or its first one below the place `-324`. A nought comes
last only where ten stands in for a single digit. -/
def shortest (x : Dyadic) : Nat × Int :=
  if x.significand = 0 then (0, 0)
  else
    let (digits, power) := x.search 17 (x.leadingExponent 640 309)
    if digits % 10 = 0 then (digits / 10, power + 1) else (digits, power)

end Dyadic

/-- The digits of `digits * 10 ^ power` without an exponent, and always with a point. -/
def positional (digits : Nat) (power : Int) : String :=
  let written := (toString digits).toList
  if 0 ≤ power then
    String.ofList (written ++ List.replicate (if digits = 0 then 0 else power.toNat) '0') ++ ".0"
  else
    let places := (-power).toNat
    let padded := List.replicate (places + 1 - written.length) '0' ++ written
    let whole := padded.length - places
    String.ofList (padded.take whole ++ '.' :: padded.drop whole)

end PythonFlow.Decimal
