/-!
# Nearest double

A number of the form `m * 2 ^ q` with `m` below `2 ^ 53` and `q` at least `-1074` is a double. The
double nearest to a quotient of natural numbers is found in exact arithmetic; of two that are
equally near, the one with the even `m` is taken. Every magnitude from `2 ^ 1024` on is out of
range.
-/

set_option autoImplicit false

namespace PythonFlow.Decimal

/-- The magnitude `significand * 2 ^ exponent`. -/
structure Dyadic where
  significand : Nat
  exponent : Int
deriving DecidableEq, Repr

/-- The nearest whole number to `num / den`, the even one of two. -/
def roundQuotient (num den : Nat) : Nat :=
  let whole := num / den
  let twice := 2 * (num % den)
  if den < twice then whole + 1
  else if den = twice then whole + whole % 2
  else whole

def scaled (num den base : Nat) (power : Int) : Nat × Nat :=
  (num * Nat.pow base (-power).toNat, den * Nat.pow base power.toNat)

/-- The exponent `e` with `2 ^ e ≤ num / den < 2 ^ (e + 1)`. -/
def binaryExponent (num den : Nat) : Int :=
  let guess : Int := (num.log2 : Int) - den.log2
  let (n, d) := scaled num den 2 guess
  if n < d then guess - 1 else guess

def Dyadic.inRange (x : Dyadic) : Bool :=
  x.significand * Nat.pow 2 x.exponent.toNat < Nat.pow 2 1024 * Nat.pow 2 (-x.exponent).toNat

def nearestDouble (num den : Nat) : Option Dyadic :=
  let exponent := max (binaryExponent num den - 52) (-1074)
  let (n, d) := scaled num den 2 exponent
  let m := roundQuotient n d
  let x : Dyadic := if m = Nat.pow 2 53 then ⟨Nat.pow 2 52, exponent + 1⟩ else ⟨m, exponent⟩
  if x.inRange then some x else none

end PythonFlow.Decimal
