/-!
Floating-point numbers of double precision, without sign.

Such a number is a whole number of at most 53 bits times a power of two. A quotient of whole numbers is
rounded to the nearest one, a tie going to the even whole number, and products and quotients of numbers
are rounded quotients of whole numbers. The exponent is not bounded above: a number that is too large
for its format is told by `isFinite`.
-/

namespace FocusLint.Decimal

/-- The number `mantissa * 2 ^ exponent`. -/
structure Double where
  mantissa : Nat
  exponent : Int
  deriving DecidableEq, Repr

/-- The quotient of two whole numbers, rounded to the nearest; a tie goes to the even one. -/
def halfEven (num den : Nat) : Nat :=
  let quotient := num / den
  let rest := num % den
  if 2 * rest < den then quotient
  else if den < 2 * rest then quotient + 1
  else quotient + quotient % 2

/-- Numerator and denominator of `num / den / base ^ exponent`. -/
def unscaled (base num den : Nat) (exponent : Int) : Nat × Nat :=
  let scale := Nat.pow base exponent.natAbs
  if exponent < 0 then (num * scale, den) else (num, den * scale)

/-- The largest exponent whose power of two is at most a positive quotient. -/
def floorLog (num den : Nat) : Int :=
  let guess : Int := (Nat.log2 num : Int) - Nat.log2 den
  let (above, below) := unscaled 2 num den guess
  if above < below then guess - 1 else guess

namespace Double

/-- The smallest exponent of the format. -/
def minExponent : Int := -1074

/-- The mantissa of a power of two, which is the smallest of 53 bits. -/
def leadingMantissa : Nat := Nat.pow 2 52

def ofRatio (num den : Nat) : Double :=
  if num = 0 then ⟨0, minExponent⟩
  else
    let exponent := max (floorLog num den - 52) minExponent
    let (above, below) := unscaled 2 num den exponent
    let mantissa := halfEven above below
    if mantissa = 2 * leadingMantissa then ⟨leadingMantissa, exponent + 1⟩ else ⟨mantissa, exponent⟩

def ofNat (n : Nat) : Double := ofRatio n 1

/-- Whether a number is small enough for the format. -/
def isFinite (a : Double) : Bool := decide (a.exponent ≤ 971)

def ratio (a : Double) : Nat × Nat := unscaled 2 a.mantissa 1 (-a.exponent)

def mul (a b : Double) : Double :=
  ofRatio (a.ratio.1 * b.ratio.1) (a.ratio.2 * b.ratio.2)

def div (a b : Double) : Double :=
  ofRatio (a.ratio.1 * b.ratio.2) (a.ratio.2 * b.ratio.1)

/-- A number divided by a power of ten, by steps that stay within the format. -/
def divTenPow (a : Double) (power : Nat) : Double :=
  if power ≤ 308 then a.div (ofNat (Nat.pow 10 power))
  else if a.mantissa = 0 then a
  else divTenPow (a.div (ofNat (Nat.pow 10 308))) (power - 308)
termination_by power

/-- A whole number times a power of ten, rounded after each step; none if it is too large. -/
def ofDecimal? (significand : Nat) (power : Int) : Option Double :=
  let a := ofNat significand
  if power < 0 then some (a.divTenPow power.natAbs)
  else if a.mantissa = 0 then some a
  else if 308 < power then none
  else
    let product := a.mul (ofNat (Nat.pow 10 power.natAbs))
    if product.isFinite then some product else none

end Double

end FocusLint.Decimal
