import FocusLint.Decimal.Double

/-!
The shortest decimal that reads back as a given floating-point number.

A decimal reads back if it lies between the midpoints to the two neighbours of the number; a midpoint
itself reads back as the number with the even mantissa. For one digit, two digits and so on the two
decimals beside the number are tried, and the first that reads back is taken: of two the nearer one,
and of two equally near ones the even one. Seventeen digits are always enough.
-/

namespace FocusLint.Decimal

/-- Decimal digits, the first of which stands for the units times a power of ten. -/
structure Digits where
  digits : List Char
  power : Int
  deriving DecidableEq, Repr

/-- The power of ten of the first digit of a positive quotient. -/
def leadingPower (num den : Nat) : Int :=
  if den ≤ num then (Nat.toDigits 10 (num / den)).length - 1
  else match (List.range 400).find? fun j => den ≤ num * Nat.pow 10 j with
    | some j => -(j : Int)
    | none => 0

namespace Double

/-- The distance from a number to the midpoint below it, in quarters of its last place. -/
def quartersBelow (a : Double) : Nat :=
  if a.mantissa = leadingMantissa ∧ minExponent < a.exponent then 1 else 2

/-- Whether `num / den`, given in quarters of the last place of a number, reads back as the number. -/
def readsBack (a : Double) (num den : Nat) : Bool :=
  let low := (4 * a.mantissa - a.quartersBelow) * den
  let high := (4 * a.mantissa + 2) * den
  if a.mantissa % 2 = 0 then decide (low ≤ num) && decide (num ≤ high)
  else decide (low < num) && decide (num < high)

/-- The decimal of at most so many digits that is taken for a positive number, if one reads back, with
the power of ten of its last digit. -/
def candidate? (a : Double) (count : Nat) : Option (Nat × Int) :=
  let (num, den) := a.ratio
  let power := leadingPower num den - count + 1
  let (above, below) := unscaled 10 num den power
  let lower := above / below
  let fits (n : Nat) : Bool :=
    let (tenths, ones) := unscaled 10 n 1 (-power)
    let (quarters, units) := unscaled 2 tenths ones (a.exponent - 2)
    a.readsBack quarters units
  let rest := 2 * (above % below)
  let lowerFirst := rest < below || (rest = below && lower % 2 = 0)
  let (first, second) := if lowerFirst then (lower, lower + 1) else (lower + 1, lower)
  if fits first then some (first, power)
  else if fits second then some (second, power)
  else none

def withoutLastZeros (digits : List Char) : List Char :=
  match (digits.reverse.dropWhile (· == '0')).reverse with
  | [] => ['0']
  | digits => digits

/-- The shortest digits that read back as a number. -/
def shortest (a : Double) : Digits :=
  if a.mantissa = 0 then ⟨['0'], 0⟩
  else match (List.range 17).findSome? fun n => a.candidate? (n + 1) with
    | some (n, power) =>
      let digits := Nat.toDigits 10 n
      ⟨withoutLastZeros digits, power + digits.length - 1⟩
    | none => ⟨['0'], 0⟩

end Double

/-- How digits are written: positionally with a point and at least one digit behind it where the first
digit stands for `10 ^ power` with a power from -5 to 15, and else with an exponent that has a sign. -/
def Digits.write (a : Digits) : List Char :=
  if a.power < -5 || 15 < a.power then
    let fraction := match a.digits.drop 1 with
      | [] => []
      | digits => '.' :: digits
    a.digits.take 1 ++ fraction ++ ['e', if a.power < 0 then '-' else '+'] ++
      Nat.toDigits 10 a.power.natAbs
  else if a.power < 0 then
    ['0', '.'] ++ List.replicate (a.power.natAbs - 1) '0' ++ a.digits
  else
    let whole := a.power.natAbs + 1
    let fraction := match a.digits.drop whole with
      | [] => ['0']
      | digits => digits
    a.digits.take whole ++ List.replicate (whole - a.digits.length) '0' ++ '.' :: fraction

end FocusLint.Decimal
