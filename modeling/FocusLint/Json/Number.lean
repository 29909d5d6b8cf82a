import FocusLint.Json.Fault

/-!
Numbers in JSON.

A number without fraction and exponent is an integer as long as it fits 64 bits. Any other number, and
a negative zero, is a floating-point number: its first digits that fit 64 bits, times a power of ten.
-/

namespace FocusLint.Json

/-- The largest whole number that digits are gathered to. -/
def maxSignificand : Nat := Nat.pow 2 64 - 1

/-- The largest exponent that can be written. -/
def maxExponent : Nat := Nat.pow 2 31 - 1

def digitValue (c : Char) : Nat := c.toNat - '0'.toNat

/-- Appends digits to a whole number as long as it stays within a limit. -/
def gather (limit n : Nat) : List Char → Nat × List Char
  | [] => (n, [])
  | c :: rest =>
    if c.isDigit && n * 10 + digitValue c ≤ limit then gather limit (n * 10 + digitValue c) rest
    else (n, c :: rest)

def atDigit (text : List Char) : Bool := (text.head?.map Char.isDigit).getD false

/-- What follows the digits at the head of a text. -/
def behindDigits (text : List Char) : List Char := text.dropWhile Char.isDigit

def decimal (negative : Bool) (significand : Nat) (power : Int) (rest : List Char) :
    Except Fault (Found × List Char) :=
  match Decimal.Double.ofDecimal? significand power with
  | some value => .ok (.decimal negative value, rest)
  | none => .error ⟨.numberRange, rest, 0⟩

/-- Reads an exponent, behind its sign. -/
def readSignedExponent (negative : Bool) (significand : Nat) (power : Int) (below : Bool)
    (text : List Char) : Except Fault (Found × List Char) :=
  match text with
  | [] => .error ⟨.endOfValue, [], 0⟩
  | c :: rest =>
    if c.isDigit then
      let (exponent, behind) := gather maxExponent (digitValue c) rest
      if atDigit behind then
        if significand ≠ 0 && !below then .error ⟨.numberRange, behind, 1⟩
        else decimal negative 0 0 (behindDigits behind)
      else
        decimal negative significand (if below then power - exponent else power + exponent) behind
    else .error ⟨.number, c :: rest, 1⟩

/-- Reads an exponent, behind its letter. -/
def readExponent (negative : Bool) (significand : Nat) (power : Int) (text : List Char) :
    Except Fault (Found × List Char) :=
  match text with
  | '+' :: rest => readSignedExponent negative significand power false rest
  | '-' :: rest => readSignedExponent negative significand power true rest
  | text => readSignedExponent negative significand power false text

/-- Reads an exponent if there is one. -/
def readEnd (negative : Bool) (significand : Nat) (power : Int) (text : List Char) :
    Except Fault (Found × List Char) :=
  match text with
  | 'e' :: rest | 'E' :: rest => readExponent negative significand power rest
  | text => decimal negative significand power text

/-- Reads the digits behind a point. Those that no longer fit are left out. -/
def readFraction (negative : Bool) (significand : Nat) (power : Int) (text : List Char) :
    Except Fault (Found × List Char) :=
  let (significand, behind) := gather maxSignificand significand text
  let count := text.length - behind.length
  if atDigit behind then readEnd negative significand (power - count) (behindDigits behind)
  else if count = 0 then
    match behind with
    | [] => .error ⟨.endOfValue, [], 1⟩
    | rest => .error ⟨.number, rest, 1⟩
  else readEnd negative significand (power - count) behind

/-- An integer with a sign; a negative one that does not fit is a floating-point number. -/
def integer (negative : Bool) (n : Nat) (rest : List Char) : Except Fault (Found × List Char) :=
  if negative then
    if n = 0 || Nat.pow 2 63 < n then decimal true n 0 rest else .ok (.integer (-(n : Int)), rest)
  else .ok (.integer n, rest)

/-- Reads what follows the digits before a point; `power` of these digits are left out. -/
def readTail (negative : Bool) (significand power : Nat) (text : List Char) :
    Except Fault (Found × List Char) :=
  match text with
  | '.' :: rest => readFraction negative significand power rest
  | 'e' :: rest | 'E' :: rest => readExponent negative significand power rest
  | text => if power = 0 then integer negative significand text
    else decimal negative significand power text

/-- Reads a number, behind its sign. -/
def readNumber (negative : Bool) (text : List Char) : Except Fault (Found × List Char) :=
  match text with
  | [] => .error ⟨.endOfValue, [], 0⟩
  | '0' :: rest =>
    if atDigit rest then .error ⟨.number, rest, 1⟩ else readTail negative 0 0 rest
  | c :: rest =>
    if c.isDigit then
      let (significand, behind) := gather maxSignificand (digitValue c) rest
      let rest := behindDigits behind
      readTail negative significand (behind.length - rest.length) rest
    else .error ⟨.number, c :: rest, 1⟩

end FocusLint.Json
