import FocusLint.Span

/-!
Lines and columns.

An index of a text holds the positions at which its lines start. A position of the text lies on the
last line that starts at or before it, which is found by bisection, and its column counts characters
from there; inside a character there is nothing to count, and bytes are counted instead. Lines and
columns start at one.

An index that belongs to no text may hold no such line. Only then does a lookup fail.
-/

namespace FocusLint

structure LineColumn where
  line : Nat
  column : Nat
  deriving DecidableEq, Repr

/-! ## Bisection -/

/-- Where bisection ends: at an element that is the value, or where the value would have to be put in. -/
inductive Slot where
  | holds (i : Nat)
  | opens (i : Nat)
  deriving DecidableEq, Repr

/-- Halves a part of an increasing array, so many elements from `base` on, until one is left: the last
one that is not above a value, or the first one of all. -/
def narrow (values : Array Nat) (value : Nat) : (steps base size : Nat) → Nat
  | 0, base, _ => base
  | steps + 1, base, size =>
    if size ≤ 1 then base
    else
      let half := size / 2
      let middle := base + half
      let base := if values[middle]?.any (value < ·) then base else middle
      narrow values value steps base (size - half)

/-- Looks for a value in an increasing array. As many steps as there are elements are enough. -/
def bisect (values : Array Nat) (value : Nat) : Slot :=
  let base := narrow values value values.size 0 values.size
  match values[base]? with
  | none => .opens base
  | some found =>
    if found = value then .holds base
    else if found < value then .opens (base + 1)
    else .opens base

/-! ## The index of a text -/

/-- A text with the positions at which its lines start, first line first. -/
structure LineIndex where
  text : List Char
  starts : Array Nat

/-- A position has no line in an index, which then belongs to no text. -/
inductive LineFault where
  /-- No line starts at or before the position. -/
  | beforeFirst
  /-- There is no line with this number. -/
  | missing (line : Nat)
  /-- The line starts behind the position. -/
  | startsBehind (start : Nat)
  deriving DecidableEq, Repr

namespace LineIndex

/-- The positions behind the line feeds of a text that starts at some position. -/
def startsFrom (offset : Nat) : List Char → List Nat
  | [] => []
  | c :: rest =>
    let behind := offset + c.utf8Size
    if c = '\n' then behind :: startsFrom behind rest else startsFrom behind rest

def ofText (text : List Char) : LineIndex := ⟨text, (0 :: startsFrom 0 text).toArray⟩

/-- The line that a position lies on, counted from zero, where bisection ended: the line that starts at the
position, or the one before the first that starts behind it. -/
def lineOf : Slot → Except LineFault Nat
  | .holds line => .ok line
  | .opens 0 => .error .beforeFirst
  | .opens (line + 1) => .ok line

def startOf (index : LineIndex) (line : Nat) : Except LineFault Nat :=
  match index.starts[line]? with
  | some start => .ok start
  | none => .error (.missing line)

/-- How far a position lies from the start of its line: in characters, or in bytes if it cuts one. -/
def columnFrom (index : LineIndex) (start offset : Nat) : Except LineFault Nat :=
  match Span.slice ⟨start, offset⟩ index.text with
  | .ok before => .ok before.length
  | .error _ => if start ≤ offset then .ok (offset - start) else .error (.startsBehind start)

/-- The line and the column of a position; a position past the end stands for the end. -/
def attempt (index : LineIndex) (offset : Nat) : Except LineFault LineColumn := do
  let offset := min offset (Text.size index.text)
  let line ← lineOf (bisect index.starts offset)
  let start ← index.startOf line
  let column ← index.columnFrom start offset
  return ⟨line + 1, column + 1⟩

/-- The line and the column of a position. In the index of a text every position has them. -/
def lineColumn (index : LineIndex) (offset : Nat) : LineColumn :=
  match index.attempt offset with
  | .ok position => position
  | .error _ => ⟨1, 1⟩

end LineIndex

end FocusLint
