import FocusLint.Options
import FocusLint.Span

/-!
Fixes: the removal of spans from a text.

In one pass the spans are looked at in order, each of them once. The text between the last span removed
and the next one is kept. A span that starts before the end of the last one removed is left for a later
pass. So is, for good, a span that does not fit the text.
-/

namespace FocusLint

/-- A text after a pass, with the number of spans that were removed and left. -/
structure FixOutcome where
  output : List Char
  applied : Nat
  skipped : Nat
  deriving DecidableEq, Repr

/-- How far a pass has come: the position behind the last span that was removed, what was kept of the
text before it, and the number of spans that were removed and left. -/
structure FixProgress where
  cursor : Nat
  output : List Char
  applied : Nat
  skipped : Nat
  deriving DecidableEq, Repr

namespace Fix

/-- The different spans of a list, in order. -/
def distinct (spans : List Span) : List Span :=
  dropRepeats (· == ·) (spans.mergeSort Span.le)

def start : FixProgress := ⟨0, [], 0, 0⟩

/-- Removes a span, or leaves it: if it starts before the cursor or does not fit. -/
def step (text : List Char) (progress : FixProgress) (span : Span) : Except BadSlice FixProgress :=
  if span.start < progress.cursor || !span.fits text then
    return { progress with skipped := progress.skipped + 1 }
  else do
    let kept ← Span.slice ⟨progress.cursor, span.start⟩ text
    return ⟨span.stop, progress.output ++ kept, progress.applied + 1, progress.skipped⟩

/-- What comes out of a pass, once all spans were looked at. -/
def finish (text : List Char) (progress : FixProgress) : Except BadSlice FixOutcome := do
  let kept ← Span.slice ⟨progress.cursor, Text.size text⟩ text
  return ⟨progress.output ++ kept, progress.applied, progress.skipped⟩

/-- One pass over a text, which fails if it takes a slice that does not fit. -/
def attempt (text : List Char) (spans : List Span) : Except BadSlice FixOutcome := do
  let progress ← (distinct spans).foldlM (step text) start
  finish text progress

/-- One pass over a text. No slice that it takes is bad. -/
def apply (text : List Char) (spans : List Span) : FixOutcome :=
  match attempt text spans with
  | .ok outcome => outcome
  | .error _ => ⟨text, 0, 0⟩

end Fix

end FocusLint
