import FocusLint.Text.Bytes

/-!
Ranges of byte positions.

A span runs from its start up to, and not including, its stop. Nothing forces the start to come
first: spans that are handed in from outside may be reversed, lie past the end of a text or cut a
character in two, so whether a span fits a text is a question of its own.
-/

namespace FocusLint

/-- A half-open range of byte positions. -/
structure Span where
  start : Nat
  stop : Nat
  deriving DecidableEq, Repr, Inhabited

namespace Span

/-- Spans are ordered by where they start, and then by where they stop. -/
def le (a b : Span) : Bool :=
  decide (a.start < b.start) || (decide (a.start = b.start) && decide (a.stop ≤ b.stop))

/-- A span fits a text when it is not reversed, does not pass the end and cuts no character. -/
def fits (span : Span) (text : List Char) : Bool :=
  decide (span.start ≤ span.stop) && decide (span.stop ≤ Text.size text) &&
    Text.isBoundary text span.start && Text.isBoundary text span.stop

/-- The text under a span; a span that does not fit covers nothing. -/
def cover (span : Span) (text : List Char) : List Char :=
  if span.fits text then Text.slice text span.start span.stop else []

end Span

/-- The text under a span that does not fit was asked for. -/
structure BadSlice where
  span : Span
  deriving DecidableEq, Repr

/-- The text under a span, for those who are sure that it fits. -/
def Span.slice (span : Span) (text : List Char) : Except BadSlice (List Char) :=
  if span.fits text then .ok (Text.slice text span.start span.stop) else .error ⟨span⟩

end FocusLint
