import FocusLint.Proofs.DiagnosticPositions

/-!
Lines and columns order the positions between characters, and name each of them.

Main statement: `lineColumn_orders_boundaries`. Of two positions between characters the one that comes first has
the earlier line and column, and no two have the same. A line and a column lead back to the position: behind one
line feed less than the line counts, and one character less further than the column counts. So a diagnostic of a
span that fits the text does not end before it starts, and ends where it starts only if the span is empty.

The order comes from what stands before the two positions, of which one is the start of the other
(`before_lineColumn`). An order that is strict on both sides tells the positions apart.
-/

namespace FocusLint

namespace LineColumn

theorem Before.irrefl (place : LineColumn) : ¬ place.Before place := by
  unfold Before
  omega

theorem Before.asymm {a b : LineColumn} (hab : a.Before b) : ¬ b.Before a := by
  unfold Before at *
  omega

end LineColumn

/-- The position that a line and a column lead to: behind the line feeds of the lines before, and as many characters
further as there are columns before. -/
def Text.positionOf (text : List Char) (place : LineColumn) : Nat :=
  size (upTo (place.line - 1) (place.column - 1) text)

namespace LineIndex

open Text

variable {text : List Char} {a b : Nat}

theorem attempt_ofText (text : List Char) (offset : Nat) :
    (ofText text).attempt offset = .ok ((ofText text).lineColumn offset) := by
  obtain ⟨place, hplace⟩ : ∃ place, (ofText text).attempt offset = .ok place := ⟨_, attempt_eq rfl rfl⟩
  rw [lineColumn, hplace]

/-- Positions between characters are in the order of their lines and columns. -/
theorem before_lineColumn_iff (ha : isBoundary text a = true) (hb : isBoundary text b = true) :
    ((ofText text).lineColumn a).Before ((ofText text).lineColumn b) ↔ a < b := by
  refine ⟨fun hbefore => ?_, before_lineColumn ha hb⟩
  rcases Nat.lt_trichotomy a b with hlt | rfl | hgt
  · exact hlt
  · exact absurd hbefore (LineColumn.Before.irrefl _)
  · exact absurd (before_lineColumn hb ha hgt) hbefore.asymm

theorem lineColumn_eq_iff (ha : isBoundary text a = true) (hb : isBoundary text b = true) :
    (ofText text).lineColumn a = (ofText text).lineColumn b ↔ a = b := by
  refine ⟨fun heq => ?_, fun heq => by rw [heq]⟩
  have hnot := LineColumn.Before.irrefl ((ofText text).lineColumn b)
  rcases Nat.lt_trichotomy a b with hlt | hsame | hgt
  · have hbefore := before_lineColumn ha hb hlt
    rw [heq] at hbefore
    exact absurd hbefore hnot
  · exact hsame
  · have hbefore := before_lineColumn hb ha hgt
    rw [heq] at hbefore
    exact absurd hbefore hnot

/-- The line and the column of a position between characters lead back to it. -/
theorem positionOf_lineColumn (ha : isBoundary text a = true) :
    positionOf text ((ofText text).lineColumn a) = a := by
  obtain ⟨before, behind, rfl, rfl⟩ := isBoundary_iff.mp ha
  rw [lineColumn_append, positionOf, ending, Nat.add_sub_cancel, Nat.add_sub_cancel, upTo_append]

/-- For any text, positions between characters are in the order of their lines and columns and are told apart by
them, and a line and a column lead back to the position that they were found for. A diagnostic of a span that fits
the text starts before it ends, or ends where it starts, and that only if the span is empty. -/
theorem lineColumn_orders_boundaries (text : List Char) :
    (∀ a b, isBoundary text a = true → isBoundary text b = true →
      (((ofText text).lineColumn a).Before ((ofText text).lineColumn b) ↔ a < b) ∧
      ((ofText text).lineColumn a = (ofText text).lineColumn b ↔ a = b)) ∧
    (∀ a, isBoundary text a = true →
      (ofText text).attempt a = .ok ((ofText text).lineColumn a) ∧
      positionOf text ((ofText text).lineColumn a) = a) ∧
    ∀ reports, List.Forall₂ (fun report diagnostic => report.span.fits text = true →
        (diagnostic.start.Before diagnostic.stop ∨ diagnostic.start = diagnostic.stop) ∧
        (diagnostic.start = diagnostic.stop ↔ report.span.start = report.span.stop))
      reports (diagnosticsOf text reports) := by
  refine ⟨fun a b ha hb => ⟨before_lineColumn_iff ha hb, lineColumn_eq_iff ha hb⟩,
    fun a ha => ⟨attempt_ofText text a, positionOf_lineColumn ha⟩, fun reports => ?_⟩
  rw [diagnosticsOf, List.forall₂_map_right_iff, List.forall₂_same]
  intro report _ hfits
  have hstart := Span.isBoundary_start hfits
  have hstop := Span.isBoundary_stop hfits
  have hsame := lineColumn_eq_iff hstart hstop
  refine ⟨?_, hsame⟩
  rcases Nat.lt_or_eq_of_le (Span.start_le_stop hfits) with hlt | heq
  · exact .inl (before_lineColumn hstart hstop hlt)
  · exact .inr (hsame.mpr heq)

/-- A line feed behind a character of two bytes, and the start of the next line: both are found again, and a
diagnostic of the line feed runs from the one to the other. -/
theorem lineColumn_orders_boundaries_accentedLine :
    isBoundary "é\nx".toList 2 = true ∧ isBoundary "é\nx".toList 3 = true ∧
    (Span.mk 2 3).fits "é\nx".toList = true ∧
    (ofText "é\nx".toList).lineColumn 2 = ⟨1, 2⟩ ∧ (ofText "é\nx".toList).lineColumn 3 = ⟨2, 1⟩ ∧
    ((ofText "é\nx".toList).lineColumn 2).Before ((ofText "é\nx".toList).lineColumn 3) ∧
    (ofText "é\nx".toList).lineColumn 2 ≠ (ofText "é\nx".toList).lineColumn 3 ∧
    positionOf "é\nx".toList ((ofText "é\nx".toList).lineColumn 3) = 3 ∧
    ∀ diagnostic ∈ diagnosticsOf "é\nx".toList [⟨"no-only-tests", 0, ⟨2, 3⟩, "", none⟩],
      diagnostic.start.Before diagnostic.stop := by
  have hfeed : isBoundary "é\nx".toList 2 = true := by decide
  have hnext : isBoundary "é\nx".toList 3 = true := by decide
  have hfits : (Span.mk 2 3).fits "é\nx".toList = true := by decide
  obtain ⟨horder, hback, hdiagnostics⟩ := lineColumn_orders_boundaries "é\nx".toList
  obtain ⟨hbefore, hsame⟩ := horder 2 3 hfeed hnext
  have hspans := hdiagnostics [⟨"no-only-tests", 0, ⟨2, 3⟩, "", none⟩]
  refine ⟨hfeed, hnext, hfits, by decide, by decide, hbefore.mpr (by decide), fun h => ?_, (hback 3 hnext).2, ?_⟩
  · exact absurd (hsame.mp h) (by decide)
  · intro diagnostic hmem
    rw [List.mem_singleton.mp hmem]
    obtain ⟨hends, hempty⟩ := (List.forall₂_cons.mp hspans).1 hfits
    exact hends.resolve_right fun h => absurd (hempty.mp h) (by decide)

end LineIndex

end FocusLint
