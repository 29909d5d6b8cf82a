import FocusLint.Proofs.Bisection
import FocusLint.Proofs.TextBytes

/-!
Lines and columns of the positions of a text.

The line and the column of a position depend only on what stands before it: the line counts line feeds, and
the column counts what stands behind the last of them, in characters if the position lies between two of them
(`Text.ending`). The index of a text finds just these for every position, also for one inside a character or past
the end (`attempt_eq`, `lineColumn_append`). They grow with the text before them (`ending_before`,
`before_lineColumn`), and they lead back to it, so that a piece of a text can be cut out between two of them
(`between_append`).
-/

namespace FocusLint

/-- One position comes before another: on an earlier line, or in an earlier column of the same line. -/
def LineColumn.Before (a b : LineColumn) : Prop :=
  a.line < b.line ∨ a.line = b.line ∧ a.column < b.column

namespace Text

/-- What stands behind the last line feed of a text. -/
def lastLine : List Char → List Char
  | [] => []
  | c :: rest => if '\n' ∈ c :: rest then lastLine rest else c :: rest

/-- The position at which the last line of a text starts. -/
def lineStart (text : List Char) : Nat := size text - size (lastLine text)

def ending (text : List Char) : LineColumn := ⟨text.count '\n' + 1, (lastLine text).length + 1⟩

/-- The start of a text: so many lines with their line feeds, and so many characters of the next one. -/
def upTo : Nat → Nat → List Char → List Char
  | _, _, [] => []
  | 0, characters, text => text.take characters
  | lines + 1, characters, c :: rest =>
    c :: upTo (if c = '\n' then lines else lines + 1) characters rest

/-- What stands between two positions of a text. -/
def between (text : List Char) (start stop : LineColumn) : List Char :=
  (upTo (stop.line - 1) (stop.column - 1) text).drop
    (upTo (start.line - 1) (start.column - 1) text).length

/-! ## The last line -/

theorem lastLine_of_not_mem {text : List Char} (h : '\n' ∉ text) : lastLine text = text := by
  cases text with
  | nil => rfl
  | cons c rest => rw [lastLine, if_neg h]

theorem lastLine_append (a b : List Char) :
    lastLine (a ++ b) = if '\n' ∈ b then lastLine b else lastLine a ++ b := by
  induction a with
  | nil =>
    split
    · rfl
    · next h => exact lastLine_of_not_mem h
  | cons c rest ih =>
    have hall : '\n' ∈ c :: (rest ++ b) ↔ '\n' ∈ c :: rest ∨ '\n' ∈ b := by simp [or_assoc]
    rw [List.cons_append, lastLine, lastLine, ih]
    by_cases hb : '\n' ∈ b
    · rw [if_pos hb, if_pos (hall.mpr (.inr hb)), if_pos hb]
    · rw [if_neg hb, if_neg hb]
      by_cases hrest : '\n' ∈ c :: rest
      · rw [if_pos hrest, if_pos (hall.mpr (.inl hrest))]
      · rw [if_neg hrest, if_neg (fun h => (hall.mp h).elim hrest hb), List.cons_append]

theorem not_mem_lastLine (text : List Char) : '\n' ∉ lastLine text := by
  induction text with
  | nil => exact List.not_mem_nil
  | cons c rest ih =>
    rw [lastLine]
    split
    · exact ih
    · next h => exact h

theorem exists_append_lastLine (text : List Char) :
    ∃ init, text = init ++ lastLine text ∧ (init = [] ∨ init.getLast? = some '\n') := by
  induction text with
  | nil => exact ⟨[], rfl, .inl rfl⟩
  | cons c rest ih =>
    rw [lastLine]
    split
    · next hmem =>
      obtain ⟨init, hinit, hlast⟩ := ih
      refine ⟨c :: init, by rw [List.cons_append, ← hinit], .inr ?_⟩
      rcases hlast with rfl | hlast
      · -- The rest is the last line, so the line feed is the first character.
        rw [List.nil_append] at hinit
        have hnot : '\n' ∉ rest := hinit ▸ not_mem_lastLine rest
        rcases List.mem_cons.mp hmem with hc | hrest
        · rw [← hc, List.getLast?_singleton]
        · exact absurd hrest hnot
      · rw [List.getLast?_cons, hlast, Option.getD_some]
    · exact ⟨[], rfl, .inl rfl⟩

theorem lineStart_of_append {text init : List Char} (h : text = init ++ lastLine text) :
    lineStart text = size init := by
  have hsize := congrArg size h
  rw [size_append] at hsize
  rw [lineStart]
  omega

theorem slice_lineStart (before behind : List Char) :
    slice (before ++ behind) (lineStart before) (size before) = lastLine before := by
  obtain ⟨init, hinit, -⟩ := exists_append_lastLine before
  have hmiddle := slice_append init (lastLine before) behind
  rwa [← List.append_assoc, ← size_append, ← hinit, ← lineStart_of_append hinit] at hmiddle

theorem fits_lastLine (before behind : List Char) :
    (Span.mk (lineStart before) (size before)).fits (before ++ behind) = true := by
  obtain ⟨init, hinit, -⟩ := exists_append_lastLine before
  refine Span.fits_iff.mpr ⟨init, lastLine before, behind, ?_, lineStart_of_append hinit, ?_⟩
  · rw [← List.append_assoc, ← hinit]
  · rw [← size_append, ← hinit]

/-! ## The end of a text -/

theorem ending_before (a : List Char) {b : List Char} (h : b ≠ []) :
    (ending a).Before (ending (a ++ b)) := by
  by_cases hb : '\n' ∈ b
  · left
    have := List.count_pos_iff.mpr hb
    simp only [ending, List.count_append]
    omega
  · right
    have hcount := List.count_eq_zero.mpr hb
    have hlength := List.length_pos_iff.mpr h
    simp only [ending, List.count_append, lastLine_append, if_neg hb, List.length_append]
    omega

theorem ending_append_of_not_mem (a : List Char) {b : List Char} (h : '\n' ∉ b) :
    ending (a ++ b) = ⟨(ending a).line, (ending a).column + b.length⟩ := by
  have hcount := List.count_eq_zero.mpr h
  have hlength : (lastLine a ++ b).length + 1 = (lastLine a).length + 1 + b.length := by
    rw [List.length_append]
    omega
  simp only [ending, List.count_append, hcount, lastLine_append, if_neg h, hlength, Nat.add_zero]

/-- The end of a text leads back to it wherever it is continued. -/
theorem upTo_append (a b : List Char) : upTo (a.count '\n') (lastLine a).length (a ++ b) = a := by
  induction a with
  | nil => cases b <;> simp [upTo, lastLine]
  | cons c rest ih =>
    rw [List.cons_append, lastLine]
    by_cases hmem : '\n' ∈ c :: rest
    · have hpos := List.count_pos_iff.mpr hmem
      obtain ⟨lines, hlines⟩ : ∃ lines, (c :: rest).count '\n' = lines + 1 :=
        ⟨_, (Nat.succ_pred_eq_of_pos hpos).symm⟩
      have hbelow : (if c = '\n' then lines else lines + 1) = rest.count '\n' := by
        rw [List.count_cons] at hlines
        by_cases hc : c = '\n'
        · simp only [hc, beq_self_eq_true, if_true] at hlines ⊢
          omega
        · simp only [hc, beq_iff_eq, if_false] at hlines ⊢
          omega
      rw [if_pos hmem, hlines, upTo, hbelow, ih]
    · rw [if_neg hmem, List.count_eq_zero.mpr hmem, upTo]
      · exact List.take_left' rfl
      · simp

theorem between_append (a b c : List Char) :
    between (a ++ (b ++ c)) (ending a) (ending (a ++ b)) = b := by
  have hstart := upTo_append a (b ++ c)
  have hstop := upTo_append (a ++ b) c
  rw [List.append_assoc] at hstop
  simp only [between, ending, Nat.add_sub_cancel]
  rw [hstart, hstop, List.drop_left]

end Text

/-! ## The index of a text -/

namespace LineIndex

open Text

theorem startsFrom_append (offset : Nat) (a b : List Char) :
    startsFrom offset (a ++ b) = startsFrom offset a ++ startsFrom (offset + size a) b := by
  induction a generalizing offset with
  | nil => rfl
  | cons c rest ih =>
    simp only [List.cons_append, startsFrom, size_cons, ih, Nat.add_assoc]
    split <;> rfl

theorem length_startsFrom (offset : Nat) (text : List Char) :
    (startsFrom offset text).length = text.count '\n' := by
  induction text generalizing offset with
  | nil => rfl
  | cons c rest ih =>
    by_cases hc : c = '\n'
    · simp [startsFrom, hc, ih]
    · simp [startsFrom, hc, ih]

theorem mem_startsFrom {offset start : Nat} {text : List Char} (h : start ∈ startsFrom offset text) :
    offset < start ∧ start ≤ offset + size text := by
  induction text generalizing offset with
  | nil => cases h
  | cons c rest ih =>
    have hc := c.utf8Size_pos
    simp only [size_cons]
    rw [startsFrom] at h
    split at h
    · rcases List.mem_cons.mp h with rfl | h
      · omega
      · have := ih h
        omega
    · have := ih h
      omega

theorem le_of_mem_startsFrom_cons {offset start : Nat} {c : Char} {rest : List Char}
    (h : start ∈ startsFrom offset (c :: rest)) : offset + c.utf8Size ≤ start := by
  have hrest : start ∈ startsFrom (offset + c.utf8Size) rest → offset + c.utf8Size ≤ start :=
    fun hmem => Nat.le_of_lt (mem_startsFrom hmem).1
  rw [startsFrom] at h
  split at h
  · rcases List.mem_cons.mp h with rfl | hmem
    · exact Nat.le_refl _
    · exact hrest hmem
  · exact hrest h

/-- The last line of a text starts where what stands before it ends. -/
theorem getLastD_startsFrom (offset : Nat) (text : List Char) :
    (startsFrom offset text).getLastD offset + size (lastLine text) = offset + size text := by
  induction text generalizing offset with
  | nil => rfl
  | cons c rest ih =>
    have hrest := ih (offset + c.utf8Size)
    rw [size_cons, ← Nat.add_assoc, ← hrest, startsFrom, lastLine]
    by_cases hc : c = '\n'
    · rw [if_pos hc, if_pos (by simp [hc]), List.getLastD_cons]
    · rw [if_neg hc]
      by_cases hmem : '\n' ∈ rest
      · have hne : startsFrom (offset + c.utf8Size) rest ≠ [] := by
          rw [← List.length_pos_iff, length_startsFrom]
          exact List.count_pos_iff.mpr hmem
        rw [if_pos (List.mem_cons_of_mem c hmem), List.getLastD_eq_getLast?, List.getLastD_eq_getLast?,
          List.getLast?_eq_some_getLast hne]
        rfl
      · have hnil : startsFrom (offset + c.utf8Size) rest = [] := by
          rw [← List.length_eq_zero_iff, length_startsFrom, List.count_eq_zero.mpr hmem]
        have hall : '\n' ∉ c :: rest := by simp [Ne.symm hc, hmem]
        rw [if_neg hall, hnil, lastLine_of_not_mem hmem, size_cons]
        simp only [List.getLastD_nil]
        omega

/-- The lines that start at or before a position follow the line feeds that stand before it. -/
theorem startsFrom_le_iff {base offset i start : Nat} {text : List Char}
    (h : (startsFrom base text)[i]? = some start) :
    start ≤ base + offset ↔ i < (takeBytes offset text).count '\n' := by
  induction text generalizing base offset i with
  | nil => simp [startsFrom] at h
  | cons c rest ih =>
    by_cases hbefore : c.utf8Size ≤ offset
    · have hmoved : base + offset = base + c.utf8Size + (offset - c.utf8Size) := by omega
      rw [takeBytes, if_pos hbefore, hmoved]
      rw [startsFrom] at h
      by_cases hc : c = '\n'
      · have hcount : ∀ others : List Char, (c :: others).count '\n' = others.count '\n' + 1 := by
          intro others
          rw [hc, List.count_cons_self]
        rw [if_pos hc] at h
        rw [hcount]
        cases i with
        | zero =>
          simp only [List.getElem?_cons_zero, Option.some.injEq] at h
          omega
        | succ i =>
          rw [List.getElem?_cons_succ] at h
          rw [ih h]
          omega
      · rw [if_neg hc] at h
        rw [ih h, List.count_cons_of_ne hc]
    · -- No character stands wholly before the position, so every line but the first starts behind it.
      have hstart := le_of_mem_startsFrom_cons (List.mem_of_getElem? h)
      rw [takeBytes, if_neg hbefore, List.count_nil]
      omega

theorem ranks_starts (text : List Char) (offset : Nat) :
    Ranks (ofText text).starts offset ((takeBytes offset text).count '\n' + 1) where
  le_size := by
    have hsplit := congrArg (List.count '\n') (takeBytes_append_dropBytes offset text)
    rw [List.count_append] at hsplit
    simp only [ofText, List.size_toArray, List.length_cons, length_startsFrom]
    omega
  le_iff := by
    intro i start hget
    rw [ofText, List.getElem?_toArray] at hget
    cases i with
    | zero =>
      simp only [List.getElem?_cons_zero, Option.some.injEq] at hget
      omega
    | succ i =>
      rw [List.getElem?_cons_succ] at hget
      have hle : start ≤ 0 + offset ↔ i < (takeBytes offset text).count '\n' := startsFrom_le_iff hget
      omega

theorem startOf_ofText (before behind : List Char) :
    (ofText (before ++ behind)).startOf (before.count '\n') = .ok (lineStart before) := by
  have hlast := getLastD_startsFrom 0 before
  have hget : (0 :: startsFrom 0 (before ++ behind))[before.count '\n']? =
      some ((startsFrom 0 before).getLastD 0) := by
    rw [startsFrom_append, ← List.cons_append, ← length_startsFrom 0 before,
      List.getElem?_append_left (by simp), List.getLastD_eq_getLast?]
    cases startsFrom 0 before with
    | nil => rfl
    | cons start others => simp [List.getLast?_eq_getElem?]
  rw [startOf, ofText, List.getElem?_toArray, hget]
  refine congrArg Except.ok ?_
  rw [lineStart]
  omega

/-- From the start of its line a position is as far as the last line before it is long, in characters or, inside
a character, in bytes. -/
theorem columnFrom_ofText {text before : List Char} {position : Nat} (hbefore : takeBytes position text = before) :
    (ofText text).columnFrom (lineStart before) position =
      .ok (if isBoundary text position then (lastLine before).length else position - lineStart before) := by
  by_cases hboundary : isBoundary text position = true
  · obtain ⟨upto, behind, rfl, rfl⟩ := isBoundary_iff.mp hboundary
    rw [takeBytes_append] at hbefore
    subst hbefore
    have hcut : (Span.mk (lineStart upto) (size upto)).slice (upto ++ behind) = .ok (lastLine upto) := by
      rw [Span.slice, if_pos (fits_lastLine upto behind), slice_lineStart]
    rw [columnFrom, ofText, hcut, if_pos hboundary]
  · have hcut : (Span.mk (lineStart before) position).slice text = .error ⟨⟨lineStart before, position⟩⟩ :=
      if_neg fun hfits => hboundary (Span.isBoundary_stop hfits)
    have hle : lineStart before ≤ position := by
      have hsize := size_takeBytes_le position text
      rw [hbefore] at hsize
      rw [lineStart]
      omega
    rw [columnFrom, ofText, hcut, if_neg hboundary]
    exact if_pos hle

/-- Every position of a text has a line and a column, which are told by what stands before it. -/
theorem attempt_eq {text before : List Char} {offset position : Nat} (hposition : min offset (size text) = position)
    (hbefore : takeBytes position text = before) :
    (ofText text).attempt offset = .ok ⟨before.count '\n' + 1,
      (if isBoundary text position then (lastLine before).length else position - lineStart before) + 1⟩ := by
  have hline : lineOf (bisect (ofText text).starts position) = .ok (before.count '\n') := by
    rw [lineOf_bisect (ranks_starts text position), hbefore]
  have hstart : (ofText text).startOf (before.count '\n') = .ok (lineStart before) := by
    have htext := takeBytes_append_dropBytes position text
    rw [hbefore] at htext
    rw [← htext, startOf_ofText]
  have hcolumn := columnFrom_ofText hbefore
  have htext : (ofText text).text = text := rfl
  simp only [attempt, htext, hposition, hline, hstart, hcolumn, bind, Except.bind]
  rfl

/-- A position between two characters has the line and the column at the end of what stands before it. -/
theorem lineColumn_append (before behind : List Char) :
    (ofText (before ++ behind)).lineColumn (size before) = ending before := by
  have hmin : min (size before) (size (before ++ behind)) = size before := by
    rw [size_append]
    omega
  rw [lineColumn, attempt_eq hmin (takeBytes_append before behind), if_pos (isBoundary_append before behind)]
  rfl

theorem before_lineColumn {text : List Char} {a b : Nat} (ha : isBoundary text a = true)
    (hb : isBoundary text b = true) (hlt : a < b) :
    ((ofText text).lineColumn a).Before ((ofText text).lineColumn b) := by
  obtain ⟨before, behind, rfl, rfl⟩ := isBoundary_iff.mp ha
  obtain ⟨upto, rest, heq, rfl⟩ := isBoundary_iff.mp hb
  -- What stands before the second position starts with what stands before the first one.
  obtain ⟨middle, rfl, -⟩ := append_of_size_le heq (Nat.le_of_lt hlt)
  have hmiddle : middle ≠ [] := by
    rintro rfl
    rw [List.append_nil] at hlt
    exact Nat.lt_irrefl _ hlt
  rw [lineColumn_append before behind, heq, lineColumn_append (before ++ middle) rest]
  exact ending_before before hmiddle

end LineIndex

end FocusLint
