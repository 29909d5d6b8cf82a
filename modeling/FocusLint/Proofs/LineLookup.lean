import FocusLint.Proofs.TextPositions

/-!
The line and the column of a position, counted in bytes.

Main statement: `lineColumn_counts_lines`. The bytes before a position are whole lines, each with its line feed, and
the start of one more line. The line that is looked up counts the line feeds among them, and the column counts what
stands behind the last of these, for every position: between two characters, inside one, or past the end. No lookup
fails, so bisection never ends before the first line.

A line feed is a byte by itself, and no other character has that byte (`lineFeed_mem_utf8EncodeChar`). So what
stands before a position in bytes is what stands there in characters, with at most a part of one more that holds
no line feed (`take_bytes`).
-/

namespace FocusLint

namespace Text

def lineFeed : UInt8 := 10

/-- No character but the line feed has the byte of one. -/
theorem lineFeed_mem_utf8EncodeChar {c : Char} : lineFeed ∈ String.utf8EncodeChar c ↔ c = '\n' := by
  have hval : c = '\n' ↔ c.val.toNat = 10 := by
    rw [← Char.val_inj, ← UInt32.toNat_inj]
    rfl
  have hmax : c.val.toNat < 1114112 := by
    have hvalid : c.val.toNat < 55296 ∨ 57343 < c.val.toNat ∧ c.val.toNat < 1114112 := c.valid
    omega
  have hfeed : lineFeed = UInt8.ofNat 10 := rfl
  rw [hval, hfeed]
  unfold String.utf8EncodeChar
  generalize c.val.toNat = n at hmax
  -- All bytes of a longer form are large, and the byte of a form of one is the character itself.
  simp only []
  repeat' split
  all_goals
    simp (disch := omega) only [List.mem_cons, List.not_mem_nil, or_false, ofNat_eq_ofNat_iff]
    omega

theorem utf8EncodeChar_lineFeed : String.utf8EncodeChar '\n' = [lineFeed] := by decide

theorem count_bytes (text : List Char) : (bytes text).count lineFeed = text.count '\n' := by
  induction text with
  | nil => rfl
  | cons c rest ih =>
    have hbytes : bytes (c :: rest) = String.utf8EncodeChar c ++ bytes rest := List.flatMap_cons
    rw [hbytes, List.count_append, ih]
    by_cases hc : c = '\n'
    · rw [hc, utf8EncodeChar_lineFeed, List.count_cons_self, List.count_cons_self, List.count_nil]
      omega
    · rw [List.count_eq_zero.mpr fun hmem => hc (lineFeed_mem_utf8EncodeChar.mp hmem), List.count_cons_of_ne hc,
        Nat.zero_add]

/-- The bytes before a position are those of the characters that stand wholly before it, and a part of one more
that holds no line feed. -/
theorem take_bytes (n : Nat) (text : List Char) :
    ∃ part, (bytes text).take n = bytes (takeBytes n text) ++ part ∧ lineFeed ∉ part := by
  induction text generalizing n with
  | nil => exact ⟨[], by simp [takeBytes], List.not_mem_nil⟩
  | cons c rest ih =>
    have hbytes : ∀ others, bytes (c :: others) = String.utf8EncodeChar c ++ bytes others :=
      fun _ => List.flatMap_cons
    by_cases hbefore : c.utf8Size ≤ n
    · obtain ⟨part, htake, hpart⟩ := ih (n - c.utf8Size)
      refine ⟨part, ?_, hpart⟩
      rw [takeBytes, if_pos hbefore, hbytes, hbytes, List.take_append, String.length_utf8EncodeChar, htake,
        List.take_of_length_le (by rw [String.length_utf8EncodeChar]; exact hbefore), List.append_assoc]
    · refine ⟨(String.utf8EncodeChar c).take n, ?_, fun hmem => ?_⟩
      · have hrest : n - c.utf8Size = 0 := by omega
        rw [takeBytes, if_neg hbefore, hbytes, List.take_append, String.length_utf8EncodeChar, hrest]
        simp
      · -- A line feed takes one byte, which the position would lie behind.
        have hc := lineFeed_mem_utf8EncodeChar.mp (List.mem_of_mem_take hmem)
        rw [hc] at hbefore hmem
        have hzero : n = 0 := by
          have : '\n'.utf8Size = 1 := by decide
          omega
        rw [hzero, List.take_zero] at hmem
        exact List.not_mem_nil hmem

theorem count_take_bytes (n : Nat) (text : List Char) :
    ((bytes text).take n).count lineFeed = (takeBytes n text).count '\n' := by
  obtain ⟨part, htake, hpart⟩ := take_bytes n text
  rw [htake, List.count_append, count_bytes, List.count_eq_zero.mpr hpart, Nat.add_zero]

/-- The bytes before a position are whole lines, which take what stands before the last line of the characters
there, and a rest without line feeds. -/
theorem exists_lines (n : Nat) (text : List Char) :
    ∃ lines rest, (bytes text).take n = lines ++ rest ∧ (lines = [] ∨ lines.getLast? = some lineFeed) ∧
      lineFeed ∉ rest ∧ lines.length = lineStart (takeBytes n text) := by
  obtain ⟨init, hinit, hlast⟩ := exists_append_lastLine (takeBytes n text)
  obtain ⟨part, htake, hpart⟩ := take_bytes n text
  refine ⟨bytes init, bytes (lastLine (takeBytes n text)) ++ part, ?_, ?_, ?_, ?_⟩
  · rw [htake, ← List.append_assoc, ← bytes_append, ← hinit]
  · refine hlast.imp (fun hnil => by rw [hnil, bytes_nil]) fun hfeed => ?_
    obtain ⟨others, rfl⟩ := List.getLast?_eq_some_iff.mp hfeed
    have hbytes : bytes ['\n'] = [lineFeed] := by decide
    rw [bytes_append, hbytes, List.getLast?_append, List.getLast?_singleton, Option.some_or]
  · rw [List.mem_append, not_or]
    refine ⟨?_, hpart⟩
    rw [← List.count_eq_zero, count_bytes, List.count_eq_zero]
    exact not_mem_lastLine (takeBytes n text)
  · rw [length_bytes, lineStart_of_append hinit]

theorem slice_lastLine {n : Nat} {text : List Char} (h : isBoundary text n = true) :
    slice text (lineStart (takeBytes n text)) n = lastLine (takeBytes n text) := by
  obtain ⟨before, behind, rfl, rfl⟩ := isBoundary_iff.mp h
  rw [takeBytes_append, slice_lineStart]

end Text

namespace LineIndex

open Text

/-- For any text and any position, one past the end standing for the end: the bytes before the position are whole
lines, of which the last byte is a line feed, and a rest without line feeds. A lookup in the index of the text does
not fail. The line is one more than the number of line feeds before the position. The column is one more than the
number of characters in the rest or, if the position lies inside a character, the number of its bytes. -/
theorem lineColumn_counts_lines (text : List Char) (offset : Nat) :
    let position := min offset (size text)
    ∃ lines rest : List UInt8, (bytes text).take position = lines ++ rest ∧
      (lines = [] ∨ lines.getLast? = some lineFeed) ∧ lineFeed ∉ rest ∧
      let found : LineColumn := ⟨1 + ((bytes text).take position).count lineFeed,
        1 + if isBoundary text position then (slice text lines.length position).length
          else position - lines.length⟩
      (ofText text).attempt offset = .ok found ∧ (ofText text).lineColumn offset = found := by
  intro position
  obtain ⟨lines, rest, htake, hlines, hrest, hlength⟩ := exists_lines position text
  refine ⟨lines, rest, htake, hlines, hrest, ?_⟩
  intro found
  have hattempt : (ofText text).attempt offset = .ok found := by
    have hcolumn : (if isBoundary text position then (lastLine (takeBytes position text)).length
          else position - lineStart (takeBytes position text)) =
        if isBoundary text position then (slice text lines.length position).length
          else position - lines.length := by
      rw [hlength]
      split
      · next hboundary => rw [slice_lastLine hboundary]
      · rfl
    rw [attempt_eq rfl rfl, hcolumn, ← count_take_bytes, Nat.add_comm, Nat.add_comm _ 1]
  exact ⟨hattempt, by rw [lineColumn, hattempt]⟩

end LineIndex

end FocusLint
