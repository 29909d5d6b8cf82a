import FocusLint.Span

/-!
Texts as bytes.

A position of a text falls between two characters exactly when it is the size of what stands before it,
so a span that fits a text cuts it into three parts, and the slice under the span is the middle one
(`fits_iff`, `slice_append`). Taking that slice does not fail, and its bytes are those of the text at
the positions of the span (`slice_of_fits`).

Texts are in the order of their bytes as they are in the order of their characters (`bytes_lt_iff`).
-/

namespace FocusLint

namespace Text

def bytes (text : List Char) : List UInt8 := text.flatMap String.utf8EncodeChar

@[simp] theorem bytes_nil : bytes [] = [] := rfl

@[simp] theorem bytes_append (a b : List Char) : bytes (a ++ b) = bytes a ++ bytes b := by
  simp [bytes]

@[simp] theorem length_bytes (text : List Char) : (bytes text).length = size text := by
  induction text with
  | nil => rfl
  | cons c rest ih =>
    rw [size_cons, ← ih]
    simp [bytes]

/-! ## The order of bytes -/

theorem ofNat_lt_ofNat_iff {a b : Nat} (ha : a < 256) (hb : b < 256) :
    UInt8.ofNat a < UInt8.ofNat b ↔ a < b := by
  rw [UInt8.lt_iff_toNat_lt, UInt8.toNat_ofNat', UInt8.toNat_ofNat']
  omega

theorem ofNat_eq_ofNat_iff {a b : Nat} (ha : a < 256) (hb : b < 256) :
    UInt8.ofNat a = UInt8.ofNat b ↔ a = b := by
  rw [← UInt8.toNat_inj, UInt8.toNat_ofNat', UInt8.toNat_ofNat']
  omega

/-- The bytes of a smaller character come first, whatever follows them. -/
theorem utf8EncodeChar_append_lt {c d : Char} (h : c < d) (a b : List UInt8) :
    String.utf8EncodeChar c ++ a < String.utf8EncodeChar d ++ b := by
  have hlt : c.val.toNat < d.val.toNat := h
  have hmax : d.val.toNat < 1114112 := by
    have hvalid : d.val.toNat < 55296 ∨ 57343 < d.val.toNat ∧ d.val.toNat < 1114112 := d.valid
    omega
  unfold String.utf8EncodeChar
  generalize c.val.toNat = m at hlt
  generalize d.val.toNat = n at hlt hmax
  have hone : m / 64 < n / 64 ∨ m / 64 = n / 64 ∧ m % 64 < n % 64 := by omega
  have htwo : m / 64 < n / 64 →
      m / 4096 < n / 4096 ∨ m / 4096 = n / 4096 ∧ m / 64 % 64 < n / 64 % 64 := by omega
  have hthree : m / 4096 < n / 4096 →
      m / 262144 < n / 262144 ∨ m / 262144 = n / 262144 ∧ m / 4096 % 64 < n / 4096 % 64 := by omega
  have hm : m / 262144 % 8 = m / 262144 := Nat.mod_eq_of_lt (by omega)
  have hn : n / 262144 % 8 = n / 262144 := Nat.mod_eq_of_lt (by omega)
  -- More bytes start with a larger one. As many bytes are digits to base 64, highest first.
  simp only []
  repeat' split
  all_goals
    simp (disch := omega) only [List.cons_append, List.nil_append, List.cons_lt_cons_iff,
      ofNat_lt_ofNat_iff, ofNat_eq_ofNat_iff]
    omega

theorem bytes_lt_of_lt {a b : List Char} (h : a < b) : bytes a < bytes b := by
  have hlex : List.Lex (· < ·) a b := h
  clear h
  induction hlex with
  | @nil c rest =>
    have hpos : 0 < (bytes (c :: rest)).length := by
      have := c.utf8Size_pos
      rw [length_bytes, size_cons]
      omega
    obtain ⟨byte, others, heq⟩ := List.exists_cons_of_length_pos hpos
    rw [heq]
    exact List.nil_lt_cons byte others
  | @cons c a b _ ih => exact List.append_left_lt ih
  | @rel c a d b hlt => exact utf8EncodeChar_append_lt hlt (bytes a) (bytes b)

/-- Texts are in the order of their bytes as they are in the order of their characters. -/
theorem bytes_lt_iff {a b : List Char} : bytes a < bytes b ↔ a < b := by
  refine ⟨fun h => Classical.byContradiction fun hnot => ?_, bytes_lt_of_lt⟩
  rcases List.le_iff_lt_or_eq.mp (List.not_lt.mp hnot) with hlt | heq
  · exact List.lt_asymm h (bytes_lt_of_lt hlt)
  · rw [heq] at h
    exact List.lt_irrefl _ h

/-! ## Cutting a text -/

theorem takeBytes_zero (text : List Char) : takeBytes 0 text = [] := by
  cases text with
  | nil => rfl
  | cons c rest => simp [takeBytes, Nat.not_le.mpr c.utf8Size_pos]

theorem dropBytes_zero (text : List Char) : dropBytes 0 text = text := by
  cases text with
  | nil => rfl
  | cons c rest => simp [dropBytes, Nat.not_le.mpr c.utf8Size_pos]

@[simp] theorem takeBytes_append (a b : List Char) : takeBytes (size a) (a ++ b) = a := by
  induction a with
  | nil => exact takeBytes_zero b
  | cons c rest ih => simp [takeBytes, ih]

@[simp] theorem dropBytes_append (a b : List Char) : dropBytes (size a) (a ++ b) = b := by
  induction a with
  | nil => exact dropBytes_zero b
  | cons c rest ih => simp [dropBytes, ih]

theorem size_takeBytes_le (n : Nat) (text : List Char) : size (takeBytes n text) ≤ n := by
  induction text generalizing n with
  | nil => exact Nat.zero_le n
  | cons c rest ih =>
    rw [takeBytes]
    split
    · have := ih (n - c.utf8Size)
      rw [size_cons]
      omega
    · exact Nat.zero_le n

theorem slice_append (before middle behind : List Char) :
    slice (before ++ (middle ++ behind)) (size before) (size before + size middle) = middle := by
  simp [slice]

theorem isBoundary_cons (c : Char) (rest : List Char) {n : Nat} (h : 0 < n) :
    isBoundary (c :: rest) n = (decide (c.utf8Size ≤ n) && isBoundary rest (n - c.utf8Size)) := by
  cases n with
  | zero => omega
  | succ n => rfl

theorem isBoundary_append (a b : List Char) : isBoundary (a ++ b) (size a) = true := by
  induction a with
  | nil => cases b <;> rfl
  | cons c rest ih =>
    have hc := c.utf8Size_pos
    have hsub : c.utf8Size + size rest - c.utf8Size = size rest := by omega
    rw [size_cons, List.cons_append, isBoundary_cons c _ (by omega), hsub, ih]
    simp

theorem isBoundary_iff {text : List Char} {n : Nat} :
    isBoundary text n = true ↔ ∃ before behind, text = before ++ behind ∧ size before = n := by
  constructor
  · intro h
    induction text generalizing n with
    | nil =>
      cases n with
      | zero => exact ⟨[], [], rfl, rfl⟩
      | succ n => simp [isBoundary] at h
    | cons c rest ih =>
      cases n with
      | zero => exact ⟨[], c :: rest, rfl, rfl⟩
      | succ n =>
        rw [isBoundary_cons c rest (Nat.succ_pos n)] at h
        simp only [Bool.and_eq_true, decide_eq_true_eq] at h
        obtain ⟨hc, hrest⟩ := h
        obtain ⟨before, behind, rfl, hsize⟩ := ih hrest
        exact ⟨c :: before, behind, rfl, by simp only [size_cons]; omega⟩
  · intro hgiven
    obtain ⟨before, behind, rfl, rfl⟩ := hgiven
    exact isBoundary_append before behind

theorem isBoundary_zero (text : List Char) : isBoundary text 0 = true := by
  cases text <;> rfl

theorem isBoundary_size (text : List Char) : isBoundary text (size text) = true :=
  isBoundary_iff.mpr ⟨text, [], by simp, rfl⟩

theorem le_size_of_isBoundary {text : List Char} {n : Nat} (h : isBoundary text n = true) :
    n ≤ size text := by
  obtain ⟨before, behind, rfl, rfl⟩ := isBoundary_iff.mp h
  simp

theorem append_of_size_le {a b c d : List Char} (h : a ++ b = c ++ d) (hle : size a ≤ size c) :
    ∃ middle, c = a ++ middle ∧ b = middle ++ d := by
  induction a generalizing c with
  | nil => exact ⟨c, rfl, by simpa using h⟩
  | cons x a ih =>
    cases c with
    | nil =>
      have := x.utf8Size_pos
      simp only [size_cons, size_nil] at hle
      omega
    | cons y c =>
      simp only [List.cons_append, List.cons.injEq] at h
      obtain ⟨rfl, htail⟩ := h
      obtain ⟨middle, rfl, hb⟩ := ih htail (by simp only [size_cons] at hle; omega)
      exact ⟨middle, rfl, hb⟩

/-! ## The character before a position -/

/-- Whether the character that ends at a position takes more than one byte. -/
def wideBefore (text : List Char) (position : Nat) : Bool :=
  (takeBytes position text).getLast?.any fun c => decide (1 < c.utf8Size)

/-- No position falls between two characters if it lies within one. -/
theorem isBoundary_within (before rest : List Char) {c : Char} {n : Nat} (hpos : 0 < n)
    (hlt : n < c.utf8Size) : isBoundary (before ++ c :: rest) (size before + n) = false := by
  induction before with
  | nil =>
    have hnot : ¬ c.utf8Size ≤ n := Nat.not_le.mpr hlt
    rw [List.nil_append, size_nil, Nat.zero_add, isBoundary_cons c rest hpos]
    simp [hnot]
  | cons d before ih =>
    have hsub : d.utf8Size + size before + n - d.utf8Size = size before + n := by omega
    rw [List.cons_append, size_cons, isBoundary_cons d _ (by omega), hsub, ih, Bool.and_false]

/-- The byte before a position between two characters can be cut off if it is a character by itself, or if
there is none. -/
theorem isBoundary_pred {text : List Char} {n : Nat} (h : isBoundary text n = true) :
    isBoundary text (n - 1) = !wideBefore text n := by
  obtain ⟨before, behind, rfl, rfl⟩ := isBoundary_iff.mp h
  rw [wideBefore, takeBytes_append]
  rcases List.eq_nil_or_concat before with rfl | ⟨init, c, rfl⟩
  · simpa using isBoundary_zero behind
  · have hsize : size (init.concat c) = size init + c.utf8Size := by simp
    have htext : init.concat c ++ behind = init ++ c :: behind := by simp
    have hlast : (init.concat c).getLast? = some c := by simp
    have hc := c.utf8Size_pos
    rw [hsize, htext, hlast, Option.any_some]
    by_cases hwide : 1 < c.utf8Size
    · have hwithin : size init + c.utf8Size - 1 = size init + (c.utf8Size - 1) := by omega
      rw [hwithin, isBoundary_within init behind (by omega) (by omega)]
      simp [hwide]
    · have hbehind : size init + c.utf8Size - 1 = size init := by omega
      rw [hbehind, isBoundary_append]
      simp [hwide]

end Text

namespace Span

open Text

/-- A span fits a text when it cuts the text into three parts and covers the middle one. -/
theorem fits_iff {span : Span} {text : List Char} :
    span.fits text = true ↔ ∃ before middle behind, text = before ++ (middle ++ behind) ∧
      span.start = size before ∧ span.stop = size before + size middle := by
  simp only [fits, Bool.and_eq_true, decide_eq_true_eq]
  constructor
  · intro hgiven
    obtain ⟨⟨⟨hle, _⟩, hstart⟩, hstop⟩ := hgiven
    obtain ⟨before, rest, rfl, hbefore⟩ := isBoundary_iff.mp hstart
    obtain ⟨upto, behind, heq, hupto⟩ := isBoundary_iff.mp hstop
    obtain ⟨middle, rfl, rfl⟩ := append_of_size_le heq (by omega)
    exact ⟨before, middle, behind, rfl, hbefore.symm, by rw [← hupto, size_append]⟩
  · intro hgiven
    obtain ⟨before, middle, behind, rfl, hstart, hstop⟩ := hgiven
    rw [hstart, hstop]
    refine ⟨⟨⟨by omega, by simp only [size_append]; omega⟩, isBoundary_append _ _⟩, ?_⟩
    rw [← size_append, ← List.append_assoc]
    exact isBoundary_append _ _

theorem fits_of_boundaries {text : List Char} {a b : Nat} (hle : a ≤ b)
    (ha : isBoundary text a = true) (hb : isBoundary text b = true) :
    fits ⟨a, b⟩ text = true := by
  simp [fits, hle, ha, hb, le_size_of_isBoundary hb]

theorem start_le_stop {span : Span} {text : List Char} (h : span.fits text = true) :
    span.start ≤ span.stop := by
  obtain ⟨_, _, _, _, hstart, hstop⟩ := fits_iff.mp h
  omega

theorem isBoundary_start {span : Span} {text : List Char} (h : span.fits text = true) :
    isBoundary text span.start = true := by
  simp only [fits, Bool.and_eq_true] at h
  exact h.1.2

theorem isBoundary_stop {span : Span} {text : List Char} (h : span.fits text = true) :
    isBoundary text span.stop = true := by
  simp only [fits, Bool.and_eq_true] at h
  exact h.2

theorem slice_of_fits {span : Span} {text : List Char} (h : span.fits text = true) :
    ∃ piece, span.slice text = .ok piece ∧
      bytes piece = ((bytes text).take span.stop).drop span.start := by
  refine ⟨Text.slice text span.start span.stop, by simp [Span.slice, h], ?_⟩
  obtain ⟨before, middle, behind, rfl, hstart, hstop⟩ := fits_iff.mp h
  rw [hstart, hstop, slice_append]
  simp [← length_bytes, List.take_append, List.take_of_length_le]

end Span

end FocusLint
