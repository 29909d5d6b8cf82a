import FocusLint.Fix
import FocusLint.Proofs.TextBytes
import Mathlib.Data.List.Pairwise
import Mathlib.Data.List.Sort

/-!
One fix pass is the greedy removal of spans from left to right.

Main statement: `apply_removes_accepted`. The different spans of the list, in order, have exactly one
accepted part: spans that fit the text and follow one another without overlap, chosen so that a span is
left only if it does not fit or starts within one that was taken before it. A pass takes no bad slice,
deletes the bytes under the accepted spans and no others, and counts what it took and what it left.

The pass is a loop over the ordered spans. Its invariant (`Reached`) ties the cursor, the output and the
two counters to the accepted part of the spans looked at so far.
-/

namespace FocusLint

namespace Span

/-- Whether a position lies under a span. -/
def covers (span : Span) (position : Nat) : Bool :=
  decide (span.start ≤ position) && decide (position < span.stop)

/-- The strict order of spans: by where they start, and then by where they stop. -/
def Before (a b : Span) : Prop := a.start < b.start ∨ a.start = b.start ∧ a.stop < b.stop

theorem le_iff {a b : Span} : le a b = true ↔ a.Before b ∨ a = b := by
  obtain ⟨aStart, aStop⟩ := a
  obtain ⟨bStart, bStop⟩ := b
  simp only [le, Before, Bool.or_eq_true, Bool.and_eq_true, decide_eq_true_eq, mk.injEq]
  omega

theorem Before.trans {a b c : Span} (hab : a.Before b) (hbc : b.Before c) : a.Before c := by
  unfold Before at *
  omega

theorem Before.asymm {a b : Span} (hab : a.Before b) : ¬ b.Before a := by
  unfold Before at *
  omega

theorem Before.ne {a b : Span} (hab : a.Before b) : a ≠ b := by
  rintro rfl
  exact hab.asymm hab

theorem Before.start_le {a b : Span} (hab : a.Before b) : a.start ≤ b.start := by
  unfold Before at hab
  omega

end Span

namespace Fix

/-! ## The different spans, in order -/

theorem pairwise_mergeSort (spans : List Span) :
    (spans.mergeSort Span.le).Pairwise fun a b => a.Before b ∨ a = b := by
  have htrans : ∀ a b c : Span, a.le b = true → b.le c = true → a.le c = true := by
    intro a b c hab hbc
    simp only [Span.le, Bool.or_eq_true, Bool.and_eq_true, decide_eq_true_eq] at *
    omega
  have htotal : ∀ a b : Span, (a.le b || b.le a) = true := by
    intro a b
    simp only [Span.le, Bool.or_eq_true, Bool.and_eq_true, decide_eq_true_eq]
    omega
  exact (List.pairwise_mergeSort htrans htotal spans).imp Span.le_iff.mp

theorem mem_dropRepeatsAfter {last span : Span} {spans : List Span} :
    span = last ∨ span ∈ dropRepeatsAfter (· == ·) last spans ↔ span = last ∨ span ∈ spans := by
  induction spans generalizing last with
  | nil => simp [dropRepeatsAfter]
  | cons next others ih =>
    by_cases h : last = next
    · subst h
      simp [dropRepeatsAfter, ih]
    · simp [dropRepeatsAfter, h, ih]

theorem pairwise_dropRepeatsAfter {last : Span} {spans : List Span}
    (h : (last :: spans).Pairwise fun a b => a.Before b ∨ a = b) :
    (last :: dropRepeatsAfter (· == ·) last spans).Pairwise Span.Before := by
  induction spans generalizing last with
  | nil => simp [dropRepeatsAfter]
  | cons next others ih =>
    obtain ⟨hlast, hothers⟩ := List.pairwise_cons.mp h
    by_cases heq : last = next
    · subst heq
      simpa [dropRepeatsAfter] using ih hothers
    · have hnext : last.Before next := (hlast next List.mem_cons_self).resolve_right heq
      have htail := ih hothers
      simp only [dropRepeatsAfter, beq_iff_eq, heq, if_false]
      refine List.pairwise_cons.mpr ⟨?_, htail⟩
      intro span hspan
      rcases List.mem_cons.mp hspan with rfl | hspan
      · exact hnext
      · exact hnext.trans (List.rel_of_pairwise_cons htail hspan)

theorem distinct_ordered (spans : List Span) : (distinct spans).Pairwise Span.Before := by
  have h := pairwise_mergeSort spans
  unfold distinct
  cases hsorted : spans.mergeSort Span.le with
  | nil => exact List.Pairwise.nil
  | cons first others =>
    rw [hsorted] at h
    exact pairwise_dropRepeatsAfter h

theorem mem_distinct {span : Span} {spans : List Span} : span ∈ distinct spans ↔ span ∈ spans := by
  rw [distinct, ← List.mem_mergeSort (l := spans)]
  cases spans.mergeSort Span.le with
  | nil => rfl
  | cons first others => simp only [dropRepeats, List.mem_cons, mem_dropRepeatsAfter]

theorem eq_of_ordered {spans others : List Span} (ordered : spans.Pairwise Span.Before)
    (ordered' : others.Pairwise Span.Before) (hmem : ∀ span, span ∈ spans ↔ span ∈ others) :
    spans = others := by
  have hperm : spans.Perm others :=
    (List.perm_ext_iff_of_nodup (ordered.imp Span.Before.ne) (ordered'.imp Span.Before.ne)).mpr hmem
  exact hperm.eq_of_pairwise (fun a b _ _ hab hba => absurd hba hab.asymm) ordered ordered'

/-! ## The accepted part of some spans -/

/-- The part of some ordered spans that a pass from left to right takes: the spans fit the text and do not
overlap, and one that is left does not fit or starts before the end of one that comes before it. -/
structure Accepted (text : List Char) (spans accepted : List Span) : Prop where
  sublist : accepted.Sublist spans
  fits : ∀ span ∈ accepted, span.fits text = true
  apart : accepted.Pairwise fun a b => a.stop ≤ b.start
  left : ∀ span ∈ spans, span ∉ accepted →
    span.fits text = false ∨ ∃ taken ∈ accepted, taken.Before span ∧ span.start < taken.stop

variable {text : List Char} {spans accepted other : List Span}

theorem Accepted.mem_iff (h : Accepted text spans accepted) (ordered : spans.Pairwise Span.Before)
    (span : Span) :
    span ∈ accepted ↔ span ∈ spans ∧ span.fits text = true ∧
      ∀ taken ∈ accepted, taken.Before span → taken.stop ≤ span.start := by
  constructor
  · intro hspan
    refine ⟨h.sublist.subset hspan, h.fits span hspan, ?_⟩
    -- `apart` speaks of places in the list; the order of the spans turns that into `Before`.
    have hpair := (ordered.sublist h.sublist).and h.apart
    have hclear : ∀ a ∈ accepted, ∀ b ∈ accepted, a.Before b → a.stop ≤ b.start := by
      intro a ha b hb
      refine List.Pairwise.forall_of_forall_of_flip
        (R := fun a b => a.Before b → a.stop ≤ b.start) ?_ ?_ ?_ ha hb
      · exact fun x _ hx => absurd hx hx.asymm
      · exact hpair.imp fun hab _ => hab.2
      · exact hpair.imp fun hab hba => absurd hba hab.1.asymm
    exact fun taken htaken => hclear taken htaken span hspan
  · intro hgiven
    obtain ⟨hspan, hfits, hclear⟩ := hgiven
    by_contra hnot
    rcases h.left span hspan hnot with hbad | ⟨taken, htaken, hbefore, hlt⟩
    · rw [hfits] at hbad
      cases hbad
    · have := hclear taken htaken hbefore
      omega

/-- Two accepted parts have the same spans: which spans before one were taken decides whether it is. -/
theorem Accepted.mem_iff_mem (ordered : spans.Pairwise Span.Before)
    (h : Accepted text spans accepted) (h' : Accepted text spans other) (span : Span) :
    span ∈ accepted ↔ span ∈ other := by
  -- By induction on the span: all that decides whether it is taken comes before it.
  have hearlier : ∀ taken : Span, taken.Before span → (taken ∈ accepted ↔ taken ∈ other) :=
    fun taken _ => mem_iff_mem ordered h h' taken
  rw [h.mem_iff ordered, h'.mem_iff ordered]
  constructor
  · intro hgiven
    obtain ⟨hspan, hfits, hclear⟩ := hgiven
    refine ⟨hspan, hfits, fun taken htaken hbefore => ?_⟩
    exact hclear taken ((hearlier taken hbefore).mpr htaken) hbefore
  · intro hgiven
    obtain ⟨hspan, hfits, hclear⟩ := hgiven
    refine ⟨hspan, hfits, fun taken htaken hbefore => ?_⟩
    exact hclear taken ((hearlier taken hbefore).mp htaken) hbefore
termination_by (span.start, span.stop)
decreasing_by
  rw [Prod.lex_def]
  simpa [Span.Before] using ‹taken.Before span›

theorem Accepted.eq (ordered : spans.Pairwise Span.Before) (h : Accepted text spans accepted)
    (h' : Accepted text spans other) : accepted = other :=
  eq_of_ordered (ordered.sublist h.sublist) (ordered.sublist h'.sublist) (mem_iff_mem ordered h h')

theorem Accepted.leave (h : Accepted text spans accepted) {span : Span}
    (hleft : span.fits text = false ∨ ∃ taken ∈ accepted, taken.Before span ∧ span.start < taken.stop) :
    Accepted text (spans ++ [span]) accepted where
  sublist := h.sublist.trans (List.sublist_append_left _ _)
  fits := h.fits
  apart := h.apart
  left := by
    intro another hanother hnot
    rcases List.mem_append.mp hanother with hmem | hmem
    · exact h.left another hmem hnot
    · rw [List.mem_singleton.mp hmem]
      exact hleft

theorem Accepted.take (h : Accepted text spans accepted) {span : Span} (hfits : span.fits text = true)
    (hclear : ∀ taken ∈ accepted, taken.stop ≤ span.start) :
    Accepted text (spans ++ [span]) (accepted ++ [span]) where
  sublist := h.sublist.append (List.Sublist.refl _)
  fits := by
    intro another hanother
    rcases List.mem_append.mp hanother with hmem | hmem
    · exact h.fits another hmem
    · rw [List.mem_singleton.mp hmem]
      exact hfits
  apart := by
    refine List.pairwise_append.mpr ⟨h.apart, List.pairwise_singleton _ _, ?_⟩
    intro taken htaken another hanother
    rw [List.mem_singleton.mp hanother]
    exact hclear taken htaken
  left := by
    intro another hanother hnot
    rw [List.mem_append, not_or] at hnot
    rcases List.mem_append.mp hanother with hmem | hmem
    · rcases h.left another hmem hnot.1 with hbad | ⟨taken, htaken, hover⟩
      · exact Or.inl hbad
      · exact Or.inr ⟨taken, List.mem_append_left _ htaken, hover⟩
    · exact absurd hmem hnot.2

/-! ## The bytes that are kept -/

/-- The bytes at the positions that lie under none of some spans, where the first byte has the given
position. -/
def keptFrom (position : Nat) (removed : List Span) (bytes : List UInt8) : List UInt8 :=
  ((bytes.zipIdx position).filter fun byte => !removed.any (·.covers byte.2)).map Prod.fst

/-- The bytes that are left of a text when those under some spans are deleted. -/
def keptBytes (removed : List Span) (bytes : List UInt8) : List UInt8 := keptFrom 0 removed bytes

theorem keptFrom_append (position : Nat) (removed : List Span) (a b : List UInt8) :
    keptFrom position removed (a ++ b) =
      keptFrom position removed a ++ keptFrom (position + a.length) removed b := by
  simp [keptFrom, List.zipIdx_append]

theorem keptFrom_congr {position : Nat} {removed removed' : List Span} {bytes : List UInt8}
    (h : ∀ i, position ≤ i → i < position + bytes.length →
      removed.any (·.covers i) = removed'.any (·.covers i)) :
    keptFrom position removed bytes = keptFrom position removed' bytes := by
  unfold keptFrom
  congr 1
  apply List.filter_congr
  intro byte hbyte
  obtain ⟨hle, hlt, -⟩ := List.mem_zipIdx hbyte
  rw [h byte.2 hle hlt]

theorem keptFrom_of_clear {position : Nat} {removed : List Span} {bytes : List UInt8}
    (h : ∀ i, position ≤ i → i < position + bytes.length → removed.any (·.covers i) = false) :
    keptFrom position removed bytes = bytes := by
  have hnone : keptFrom position [] bytes = bytes := by
    simp [keptFrom]
  have hsame : keptFrom position removed bytes = keptFrom position [] bytes := by
    apply keptFrom_congr
    intro i hle hlt
    rw [h i hle hlt, List.any_nil]
  rw [hsame, hnone]

theorem keptFrom_of_covered {position : Nat} {removed : List Span} {bytes : List UInt8}
    (h : ∀ i, position ≤ i → i < position + bytes.length → removed.any (·.covers i) = true) :
    keptFrom position removed bytes = [] := by
  unfold keptFrom
  rw [List.map_eq_nil_iff, List.filter_eq_nil_iff]
  intro byte hbyte
  obtain ⟨hle, hlt, -⟩ := List.mem_zipIdx hbyte
  simp [h byte.2 hle hlt]

theorem any_covers_eq_false {removed : List Span} {i : Nat} (h : ∀ span ∈ removed, span.stop ≤ i) :
    removed.any (·.covers i) = false := by
  rw [List.any_eq_false]
  intro span hspan
  have := h span hspan
  simp only [Span.covers, Bool.and_eq_true, decide_eq_true_eq]
  omega

theorem keptBytes_rest {removed : List Span} {bytes : List UInt8} {cursor : Nat}
    (hcursor : cursor ≤ bytes.length) (hbehind : ∀ span ∈ removed, span.stop ≤ cursor) :
    keptBytes removed bytes = keptBytes removed (bytes.take cursor) ++ bytes.drop cursor := by
  have hclear : keptFrom cursor removed (bytes.drop cursor) = bytes.drop cursor := by
    apply keptFrom_of_clear
    intro i hle _
    exact any_covers_eq_false fun span hspan => Nat.le_trans (hbehind span hspan) hle
  have hlength : 0 + (bytes.take cursor).length = cursor := by simp [hcursor]
  calc keptBytes removed bytes
      = keptFrom 0 removed (bytes.take cursor ++ bytes.drop cursor) := by
        rw [List.take_append_drop]
        rfl
    _ = keptBytes removed (bytes.take cursor) ++ bytes.drop cursor := by
        rw [keptFrom_append, hlength, hclear]
        rfl

theorem keptBytes_take {removed : List Span} {span : Span} {bytes : List UInt8} {cursor : Nat}
    (hcursor : cursor ≤ span.start) (hspan : span.start ≤ span.stop) (hstop : span.stop ≤ bytes.length)
    (hbehind : ∀ span ∈ removed, span.stop ≤ cursor) :
    keptBytes (removed ++ [span]) (bytes.take span.stop) =
      keptBytes removed (bytes.take cursor) ++ (bytes.take span.start).drop cursor := by
  have hany : ∀ i, (removed ++ [span]).any (·.covers i) =
      (removed.any (·.covers i) || span.covers i) := fun i => by simp
  -- The bytes up to the end of the span are those before it and those under it.
  have hcut : bytes.take span.stop =
      bytes.take span.start ++ (bytes.take span.stop).drop span.start := by
    conv_lhs => rw [← List.take_append_drop span.start (bytes.take span.stop)]
    rw [List.take_take, Nat.min_eq_left hspan]
  have hlength : 0 + (bytes.take span.start).length = span.start := by
    simp only [List.length_take]
    omega
  have hunder : keptFrom span.start (removed ++ [span]) ((bytes.take span.stop).drop span.start) = [] := by
    apply keptFrom_of_covered
    intro i hle hlt
    simp only [List.length_drop, List.length_take] at hlt
    rw [hany, Bool.or_eq_true]
    right
    simp only [Span.covers, Bool.and_eq_true, decide_eq_true_eq]
    omega
  have hbefore : keptFrom 0 (removed ++ [span]) (bytes.take span.start) =
      keptFrom 0 removed (bytes.take span.start) := by
    apply keptFrom_congr
    intro i _ hlt
    simp only [List.length_take] at hlt
    have hnot : span.covers i = false := by
      simp only [Span.covers, Bool.and_eq_false_iff, decide_eq_false_iff_not]
      omega
    rw [hany, hnot, Bool.or_false]
  calc keptBytes (removed ++ [span]) (bytes.take span.stop)
      = keptFrom 0 removed (bytes.take span.start) ++ [] := by
        rw [hcut, keptBytes, keptFrom_append, hlength, hunder, hbefore]
    _ = keptBytes removed (bytes.take cursor) ++ (bytes.take span.start).drop cursor := by
        have hshort : cursor ≤ (bytes.take span.start).length := by omega
        have hrest := keptBytes_rest hshort hbehind
        rw [List.take_take, Nat.min_eq_left hcursor] at hrest
        rw [List.append_nil]
        exact hrest

/-! ## The loop -/

/-- Where a pass stands when it has looked at some spans and taken the accepted ones. -/
structure Reached (text : List Char) (spans accepted : List Span) (progress : FixProgress) : Prop where
  greedy : Accepted text spans accepted
  boundary : Text.isBoundary text progress.cursor = true
  behind : ∀ taken ∈ accepted, taken.stop ≤ progress.cursor
  last : progress.cursor = 0 ∨ ∃ taken ∈ accepted, taken.stop = progress.cursor
  output : Text.bytes progress.output = keptBytes accepted ((Text.bytes text).take progress.cursor)
  applied : progress.applied = accepted.length
  skipped : progress.applied + progress.skipped = spans.length

theorem reached_start (text : List Char) : Reached text [] [] start where
  greedy := ⟨List.Sublist.refl _, by simp, List.Pairwise.nil, by simp⟩
  boundary := Text.isBoundary_zero text
  behind := by simp
  last := Or.inl rfl
  output := by simp [start, keptBytes, keptFrom]
  applied := rfl
  skipped := rfl

variable {progress : FixProgress} {span : Span}

theorem Reached.leave (h : Reached text spans accepted progress)
    (hafter : ∀ earlier ∈ spans, earlier.Before span)
    (hleft : span.start < progress.cursor ∨ span.fits text = false) :
    Reached text (spans ++ [span]) accepted { progress with skipped := progress.skipped + 1 } where
  greedy := by
    apply h.greedy.leave
    rcases hleft with hstart | hbad
    -- The cursor is the end of a span that was taken, and the new one starts within that.
    · rcases h.last with hzero | ⟨taken, htaken, hstop⟩
      · omega
      · have hbefore := hafter taken (h.greedy.sublist.subset htaken)
        exact Or.inr ⟨taken, htaken, hbefore, by omega⟩
    · exact Or.inl hbad
  boundary := h.boundary
  behind := h.behind
  last := h.last
  output := h.output
  applied := h.applied
  skipped := by
    have := h.skipped
    simp only [List.length_append, List.length_singleton]
    omega

/-- A span that is taken moves the cursor behind it and keeps what lies before it. -/
theorem Reached.take (h : Reached text spans accepted progress) (hstart : progress.cursor ≤ span.start)
    (hfits : span.fits text = true) {kept : List Char}
    (hkept : Text.bytes kept = ((Text.bytes text).take span.start).drop progress.cursor) :
    Reached text (spans ++ [span]) (accepted ++ [span])
      ⟨span.stop, progress.output ++ kept, progress.applied + 1, progress.skipped⟩ where
  greedy := h.greedy.take hfits fun taken htaken => Nat.le_trans (h.behind taken htaken) hstart
  boundary := Span.isBoundary_stop hfits
  behind := by
    intro taken htaken
    have hspan := Span.start_le_stop hfits
    rcases List.mem_append.mp htaken with hmem | hmem
    · have := h.behind taken hmem
      show taken.stop ≤ span.stop
      omega
    · rw [List.mem_singleton.mp hmem]
  last := Or.inr ⟨span, List.mem_append_right _ (List.mem_singleton_self span), rfl⟩
  output := by
    have hstop : span.stop ≤ (Text.bytes text).length := by
      rw [Text.length_bytes]
      exact Text.le_size_of_isBoundary (Span.isBoundary_stop hfits)
    rw [Text.bytes_append, hkept, h.output,
      keptBytes_take hstart (Span.start_le_stop hfits) hstop h.behind]
  applied := by
    have := h.applied
    simp only [List.length_append, List.length_singleton]
    omega
  skipped := by
    have := h.skipped
    simp only [List.length_append, List.length_singleton]
    omega

/-- One step of the loop takes no bad slice and keeps the invariant. -/
theorem Reached.step (h : Reached text spans accepted progress)
    (hafter : ∀ earlier ∈ spans, earlier.Before span) :
    ∃ accepted' progress', step text progress span = .ok progress' ∧
      Reached text (spans ++ [span]) accepted' progress' := by
  by_cases hleft : span.start < progress.cursor ∨ span.fits text = false
  · refine ⟨accepted, { progress with skipped := progress.skipped + 1 }, ?_, h.leave hafter hleft⟩
    have hcond : (decide (span.start < progress.cursor) || !span.fits text) = true := by
      simpa using hleft
    simp [Fix.step, hcond, pure, Except.pure]
  · rw [not_or, Nat.not_lt, Bool.not_eq_false] at hleft
    obtain ⟨hstart, hfits⟩ := hleft
    -- What is kept runs from boundary to boundary, so that the slice is not bad.
    have hbetween := Span.fits_of_boundaries hstart h.boundary (Span.isBoundary_start hfits)
    obtain ⟨kept, hslice, hkept⟩ := Span.slice_of_fits hbetween
    refine ⟨accepted ++ [span], _, ?_, h.take hstart hfits hkept⟩
    have hcond : (decide (span.start < progress.cursor) || !span.fits text) = false := by
      simp [hfits, hstart]
    simp [Fix.step, hcond, hslice, pure, Except.pure, bind, Except.bind]

theorem Reached.run (h : Reached text spans accepted progress) (rest : List Span)
    (ordered : (spans ++ rest).Pairwise Span.Before) :
    ∃ accepted' progress', rest.foldlM (Fix.step text) progress = .ok progress' ∧
      Reached text (spans ++ rest) accepted' progress' := by
  -- The spans looked at grow as the rest shrinks, and together they stay in order.
  induction rest generalizing spans accepted progress with
  | nil => exact ⟨accepted, progress, rfl, by simpa using h⟩
  | cons span rest ih =>
    have hafter : ∀ earlier ∈ spans, earlier.Before span := fun earlier hearlier =>
      (List.pairwise_append.mp ordered).2.2 earlier hearlier span List.mem_cons_self
    obtain ⟨accepted₁, progress₁, hstep, h₁⟩ := h.step hafter
    have hassoc : spans ++ [span] ++ rest = spans ++ span :: rest := by simp
    obtain ⟨accepted₂, progress₂, hrun, h₂⟩ := ih h₁ (hassoc ▸ ordered)
    refine ⟨accepted₂, progress₂, ?_, hassoc ▸ h₂⟩
    simp [List.foldlM_cons, hstep, hrun, bind, Except.bind]

theorem Reached.finish (h : Reached text spans accepted progress) :
    ∃ output, Fix.finish text progress = .ok ⟨output, progress.applied, progress.skipped⟩ ∧
      Text.bytes output = keptBytes accepted (Text.bytes text) := by
  have hcursor := Text.le_size_of_isBoundary h.boundary
  have hrest := Span.fits_of_boundaries hcursor h.boundary (Text.isBoundary_size text)
  obtain ⟨kept, hslice, hkept⟩ := Span.slice_of_fits hrest
  refine ⟨progress.output ++ kept, ?_, ?_⟩
  · simp [Fix.finish, hslice, pure, Except.pure, bind, Except.bind]
  · have hall : (Text.bytes text).take (Text.size text) = Text.bytes text :=
      List.take_of_length_le (by simp)
    rw [Text.bytes_append, hkept, h.output, hall]
    exact (keptBytes_rest (by simpa using hcursor) h.behind).symm

/-! ## The pass -/

/-- A pass takes no bad slice, and what comes out of it is told by the accepted part of its spans. -/
theorem apply_spec (text : List Char) (spans : List Span) :
    ∃ accepted, Accepted text (distinct spans) accepted ∧
      attempt text spans = .ok (apply text spans) ∧
      Text.bytes (apply text spans).output = keptBytes accepted (Text.bytes text) ∧
      (apply text spans).applied = accepted.length ∧
      (apply text spans).applied + (apply text spans).skipped = (distinct spans).length := by
  have hordered : ([] ++ distinct spans).Pairwise Span.Before := distinct_ordered spans
  obtain ⟨accepted, progress, hrun, h⟩ := (reached_start text).run (distinct spans) hordered
  obtain ⟨output, hfinish, hbytes⟩ := h.finish
  have hattempt : attempt text spans = .ok ⟨output, progress.applied, progress.skipped⟩ := by
    simp [attempt, hrun, hfinish, bind, Except.bind]
  have happly : apply text spans = ⟨output, progress.applied, progress.skipped⟩ := by
    simp [apply, hattempt]
  rw [happly]
  exact ⟨accepted, h.greedy, hattempt, hbytes, h.applied, h.skipped⟩

/-- A pass removes something exactly when one of its spans fits. -/
theorem applied_pos_iff (text : List Char) (spans : List Span) :
    0 < (apply text spans).applied ↔ ∃ span ∈ spans, span.fits text = true := by
  obtain ⟨accepted, h, -, -, happlied, -⟩ := apply_spec text spans
  rw [happlied, List.length_pos_iff_exists_mem]
  constructor
  · intro hgiven
    obtain ⟨span, hspan⟩ := hgiven
    exact ⟨span, mem_distinct.mp (h.sublist.subset hspan), h.fits span hspan⟩
  · intro hgiven
    obtain ⟨span, hspan, hfits⟩ := hgiven
    by_cases hmem : span ∈ accepted
    · exact ⟨span, hmem⟩
    · rcases h.left span (mem_distinct.mpr hspan) hmem with hbad | ⟨taken, htaken, -⟩
      · rw [hfits] at hbad
        cases hbad
      · exact ⟨taken, htaken⟩

/-! ## Spans that are apart -/

/-- Spans of which each takes some bytes and no two overlap, in whatever order they are given. -/
structure Apart (spans : List Span) : Prop where
  nonempty : ∀ span ∈ spans, span.start < span.stop
  clear : spans.Pairwise fun a b => a.stop ≤ b.start ∨ b.stop ≤ a.start

theorem Apart.nodup (h : Apart spans) : spans.Nodup := by
  refine h.clear.imp_of_mem fun ha _ hclear heq => ?_
  subst heq
  have := h.nonempty _ ha
  omega

theorem Apart.mem_accepted_iff (h : Apart spans) (haccepted : Accepted text (distinct spans) accepted)
    (span : Span) : span ∈ accepted ↔ span ∈ spans ∧ span.fits text = true := by
  constructor
  · intro hspan
    exact ⟨mem_distinct.mp (haccepted.sublist.subset hspan), haccepted.fits span hspan⟩
  · intro hgiven
    obtain ⟨hspan, hfits⟩ := hgiven
    by_contra hnot
    rcases haccepted.left span (mem_distinct.mpr hspan) hnot with hbad | ⟨taken, htaken, hbefore, hlt⟩
    · rw [hfits] at hbad
      cases hbad
    · -- A span that begins within one before it would overlap that one.
      have hother := mem_distinct.mp (haccepted.sublist.subset htaken)
      have hsymm : Std.Symm fun a b : Span => a.stop ≤ b.start ∨ b.stop ≤ a.start := ⟨fun _ _ => Or.symm⟩
      have hclear := h.clear.forall hother hspan hbefore.ne
      have hnonempty := h.nonempty span hspan
      have hstart := hbefore.start_le
      omega

theorem apply_of_apart (text : List Char) (h : Apart spans) :
    Text.bytes (apply text spans).output =
        keptBytes (spans.filter (·.fits text)) (Text.bytes text) ∧
      (apply text spans).applied = (spans.filter (·.fits text)).length ∧
      (apply text spans).applied + (apply text spans).skipped = spans.length := by
  obtain ⟨accepted, haccepted, -, hbytes, happlied, hskipped⟩ := apply_spec text spans
  have hdistinct : (distinct spans).Nodup := (distinct_ordered spans).imp Span.Before.ne
  have hperm : accepted.Perm (spans.filter (·.fits text)) := by
    refine (List.perm_ext_iff_of_nodup (hdistinct.sublist haccepted.sublist) (h.nodup.filter _)).mpr ?_
    intro span
    rw [h.mem_accepted_iff haccepted, List.mem_filter]
  have hall : (distinct spans).Perm spans :=
    (List.perm_ext_iff_of_nodup hdistinct h.nodup).mpr fun _ => mem_distinct
  refine ⟨?_, by rw [happlied, hperm.length_eq], by rw [hskipped, hall.length_eq]⟩
  rw [hbytes]
  exact keptFrom_congr fun i _ _ => hperm.any_eq

/-- A pass removes from a text the only accepted part of its different spans, taken in order, and nothing
else; no slice that it takes is bad. -/
theorem apply_removes_accepted (text : List Char) (spans : List Span) :
    ∃ different accepted, different.Pairwise Span.Before ∧
      (∀ span, span ∈ different ↔ span ∈ spans) ∧
      Accepted text different accepted ∧
      (∀ other, Accepted text different other → other = accepted) ∧
      attempt text spans = .ok (apply text spans) ∧
      Text.bytes (apply text spans).output = keptBytes accepted (Text.bytes text) ∧
      (apply text spans).applied = accepted.length ∧
      (apply text spans).skipped = different.length - accepted.length ∧
      (1 ≤ (apply text spans).applied ↔ ∃ span ∈ spans, span.fits text = true) := by
  obtain ⟨accepted, h, hattempt, hbytes, happlied, hskipped⟩ := apply_spec text spans
  refine ⟨distinct spans, accepted, distinct_ordered spans, fun _ => mem_distinct, h, ?_, hattempt,
    hbytes, happlied, by omega, applied_pos_iff text spans⟩
  intro other hother
  exact hother.eq (distinct_ordered spans) h

end Fix

end FocusLint
