import FocusLint.Proofs.FixPass
import Mathlib.Data.Finset.Card

/-!
What comes out of a fix pass depends on which spans are given, not on how they are given.

Main statement: `apply_follows_set`. Lists of the same spans, in any order and with any repeats, make the same of a
text. Spans that do not fit change nothing in what comes out, wherever they stand; each that was not given before is
one more that is left.

Sorting brings the equal spans together, so that the different spans of a list are told by its members
(`distinct_congr`). A span that does not fit only moves the counter of what is left (`step_of_not_fits`), which
no step reads (`step_leave`). So a pass does what the spans that fit make it do, and counts the others
(`attempt_filter`).
-/

namespace FocusLint

/-- The same progress, with so many more spans left. -/
def FixProgress.leave (progress : FixProgress) (count : Nat) : FixProgress :=
  { progress with skipped := progress.skipped + count }

def FixOutcome.leave (outcome : FixOutcome) (count : Nat) : FixOutcome :=
  { outcome with skipped := outcome.skipped + count }

namespace Fix

variable {text : List Char} {spans others : List Span} {span : Span}

/-! ## The different spans of a list -/

/-- Lists of the same spans have the same different spans, in the same order. -/
theorem distinct_congr (h : ∀ span, span ∈ spans ↔ span ∈ others) : distinct spans = distinct others := by
  apply eq_of_ordered (distinct_ordered spans) (distinct_ordered others)
  intro span
  rw [mem_distinct, mem_distinct, h]

theorem distinct_filter (p : Span → Bool) (spans : List Span) :
    distinct (spans.filter p) = (distinct spans).filter p := by
  apply eq_of_ordered (distinct_ordered _) ((distinct_ordered spans).filter p)
  intro span
  rw [mem_distinct, List.mem_filter, List.mem_filter, mem_distinct]

/-- The different spans of a list are counted as the set of its spans is. -/
theorem countP_distinct (p : Span → Bool) (spans : List Span) :
    (distinct spans).countP p = (spans.toFinset.filter fun span => p span = true).card := by
  have hset : ((distinct spans).filter p).toFinset = spans.toFinset.filter fun span => p span = true := by
    ext span
    simp [mem_distinct]
  have hnodup : ((distinct spans).filter p).Nodup := ((distinct_ordered spans).imp Span.Before.ne).filter p
  rw [List.countP_eq_length_filter, ← hset, List.toFinset_card_of_nodup hnodup]

/-! ## Spans that do not fit -/

theorem step_of_not_fits (h : span.fits text = false) (progress : FixProgress) :
    step text progress span = .ok (progress.leave 1) := by
  rw [step, if_pos (by simp [h])]
  rfl

theorem step_leave (text : List Char) (progress : FixProgress) (count : Nat) (span : Span) :
    step text (progress.leave count) span = (step text progress span).map (·.leave count) := by
  have hcursor : (progress.leave count).cursor = progress.cursor := rfl
  rw [step, step, hcursor]
  by_cases hleft : (decide (span.start < progress.cursor) || !span.fits text) = true
  · rw [if_pos hleft, if_pos hleft]
    have hswap : progress.skipped + count + 1 = progress.skipped + 1 + count := by omega
    show Except.ok (FixProgress.mk progress.cursor progress.output progress.applied
      (progress.skipped + count + 1)) = _
    rw [hswap]
    rfl
  · rw [if_neg hleft, if_neg hleft]
    cases Span.slice ⟨progress.cursor, span.start⟩ text <;> rfl

theorem foldlM_step_leave (text : List Char) (spans : List Span) (progress : FixProgress) (count : Nat) :
    spans.foldlM (step text) (progress.leave count) =
      (spans.foldlM (step text) progress).map (·.leave count) := by
  induction spans generalizing progress with
  | nil => rfl
  | cons span others ih =>
    rw [List.foldlM_cons, List.foldlM_cons, step_leave]
    cases step text progress span with
    | error bad => rfl
    | ok next => exact ih next

theorem foldlM_step_filter (text : List Char) (spans : List Span) (progress : FixProgress) :
    spans.foldlM (step text) progress =
      ((spans.filter (·.fits text)).foldlM (step text) progress).map
        (·.leave (spans.countP (!·.fits text))) := by
  induction spans generalizing progress with
  | nil => rfl
  | cons span others ih =>
    cases hfits : span.fits text with
    | true =>
      rw [List.filter_cons_of_pos (by exact hfits), List.countP_cons_of_neg (by simp [hfits]),
        List.foldlM_cons, List.foldlM_cons]
      cases step text progress span with
      | error bad => rfl
      | ok next => exact ih next
    | false =>
      rw [List.filter_cons_of_neg (by simp [hfits]), List.countP_cons_of_pos (by simp [hfits]),
        List.foldlM_cons, step_of_not_fits hfits]
      show others.foldlM (step text) (progress.leave 1) = _
      rw [foldlM_step_leave, ih]
      cases (others.filter (·.fits text)).foldlM (step text) progress with
      | error bad => rfl
      | ok next =>
        simp only [Except.map, FixProgress.leave, Nat.add_assoc]

theorem finish_leave (text : List Char) (progress : FixProgress) (count : Nat) :
    finish text (progress.leave count) = (finish text progress).map (·.leave count) := by
  simp only [finish, FixProgress.leave]
  cases Span.slice ⟨progress.cursor, Text.size text⟩ text <;> rfl

/-- A pass does what the spans that fit make it do, and counts the different ones that do not. -/
theorem attempt_filter (text : List Char) (spans : List Span) :
    attempt text spans = (attempt text (spans.filter (·.fits text))).map
      (·.leave ((distinct spans).countP (!·.fits text))) := by
  rw [attempt, attempt, distinct_filter, foldlM_step_filter]
  cases ((distinct spans).filter (·.fits text)).foldlM (step text) start with
  | error bad => rfl
  | ok progress => exact finish_leave text progress _

/-! ## The pass -/

theorem attempt_eq_apply (text : List Char) (spans : List Span) :
    attempt text spans = .ok (apply text spans) := by
  obtain ⟨accepted, -, hattempt, -⟩ := apply_spec text spans
  exact hattempt

theorem apply_filter (text : List Char) (spans : List Span) :
    apply text spans = (apply text (spans.filter (·.fits text))).leave
      (spans.toFinset.filter fun span => span.fits text = false).card := by
  have hattempt := attempt_filter text spans
  rw [attempt_eq_apply, attempt_eq_apply, countP_distinct] at hattempt
  simpa using Except.ok.inj hattempt

theorem apply_congr (h : ∀ span, span ∈ spans ↔ span ∈ others) : apply text spans = apply text others := by
  rw [apply, apply, attempt, attempt, distinct_congr h]

/-! ## Spans that are added -/

section Added

variable {added mixed : List Span} (hmem : ∀ span, span ∈ mixed ↔ span ∈ spans ∨ span ∈ added)
  (hbad : ∀ span ∈ added, span.fits text = false)

include hmem hbad

theorem mem_filter_of_added (span : Span) :
    span ∈ mixed.filter (·.fits text) ↔ span ∈ spans.filter (·.fits text) := by
  simp only [List.mem_filter, hmem]
  constructor
  · rintro ⟨hspan | hspan, hfits⟩
    · exact ⟨hspan, hfits⟩
    · rw [hbad span hspan] at hfits
      cases hfits
  · exact fun ⟨hspan, hfits⟩ => ⟨.inl hspan, hfits⟩

/-- Of the added spans those are counted that were not there. -/
theorem card_filter_of_added :
    (mixed.toFinset.filter fun span => span.fits text = false).card =
      (spans.toFinset.filter fun span => span.fits text = false).card +
        (added.toFinset \ spans.toFinset).card := by
  have hunion : mixed.toFinset.filter (fun span => span.fits text = false) =
      spans.toFinset.filter (fun span => span.fits text = false) ∪ (added.toFinset \ spans.toFinset) := by
    ext span
    simp only [Finset.mem_filter, Finset.mem_union, Finset.mem_sdiff, List.mem_toFinset, hmem]
    have := hbad span
    tauto
  have hdisjoint : Disjoint (spans.toFinset.filter fun span => span.fits text = false)
      (added.toFinset \ spans.toFinset) := by
    rw [Finset.disjoint_left]
    intro span hspan hnew
    exact (Finset.mem_sdiff.mp hnew).2 (Finset.mem_filter.mp hspan).1
  rw [hunion, Finset.card_union_of_disjoint hdisjoint]

end Added

/-- No pass over a text takes a bad slice, and passes over lists of the same spans have the same outcome. If spans
that do not fit are added to a list, in any places, then the pass yields the same text and removes as many spans,
and leaves so many more as there are different ones among those added that were not in the list. -/
theorem apply_follows_set (text : List Char) :
    (∀ spans, attempt text spans = .ok (apply text spans)) ∧
    (∀ spans others, (∀ span, span ∈ spans ↔ span ∈ others) → apply text spans = apply text others) ∧
    ∀ spans added mixed : List Span, mixed.Perm (spans ++ added) → (∀ span ∈ added, span.fits text = false) →
      (apply text mixed).output = (apply text spans).output ∧
      (apply text mixed).applied = (apply text spans).applied ∧
      (apply text mixed).skipped = (apply text spans).skipped + (added.toFinset \ spans.toFinset).card := by
  refine ⟨attempt_eq_apply text, fun spans others => apply_congr, fun spans added mixed hmixed hbad => ?_⟩
  have hmem : ∀ span, span ∈ mixed ↔ span ∈ spans ∨ span ∈ added := by
    intro span
    rw [hmixed.mem_iff, List.mem_append]
  have hfit : apply text (mixed.filter (·.fits text)) = apply text (spans.filter (·.fits text)) :=
    apply_congr (mem_filter_of_added hmem hbad)
  rw [apply_filter text mixed, apply_filter text spans, hfit, card_filter_of_added hmem hbad]
  exact ⟨rfl, rfl, (Nat.add_assoc _ _ _).symm⟩

/-- A span is given twice, and one that does not fit behind it. Of two more that do not fit one was given before. -/
theorem apply_follows_set_repeatedSpans :
    [Span.mk 0 9, ⟨2, 7⟩, ⟨4, 3⟩, ⟨2, 7⟩, ⟨4, 3⟩].Perm ([⟨2, 7⟩, ⟨2, 7⟩, ⟨4, 3⟩] ++ [⟨0, 9⟩, ⟨4, 3⟩]) ∧
    (∀ span ∈ [Span.mk 0 9, ⟨4, 3⟩], span.fits "it.only".toList = false) ∧
    apply "it.only".toList [⟨2, 7⟩, ⟨2, 7⟩, ⟨4, 3⟩] = ⟨"it".toList, 1, 1⟩ ∧
    (apply "it.only".toList [⟨0, 9⟩, ⟨2, 7⟩, ⟨4, 3⟩, ⟨2, 7⟩, ⟨4, 3⟩]).output = "it".toList ∧
    (apply "it.only".toList [⟨0, 9⟩, ⟨2, 7⟩, ⟨4, 3⟩, ⟨2, 7⟩, ⟨4, 3⟩]).applied = 1 ∧
    (apply "it.only".toList [⟨0, 9⟩, ⟨2, 7⟩, ⟨4, 3⟩, ⟨2, 7⟩, ⟨4, 3⟩]).skipped = 2 := by
  have hperm : [Span.mk 0 9, ⟨2, 7⟩, ⟨4, 3⟩, ⟨2, 7⟩, ⟨4, 3⟩].Perm
      ([⟨2, 7⟩, ⟨2, 7⟩, ⟨4, 3⟩] ++ [⟨0, 9⟩, ⟨4, 3⟩]) := by decide
  have hbad : ∀ span ∈ [Span.mk 0 9, ⟨4, 3⟩], span.fits "it.only".toList = false := by decide
  obtain ⟨-, hsame, hadded⟩ := apply_follows_set "it.only".toList
  have honce : apply "it.only".toList [⟨2, 7⟩, ⟨4, 3⟩] = ⟨"it".toList, 1, 1⟩ := by
    have hsorted : [Span.mk 2 7, ⟨4, 3⟩].Pairwise fun a b => a.le b = true := by decide
    rw [apply, attempt, distinct, List.mergeSort_of_pairwise hsorted]
    decide
  have htwice := (hsame [⟨2, 7⟩, ⟨2, 7⟩, ⟨4, 3⟩] [⟨2, 7⟩, ⟨4, 3⟩] (by simp)).trans honce
  obtain ⟨houtput, happlied, hskipped⟩ := hadded _ _ _ hperm hbad
  rw [htwice] at houtput happlied hskipped
  exact ⟨hperm, hbad, htwice, houtput, happlied, hskipped⟩

end Fix

end FocusLint
