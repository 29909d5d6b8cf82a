import FocusLint.Lint
import FocusLint.Proofs.FixPass
import FocusLint.Proofs.WellLinked

/-!
Mending is a bounded iteration of fix passes.

Main statement: `lintAndFix_iterates`. The text that mending yields is the source after at most
`maxFixPasses` passes, each of which removed something; the count is that of all spans removed, and what
remains is what the text itself is reported for. Below the limit nothing that remains can be removed,
and mending the text again changes nothing. Mending fails only where linting one of these texts does,
which the program's own rules never do (`tryLintAndFix_rulesOf`).

`Passes` is the iteration as a relation, which does not mention the loop or its limit.
-/

namespace FocusLint

open Syntax (Dialect Reader)

variable {ε : Type} {lint : List Char → Except ε (List Report)}

/-- So many passes over a text, each of which removes something, with the text they yield and the number
of spans that they remove in all. -/
inductive Passes (lint : List Char → Except ε (List Report)) : Nat → List Char → List Char → Nat → Prop
  | none (text : List Char) : Passes lint 0 text text 0
  | more {n total : Nat} {text output : List Char} {reports : List Report}
      (linted : lint text = .ok reports)
      (removes : 0 < (Fix.apply text (fixesOf reports)).applied)
      (others : Passes lint n (Fix.apply text (fixesOf reports)).output output total) :
      Passes lint (n + 1) text output ((Fix.apply text (fixesOf reports)).applied + total)

/-- Nothing that a text is reported for can be removed from it. -/
def Settled (lint : List Char → Except ε (List Report)) (text : List Char) : Prop :=
  ∃ reports, lint text = .ok reports ∧ ∀ span ∈ fixesOf reports, span.fits text = false

theorem mem_fixesOf {reports : List Report} {span : Span} :
    span ∈ fixesOf reports ↔ ∃ report ∈ reports, report.fix = some span := by
  simp [fixesOf]

theorem Passes.eq_of_total_zero {n : Nat} {text output : List Char}
    (h : Passes lint n text output 0) : output = text := by
  generalize htotal : 0 = total at h
  cases h with
  | none => rfl
  | more _ removes _ => omega

/-! ## The loop -/

theorem settled_of_applied_zero {text : List Char} {reports : List Report}
    (hlint : lint text = .ok reports) (hzero : (Fix.apply text (fixesOf reports)).applied = 0) :
    Settled lint text := by
  refine ⟨reports, hlint, fun span hspan => ?_⟩
  by_contra hfits
  have hpos := (Fix.applied_pos_iff text (fixesOf reports)).mpr
    ⟨span, hspan, by simpa using hfits⟩
  omega

theorem fixUpTo_of_settled {text : List Char} (h : Settled lint text) (passes applied : Nat) :
    fixUpTo lint passes text applied = .ok (text, applied) := by
  obtain ⟨reports, hlint, hnone⟩ := h
  cases passes with
  | zero => rfl
  | succ passes =>
    have hzero : (Fix.apply text (fixesOf reports)).applied = 0 := by
      by_contra hne
      obtain ⟨span, hspan, hfits⟩ :=
        (Fix.applied_pos_iff text (fixesOf reports)).mp (Nat.pos_of_ne_zero hne)
      rw [hnone span hspan] at hfits
      cases hfits
    simp [fixUpTo, hlint, hzero, bind, Except.bind, pure, Except.pure]

theorem fixUpTo_of_removes {text : List Char} {reports : List Report} (hlint : lint text = .ok reports)
    (removes : 0 < (Fix.apply text (fixesOf reports)).applied) (passes applied : Nat) :
    fixUpTo lint (passes + 1) text applied =
      fixUpTo lint passes (Fix.apply text (fixesOf reports)).output
        (applied + (Fix.apply text (fixesOf reports)).applied) := by
  -- Something was removed, so the loop did not stop for want of fixes either.
  have hsome : (fixesOf reports).isEmpty = false := by
    obtain ⟨span, hspan, -⟩ := (Fix.applied_pos_iff text (fixesOf reports)).mp removes
    exact List.isEmpty_eq_false_iff_exists_mem.mpr ⟨span, hspan⟩
  have hne := Nat.ne_of_gt removes
  simp [fixUpTo, hlint, hne, hsome, bind, Except.bind]

/-- The loop makes passes until its limit is reached, the text is settled or linting fails. -/
theorem fixUpTo_spec (lint : List Char → Except ε (List Report)) (passes : Nat) (text : List Char)
    (applied : Nat) :
    match fixUpTo lint passes text applied with
    | .ok (output, total) => ∃ n ≤ passes, ∃ removed, Passes lint n text output removed ∧
        total = applied + removed ∧ (n < passes → Settled lint output)
    | .error fault => ∃ n ≤ passes, ∃ output removed, Passes lint n text output removed ∧
        lint output = .error fault := by
  -- On the passes that are left; those made before only count into `applied`.
  induction passes generalizing text applied with
  | zero => exact ⟨0, Nat.le_refl 0, 0, .none text, rfl, fun h => absurd h (Nat.lt_irrefl 0)⟩
  | succ passes ih =>
    cases hlint : lint text with
    | error fault =>
      simp only [fixUpTo, hlint, bind, Except.bind]
      exact ⟨0, Nat.zero_le _, text, 0, .none text, hlint⟩
    | ok reports =>
      by_cases hzero : (Fix.apply text (fixesOf reports)).applied = 0
      · have hsettled := settled_of_applied_zero hlint hzero
        rw [fixUpTo_of_settled hsettled]
        exact ⟨0, Nat.zero_le _, 0, .none text, rfl, fun _ => hsettled⟩
      · have hpos := Nat.pos_of_ne_zero hzero
        have hrest := ih (Fix.apply text (fixesOf reports)).output
          (applied + (Fix.apply text (fixesOf reports)).applied)
        rw [fixUpTo_of_removes hlint hpos]
        split at hrest
        · obtain ⟨n, hn, removed, hpasses, htotal, hsettled⟩ := hrest
          exact ⟨n + 1, by omega, _, .more hlint hpos hpasses, by omega, fun h => hsettled (by omega)⟩
        · obtain ⟨n, hn, output, removed, hpasses, hfault⟩ := hrest
          exact ⟨n + 1, by omega, output, _, .more hlint hpos hpasses, hfault⟩

/-! ## Mending -/

theorem mend_of_settled {text : List Char} {reports : List Report} (hlint : lint text = .ok reports)
    (hnone : ∀ span ∈ fixesOf reports, span.fits text = false) :
    mend lint text = .ok ⟨text, 0, reports⟩ := by
  have hloop := fixUpTo_of_settled ⟨reports, hlint, hnone⟩ maxFixPasses 0
  simp [mend, hloop, hlint, bind, Except.bind, pure, Except.pure]

/-- Mending yields the text after some passes with what it is reported for; below the limit that text is
settled. -/
theorem mend_spec (lint : List Char → Except ε (List Report)) (source : List Char) :
    match mend lint source with
    | .ok fixed => lint fixed.output = .ok fixed.remaining ∧
        ∃ n ≤ maxFixPasses, Passes lint n source fixed.output fixed.fixesApplied ∧
          (n < maxFixPasses → ∀ span ∈ fixesOf fixed.remaining, span.fits fixed.output = false)
    | .error fault => ∃ n ≤ maxFixPasses, ∃ text total, Passes lint n source text total ∧
        lint text = .error fault := by
  have hloop := fixUpTo_spec lint maxFixPasses source 0
  cases hresult : fixUpTo lint maxFixPasses source 0 with
  | error fault =>
    rw [hresult] at hloop
    simpa only [mend, hresult, bind, Except.bind] using hloop
  | ok result =>
    obtain ⟨output, total⟩ := result
    rw [hresult] at hloop
    obtain ⟨n, hn, removed, hpasses, htotal, hsettled⟩ := hloop
    rw [Nat.zero_add] at htotal
    subst htotal
    cases hlint : lint output with
    | error fault =>
      have hmend : mend lint source = .error fault := by
        simp [mend, hresult, hlint, bind, Except.bind]
      rw [hmend]
      exact ⟨n, hn, output, total, hpasses, hlint⟩
    | ok reports =>
      have hmend : mend lint source = .ok ⟨output, total, reports⟩ := by
        simp [mend, hresult, hlint, bind, Except.bind, pure, Except.pure]
      rw [hmend]
      refine ⟨hlint, n, hn, hpasses, fun hlt => ?_⟩
      obtain ⟨reports', hlint', hnone⟩ := hsettled hlt
      rw [hlint] at hlint'
      cases hlint'
      exact hnone

/-- With the program's own rules mending always yields a text. -/
theorem tryLintAndFix_rulesOf (reader : Reader) (options : RuleOptions) (dialect : Dialect) (source : List Char) :
    ∃ fixed, tryLintAndFix reader (rulesOf options) dialect source = .ok fixed := by
  have hmend := mend_spec (tryLint reader (rulesOf options) dialect) source
  cases hfixed : tryLintAndFix reader (rulesOf options) dialect source with
  | ok fixed => exact ⟨fixed, rfl⟩
  | error missing =>
    rw [tryLintAndFix] at hfixed
    rw [hfixed] at hmend
    obtain ⟨_, -, text, _, -, hmissing⟩ := hmend
    obtain ⟨reports, hlint⟩ := tryLint_rulesOf reader options dialect text
    rw [hlint] at hmissing
    cases hmissing

/-- What remains after mending with the program's own rules is what the output is reported for. -/
theorem lintSource_output (reader : Reader) (options : RuleOptions) (dialect : Dialect) (source : List Char) :
    lintSource reader (rulesOf options) dialect (lintAndFix reader (rulesOf options) dialect source).output =
      (lintAndFix reader (rulesOf options) dialect source).remaining := by
  obtain ⟨fixed, hfixed⟩ := tryLintAndFix_rulesOf reader options dialect source
  have hmend := mend_spec (tryLint reader (rulesOf options) dialect) source
  rw [← tryLintAndFix, hfixed] at hmend
  simp only [lintAndFix, lintSource, hfixed, hmend.1]

theorem output_of_fixesApplied_zero {reader : Reader} {rules : List Rule} {dialect : Dialect} {source : List Char}
    (h : (lintAndFix reader rules dialect source).fixesApplied = 0) :
    (lintAndFix reader rules dialect source).output = source := by
  have hmend := mend_spec (tryLint reader rules dialect) source
  unfold lintAndFix at h ⊢
  cases hfixed : tryLintAndFix reader rules dialect source with
  | error _ => rfl
  | ok fixed =>
    rw [← tryLintAndFix, hfixed] at hmend
    rw [hfixed] at h
    obtain ⟨-, n, -, hpasses, -⟩ := hmend
    have hzero : fixed.fixesApplied = 0 := h
    rw [hzero] at hpasses
    exact hpasses.eq_of_total_zero

theorem Passes.total_pos {n total : Nat} {text output : List Char} (h : Passes lint n text output total)
    (hn : n ≠ 0) : 0 < total := by
  cases h with
  | none _ => exact absurd rfl hn
  | more _ removes _ => exact Nat.lt_of_lt_of_le removes (Nat.le_add_right _ _)

/-- Something is removed from a source exactly if one of its reports has a fix that fits it. -/
theorem fixesApplied_pos_iff {reader : Reader} {options : RuleOptions} {dialect : Dialect} {source : List Char} :
    0 < (lintAndFix reader (rulesOf options) dialect source).fixesApplied ↔
      ∃ span ∈ fixesOf (lintSource reader (rulesOf options) dialect source), span.fits source = true := by
  obtain ⟨fixed, hfixed⟩ := tryLintAndFix_rulesOf reader options dialect source
  obtain ⟨reports, hlint⟩ := tryLint_rulesOf reader options dialect source
  have hmend := mend_spec (tryLint reader (rulesOf options) dialect) source
  rw [← tryLintAndFix, hfixed] at hmend
  obtain ⟨hremaining, n, hn, hpasses, hsettled⟩ := hmend
  simp only [lintAndFix, hfixed, lintSource, hlint]
  constructor
  · intro hpos
    rw [← Fix.applied_pos_iff]
    generalize fixed.fixesApplied = total at hpasses hpos
    cases hpasses with
    | none _ => exact absurd hpos (Nat.lt_irrefl 0)
    | more linted removes _ =>
      rw [hlint, Except.ok.injEq] at linted
      rwa [linted]
  · rintro ⟨span, hspan, hfits⟩
    by_contra hzero
    -- Without a pass the source is what mending yields, and nothing is left to remove.
    have hnone : n = 0 := by
      by_contra hne
      exact hzero (hpasses.total_pos hne)
    have hsource : fixed.output = source := by
      rw [Nat.eq_zero_of_not_pos hzero] at hpasses
      exact hpasses.eq_of_total_zero
    rw [hsource, hlint, Except.ok.injEq] at hremaining
    rw [hsource, ← hremaining] at hsettled
    rw [hsettled (by rw [hnone]; decide) span hspan] at hfits
    cases hfits

/-- Lints and mends any source with any rules by at most `maxFixPasses` passes, each of which removes
something. What remains is what the output is reported for; below the limit none of it can be removed and
a second mending changes nothing. There is no output only if a text on the way cannot be linted, and with
the program's own rules there always is one. -/
theorem lintAndFix_iterates (reader : Reader) (rules : List Rule) (dialect : Dialect) (source : List Char) :
    (∀ options, ∃ fixed, tryLintAndFix reader (rulesOf options) dialect source = .ok fixed) ∧
    match tryLintAndFix reader rules dialect source with
    | .ok fixed =>
        lintAndFix reader rules dialect source = fixed ∧
        tryLint reader rules dialect fixed.output = .ok fixed.remaining ∧
        (∃ n ≤ maxFixPasses,
          Passes (tryLint reader rules dialect) n source fixed.output fixed.fixesApplied ∧
          (n < maxFixPasses →
            (∀ report ∈ fixed.remaining, ∀ span, report.fix = some span →
              span.fits fixed.output = false) ∧
            tryLintAndFix reader rules dialect fixed.output = .ok ⟨fixed.output, 0, fixed.remaining⟩)) ∧
        (fixed.fixesApplied = 0 →
          fixed.output = source ∧ tryLint reader rules dialect source = .ok fixed.remaining)
    | .error missing => ∃ n ≤ maxFixPasses, ∃ text total,
        Passes (tryLint reader rules dialect) n source text total ∧
        tryLint reader rules dialect text = .error missing := by
  refine ⟨fun options => tryLintAndFix_rulesOf reader options dialect source, ?_⟩
  have hmend := mend_spec (tryLint reader rules dialect) source
  cases hfixed : tryLintAndFix reader rules dialect source with
  | error missing =>
    rw [tryLintAndFix] at hfixed
    rw [hfixed] at hmend
    exact hmend
  | ok fixed =>
    have hsame : lintAndFix reader rules dialect source = fixed := by simp [lintAndFix, hfixed]
    rw [tryLintAndFix] at hfixed
    rw [hfixed] at hmend
    obtain ⟨hlint, n, hn, hpasses, hnone⟩ := hmend
    refine ⟨hsame, hlint, ⟨n, hn, hpasses, fun hlt => ⟨?_, ?_⟩⟩, ?_⟩
    · intro report hreport span hspan
      exact hnone hlt span (mem_fixesOf.mpr ⟨report, hreport, hspan⟩)
    · exact mend_of_settled hlint (hnone hlt)
    · intro hzero
      rw [hzero] at hpasses
      have hsource := hpasses.eq_of_total_zero
      exact ⟨hsource, hsource ▸ hlint⟩

end FocusLint
