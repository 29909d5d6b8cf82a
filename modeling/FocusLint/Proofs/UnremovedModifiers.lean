import FocusLint.Proofs.FocusRemoval
import FocusLint.Proofs.RunEffects
import FocusLint.Proofs.Shrinking
import FocusLint.Report.Text
import FocusLint.Syntax.Program

/-!
What mending leaves behind, and what is promised about it.

Main statement: `only_wide_characters_stop_removal`. Every report has a fix, so every diagnostic is called fixable,
and a summary promises as many removals as it has diagnostics. When mending has stopped below its limit this
promise is kept for none of them: what remains is what cannot be removed, and that is a modifier right behind a
character of more than one byte (`spaced_modifier_is_promised`). From a source without such characters everything
is removed.

Passes keep characters of their text only (`Passes.output_subset`), so that no wide character turns up while a
source is mended.
-/

namespace FocusLint

open Syntax (Dialect Reader)

/-! ## Characters that are kept -/

theorem Passes.output_subset {ε : Type} {lint : List Char → Except ε (List Report)} {n total : Nat}
    {text output : List Char} (h : Passes lint n text output total) : output ⊆ text :=
  h.output_sublist.subset

theorem Text.wideBefore_eq_false {text : List Char} (narrow : ∀ c ∈ text, c.utf8Size = 1) (position : Nat) :
    wideBefore text position = false := by
  rw [wideBefore, Option.any_eq_false]
  intro c hc
  have hsize := narrow c ((takeBytes_sublist position text).subset (List.mem_of_getLast? hc))
  simp [hsize]

/-! ## What is promised -/

variable {reader : Reader} {options : RuleOptions} {dialect : Dialect} {source : List Char}

/-- Every report names a focus modifier and has the fix that removes it with the byte before it. -/
theorem fix_of_mem_lintSource {report : Report}
    (hreport : report ∈ lintSource reader (rulesOf options) dialect source) :
    report.fix = some (removalSpan report.span) ∧
      ∃ name ∈ options.focusNames, name.toList = report.span.cover source := by
  obtain ⟨reports, hrun, hreports⟩ :=
    exists_run_fixes source (reader.unique dialect source) options
  have hlint : lintSource reader (rulesOf options) dialect source = reports := by rw [lintSource, tryLint, hrun]
  exact hreports report (hlint ▸ hreport)

theorem fixable_of_mem_diagnosticsOf {diagnostic : Diagnostic}
    (h : diagnostic ∈ diagnosticsOf source (lintSource reader (rulesOf options) dialect source)) :
    diagnostic.fixable = true := by
  obtain ⟨report, hreport, rfl⟩ := List.mem_map.mp h
  rw [Diagnostic.ofReport, (fix_of_mem_lintSource hreport).1, Option.isSome_some]

theorem Settings.fixable_of_lintFile {settings : Settings} {mend : Bool} {store : Store} {path : Path}
    {diagnostic : Diagnostic} (h : diagnostic ∈ (settings.lintFile reader mend store path).1.diagnostics) :
    diagnostic.fixable = true := by
  cases mend with
  | true =>
    have hmends := settings.mends_lintFile reader store path
    generalize (settings.lintFile reader true store path).1 = result,
      (settings.lintFile reader true store path).2 = next at hmends h
    cases hmends with
    | unread _ => cases h
    | unwritten _ => cases h
    | kept _ mended _ | rewritten _ mended _ _ _ _ _ _ =>
      subst mended
      rw [linted, ← lintSource_output] at h
      exact fixable_of_mem_diagnosticsOf h
  | false =>
    cases hsource : store.readSource path with
    | error fault =>
      rw [lintFile_of_fault hsource] at h
      cases h
    | ok read =>
      rw [lintFile_false hsource] at h
      exact fixable_of_mem_diagnosticsOf h

theorem Settings.fixable_of_lintFiles {settings : Settings} {mend : Bool} {store : Store} {paths : List Path}
    {result : FileResult} (hresult : result ∈ (settings.lintFiles reader mend store paths).1) :
    ∀ diagnostic ∈ result.diagnostics, diagnostic.fixable = true := by
  induction paths generalizing store with
  | nil => cases hresult
  | cons path others ih =>
    simp only [lintFiles, List.mem_cons] at hresult
    rcases hresult with rfl | hresult
    · exact fun _ => fixable_of_lintFile
    · exact ih hresult

theorem Report.totalOf_congr {results : List FileResult} {f g : FileResult → Nat}
    (h : ∀ result ∈ results, f result = g result) : totalOf f results = totalOf g results := by
  induction results with
  | nil => rfl
  | cons result others ih =>
    obtain ⟨hresult, hothers⟩ := List.forall_mem_cons.mp h
    rw [totalOf, List.foldr_cons, ← totalOf, hresult, ih hothers]
    rfl

/-- The summary of a run promises as many removals as the run has diagnostics. -/
theorem Settings.fixable_totals_run (settings : Settings) (reader : Reader) (mend : Bool) (store : Store)
    (targets : List Path) :
    (Report.totals (settings.run reader mend store targets).1).fixable =
      (Report.totals (settings.run reader mend store targets).1).diagnostics :=
  Report.totalOf_congr fun _ hresult => List.countP_eq_length.mpr (fixable_of_lintFiles hresult)

/-! ## What remains -/

/-- A reported modifier whose fix does not fit stands behind a wide character, unless it is the empty name. -/
theorem wideBefore_of_not_fits {report : Report}
    (hreport : report ∈ lintSource reader (rulesOf options) dialect source)
    (hnot : (removalSpan report.span).fits source = false) :
    ∃ name ∈ options.focusNames, name.toList = report.span.cover source ∧
      (name ≠ "" → Text.wideBefore source report.span.start = true) := by
  obtain ⟨-, name, hfocus, hname⟩ := fix_of_mem_lintSource hreport
  refine ⟨name, hfocus, hname, fun hne => ?_⟩
  -- Only a span that fits covers a name that is not empty.
  have hfits : report.span.fits source = true := by
    by_contra hbad
    rw [Span.cover, if_neg hbad] at hname
    exact hne (String.toList_eq_nil_iff.mp hname)
  rwa [fits_removalSpan hfits, Bool.not_eq_false'] at hnot

/-- For any reader, options, dialect and source: every diagnostic of a run is called fixable and counted so in the
summary, whether the run mends or not. Mending makes at most `maxFixPasses` passes. If it stops below this
limit, the fix of each modifier that remains does not fit, and, unless the modifier is the empty name, this is
because the character before it takes more than one byte. So nothing remains of a source that has no such
character. -/
theorem only_wide_characters_stop_removal (reader : Reader) (options : RuleOptions) (dialect : Dialect)
    (source : List Char) :
    let fixed := lintAndFix reader (rulesOf options) dialect source
    (∀ diagnostic ∈ diagnosticsOf fixed.output fixed.remaining, diagnostic.fixable = true) ∧
    (∀ (settings : Settings) (mend : Bool) (store : Store) (targets : List Path),
      (Report.totals (settings.run reader mend store targets).1).fixable =
        (Report.totals (settings.run reader mend store targets).1).diagnostics) ∧
    ∃ n ≤ maxFixPasses,
      Passes (tryLint reader (rulesOf options) dialect) n source fixed.output fixed.fixesApplied ∧
      (n < maxFixPasses →
        (∀ report ∈ fixed.remaining, report.fix = some (removalSpan report.span) ∧
          (removalSpan report.span).fits fixed.output = false ∧
          ∃ name ∈ options.focusNames, name.toList = report.span.cover fixed.output ∧
            (name ≠ "" → Text.wideBefore fixed.output report.span.start = true)) ∧
        ("" ∉ options.focusNames → (∀ c ∈ source, c.utf8Size = 1) → fixed.remaining = [])) := by
  intro fixed
  have hremaining : lintSource reader (rulesOf options) dialect fixed.output = fixed.remaining :=
    lintSource_output reader options dialect source
  obtain ⟨mended, hmended⟩ := tryLintAndFix_rulesOf reader options dialect source
  have hfixed : fixed = mended := by simp only [fixed, lintAndFix, hmended]
  have hmend := mend_spec (tryLint reader (rulesOf options) dialect) source
  rw [← tryLintAndFix, hmended, ← hfixed] at hmend
  obtain ⟨-, n, hn, hpasses, hstopped⟩ := hmend
  refine ⟨?_, fun settings => settings.fixable_totals_run reader, n, hn, hpasses, fun hlt => ?_⟩
  · rw [← hremaining]
    exact fun _ => fixable_of_mem_diagnosticsOf
  have hleft : ∀ report ∈ fixed.remaining, report.fix = some (removalSpan report.span) ∧
      (removalSpan report.span).fits fixed.output = false ∧
      ∃ name ∈ options.focusNames, name.toList = report.span.cover fixed.output ∧
        (name ≠ "" → Text.wideBefore fixed.output report.span.start = true) := by
    intro report hreport
    have hlint := hremaining.symm ▸ hreport
    have hfix := (fix_of_mem_lintSource hlint).1
    have hnot := hstopped hlt _ (mem_fixesOf.mpr ⟨report, hreport, hfix⟩)
    exact ⟨hfix, hnot, wideBefore_of_not_fits hlint hnot⟩
  refine ⟨hleft, fun hnamed hnarrow => List.eq_nil_iff_forall_not_mem.mpr fun report hreport => ?_⟩
  obtain ⟨-, -, name, hfocus, -, hwide⟩ := hleft report hreport
  have hoff := Text.wideBefore_eq_false (fun c hc => hnarrow c (hpasses.output_subset hc)) report.span.start
  rw [hwide (ne_of_mem_of_not_mem hfocus hnamed)] at hoff
  cases hoff

/-- A source without syntax errors in which a modifier stands behind a no-break space. Mending it changes
nothing and still calls the modifier fixable. -/
theorem spaced_modifier_is_promised :
    let source := "it.\u00a0only()".toList
    let fixed := lintAndFix Syntax.grammarReader (rulesOf .unset) .javaScript source
    (∀ place ∈ (Syntax.grammarReader.tree .javaScript source).places, place.node.kind ≠ "ERROR") ∧
    fixed.output = source ∧ fixed.fixesApplied = 0 ∧
    diagnosticsOf fixed.output fixed.remaining =
      [⟨1, 5, 1, 9, "no-only-tests", "it.only not permitted", true⟩] := by
  intro source fixed
  have hlint : tryLint Syntax.grammarReader (rulesOf .unset) .javaScript source =
      .ok [⟨"no-only-tests", 5, ⟨5, 9⟩, "it.only not permitted", some ⟨4, 9⟩⟩] := by
    rw [tryLint, lower_eq _ (Syntax.grammarReader.unique _ _)]
    decide +kernel
  have hmend : tryLintAndFix Syntax.grammarReader (rulesOf .unset) .javaScript source = _ :=
    mend_of_settled hlint (by decide)
  refine ⟨by decide +kernel, ?_⟩
  simp only [fixed, lintAndFix, hmend, true_and]
  decide

end FocusLint
