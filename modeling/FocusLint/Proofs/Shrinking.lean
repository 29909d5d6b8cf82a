import FocusLint.Proofs.FixIteration
import FocusLint.Syntax.Program

/-!
Mending only deletes, and every span that is counted takes something with it.

Main statement: `mending_only_deletes`. What mending yields is the source without some of its characters, and
for each span that was removed at least as many bytes are gone as the shortest focus modifier has. So each pass
that removes something leaves a smaller text, and the passes would come to an end without a limit too.

A pass moves a cursor over its text. Its invariant (`Fix.Shrunk`) compares what was kept with what lies before the
cursor. The fix of a report is no narrower than the modifier it removes (`width_of_mem_fixesOf`).
-/

namespace FocusLint

open Syntax (Tree Dialect Reader)

/-! ## What lies before a position -/

namespace Text

theorem size_pos {text : List Char} (h : text ≠ []) : 0 < size text := by
  obtain ⟨c, rest, rfl⟩ := List.exists_cons_of_ne_nil h
  have := c.utf8Size_pos
  rw [size_cons]
  omega

theorem takeBytes_sublist (n : Nat) (text : List Char) : (takeBytes n text).Sublist text := by
  conv_rhs => rw [← takeBytes_append_dropBytes n text]
  exact List.sublist_append_left _ _

theorem takeBytes_sublist_of_le {m n : Nat} (h : m ≤ n) (text : List Char) :
    (takeBytes m text).Sublist (takeBytes n text) := by
  induction text generalizing m n with
  | nil => exact List.Sublist.refl _
  | cons c rest ih =>
    by_cases hc : c.utf8Size ≤ m
    · rw [takeBytes, takeBytes, if_pos hc, if_pos (Nat.le_trans hc h)]
      exact (ih (Nat.sub_le_sub_right h _)).cons_cons c
    · rw [takeBytes, if_neg hc]
      exact List.nil_sublist _

end Text

theorem Span.takeBytes_append_of_slice {span : Span} {text piece : List Char}
    (h : span.slice text = .ok piece) :
    Text.takeBytes span.start text ++ piece = Text.takeBytes span.stop text ∧
      span.start + Text.size piece = span.stop := by
  unfold Span.slice at h
  split at h
  case isFalse => cases h
  case isTrue hfits =>
    cases h
    obtain ⟨before, middle, behind, rfl, hstart, hstop⟩ := Span.fits_iff.mp hfits
    rw [hstart, hstop, Text.slice_append, Text.takeBytes_append, ← List.append_assoc, ← Text.size_append,
      Text.takeBytes_append]
    exact ⟨rfl, rfl⟩

/-! ## One pass -/

namespace Fix

/-- What a pass has kept up to its cursor, if each span that it takes is at least so wide. -/
structure Shrunk (text : List Char) (width : Nat) (progress : FixProgress) : Prop where
  sublist : progress.output.Sublist (Text.takeBytes progress.cursor text)
  size : Text.size progress.output + progress.applied * width ≤ progress.cursor

variable {text : List Char} {width : Nat} {progress next : FixProgress}

theorem shrunk_start (text : List Char) (width : Nat) : Shrunk text width start where
  sublist := List.nil_sublist _
  size := by simp [start]

theorem Shrunk.step {span : Span} (h : Shrunk text width progress)
    (hwide : span.fits text = true → span.start + width ≤ span.stop)
    (hstep : step text progress span = .ok next) : Shrunk text width next := by
  unfold Fix.step at hstep
  split at hstep
  case isTrue =>
    cases hstep
    exact ⟨h.sublist, h.size⟩
  case isFalse hcond =>
    cases hslice : Span.slice ⟨progress.cursor, span.start⟩ text with
    | error bad =>
      rw [hslice] at hstep
      cases hstep
    | ok kept =>
      rw [hslice] at hstep
      cases hstep
      have hfits : span.fits text = true := by simp_all
      have hstop := hwide hfits
      obtain ⟨hkept, hsize⟩ := Span.takeBytes_append_of_slice hslice
      refine ⟨?_, ?_⟩
      · have hupto : (progress.output ++ kept).Sublist (Text.takeBytes span.start text) :=
          hkept ▸ h.sublist.append (List.Sublist.refl kept)
        exact hupto.trans (Text.takeBytes_sublist_of_le (Nat.le_of_add_right_le hstop) text)
      · have hbefore := h.size
        have hstart : progress.cursor + Text.size kept = span.start := hsize
        rw [Text.size_append, Nat.add_mul, Nat.one_mul]
        show _ ≤ span.stop
        omega

theorem Shrunk.run {spans : List Span} (h : Shrunk text width progress)
    (hwide : ∀ span ∈ spans, span.fits text = true → span.start + width ≤ span.stop)
    (hrun : spans.foldlM (Fix.step text) progress = .ok next) : Shrunk text width next := by
  induction spans generalizing progress with
  | nil =>
    cases hrun
    exact h
  | cons span others ih =>
    obtain ⟨hspan, hothers⟩ := List.forall_mem_cons.mp hwide
    rw [List.foldlM_cons] at hrun
    cases hstep : Fix.step text progress span with
    | error bad =>
      rw [hstep] at hrun
      cases hrun
    | ok following =>
      rw [hstep] at hrun
      exact ih (h.step hspan hstep) hothers hrun

/-- What comes out of a pass is the text without some of its characters. If every span that fits is so wide, at
least so many bytes are gone for each span that was removed. -/
theorem apply_shrinks (width : Nat) {spans : List Span}
    (hwide : ∀ span ∈ spans, span.fits text = true → span.start + width ≤ span.stop) :
    (apply text spans).output.Sublist text ∧
      Text.size (apply text spans).output + (apply text spans).applied * width ≤ Text.size text := by
  obtain ⟨-, -, hattempt, -⟩ := apply_spec text spans
  generalize apply text spans = outcome at hattempt
  rw [attempt] at hattempt
  cases hrun : (distinct spans).foldlM (step text) start with
  | error bad =>
    rw [hrun] at hattempt
    cases hattempt
  | ok progress =>
    rw [hrun] at hattempt
    have h := (shrunk_start text width).run (fun span hspan => hwide span (mem_distinct.mp hspan)) hrun
    cases hslice : Span.slice ⟨progress.cursor, Text.size text⟩ text with
    | error bad =>
      simp [finish, hslice, bind, Except.bind] at hattempt
    | ok kept =>
      simp only [finish, hslice, bind, Except.bind, pure, Except.pure, Except.ok.injEq] at hattempt
      subst hattempt
      obtain ⟨hkept, hsize⟩ := Span.takeBytes_append_of_slice hslice
      have hbefore := h.size
      have hend : progress.cursor + Text.size kept = Text.size text := hsize
      refine ⟨?_, ?_⟩
      · have hall : (progress.output ++ kept).Sublist (Text.takeBytes (Text.size text) text) :=
          hkept ▸ h.sublist.append (List.Sublist.refl kept)
        exact hall.trans (Text.takeBytes_sublist _ text)
      · rw [Text.size_append]
        show _ + progress.applied * width ≤ _
        omega

theorem output_apply_sublist (text : List Char) (spans : List Span) : (apply text spans).output.Sublist text :=
  (apply_shrinks 0 fun _ _ hfits => Span.start_le_stop hfits).1

end Fix

/-! ## Any number of passes -/

section

variable {ε : Type} {lint : List Char → Except ε (List Report)} {n total width : Nat}
  {text output : List Char}

theorem Passes.le_total (h : Passes lint n text output total) : n ≤ total := by
  induction h with
  | none => exact Nat.le_refl 0
  | more _ removes _ ih => omega

theorem Passes.output_sublist (h : Passes lint n text output total) : output.Sublist text := by
  induction h with
  | none text => exact List.Sublist.refl text
  | more _ _ _ ih => exact ih.trans (Fix.output_apply_sublist _ _)

/-- If every fix that fits is so wide, at least so many bytes are gone for each span that was removed. -/
theorem Passes.shrinks
    (hwide : ∀ text reports, lint text = .ok reports → ∀ span ∈ fixesOf reports,
      span.fits text = true → span.start + width ≤ span.stop)
    (h : Passes lint n text output total) : Text.size output + total * width ≤ Text.size text := by
  induction h with
  | none text => simp
  | more linted _ _ ih =>
    have hpass := (Fix.apply_shrinks width (hwide _ _ linted)).2
    rw [Nat.add_mul]
    omega

theorem Passes.fixUpTo_eq (h : Passes lint n text output total) (settled : Settled lint output)
    {limit : Nat} (hlimit : n ≤ limit) (applied : Nat) :
    fixUpTo lint limit text applied = .ok (output, applied + total) := by
  induction h generalizing limit applied with
  | none text => exact fixUpTo_of_settled settled limit applied
  | more linted removes _ ih =>
    obtain ⟨rest, rfl⟩ : ∃ rest, limit = rest + 1 := ⟨limit - 1, by omega⟩
    rw [fixUpTo_of_removes linted removes, ih settled (by omega), Nat.add_assoc]

/-- If every text can be linted and no fix that fits is empty, the passes come to an end by themselves: the loop
ends with a settled text, the same one under any limit that is no smaller than the text. -/
theorem exists_settled (hlint : ∀ text, ∃ reports, lint text = .ok reports)
    (hwide : ∀ text reports, lint text = .ok reports → ∀ span ∈ fixesOf reports,
      span.fits text = true → span.start + 1 ≤ span.stop) (text : List Char) :
    ∃ ended total, Settled lint ended ∧
      ∀ limit, Text.size text ≤ limit → fixUpTo lint limit text 0 = .ok (ended, total) := by
  have hloop := fixUpTo_spec lint (Text.size text + 1) text 0
  split at hloop
  case h_2 fault _ =>
    obtain ⟨_, -, output, _, -, hfault⟩ := hloop
    obtain ⟨reports, hreports⟩ := hlint output
    rw [hreports] at hfault
    cases hfault
  case h_1 ended _ _ =>
    obtain ⟨n, -, total, hpasses, -, hsettled⟩ := hloop
    -- Each pass takes a byte at least, so that the limit is not reached.
    have hcount := hpasses.le_total
    have hsize := hpasses.shrinks hwide
    have hended := hsettled (by omega)
    refine ⟨ended, total, hended, fun limit hlimit => ?_⟩
    rw [hpasses.fixUpTo_eq hended (by omega), Nat.zero_add]

end

/-! ## The program's own rules -/

variable {source : List Char} {options : RuleOptions} {read : List Char → Tree}

/-- Linting with the program's own rules, where some reader yields the tree of a text. -/
def lintThrough (read : List Char → Tree) (options : RuleOptions) (source : List Char) :
    Except MissingNode (List Report) :=
  Linter.run (rulesOf options) (lower source (read source))

/-- The number of bytes of the shortest focus modifier. -/
def RuleOptions.shortestFocus (options : RuleOptions) : Nat :=
  ((options.focusNames.map fun name => Text.size name.toList).min?).getD 0

theorem RuleOptions.shortestFocus_le {name : String} (h : name ∈ options.focusNames) :
    options.shortestFocus ≤ Text.size name.toList := by
  have hmem : Text.size name.toList ∈ options.focusNames.map fun name => Text.size name.toList :=
    List.mem_map_of_mem h
  rw [shortestFocus, List.min?_eq_some_min (List.ne_nil_of_mem hmem), Option.getD_some]
  exact List.min_le_of_mem hmem

/-- A run of the rule on a lowered tree ends. Every report names a focus modifier and has the fix that removes it
with the byte before it. -/
theorem exists_run_fixes (source : List Char) {tree : Tree} (unique : tree.ids.Nodup) (options : RuleOptions) :
    ∃ reports, Linter.run (rulesOf options) (lower source tree) = .ok reports ∧
      ∀ report ∈ reports, report.fix = some (removalSpan report.span) ∧
        ∃ name ∈ options.focusNames, name.toList = report.span.cover source := by
  obtain ⟨reports, hrun, -, hblames⟩ := exists_run_blaming source unique options
  refine ⟨reports, hrun, fun report hreport => ?_⟩
  obtain ⟨place, receiver, -, -, hfocus, -, heq⟩ := hblames report hreport
  have hspan : report.span = place.node.span := congrArg Report.span heq
  rw [hspan]
  exact ⟨congrArg Report.fix heq, _, hfocus, String.toList_ofList⟩

theorem Span.size_cover {span : Span} (h : span.cover source ≠ []) :
    span.start + Text.size (span.cover source) = span.stop := by
  have hfits : span.fits source = true := by
    by_contra hbad
    exact h (if_neg hbad)
  have hslice : span.slice source = .ok (span.cover source) := by
    rw [slice, cover, if_pos hfits, if_pos hfits]
  exact (takeBytes_append_of_slice hslice).2

/-- If the empty name is no modifier, the fix of a report is as wide as the modifier at least. -/
theorem width_of_mem_fixesOf (unique : ∀ text, (read text).ids.Nodup) (named : "" ∉ options.focusNames)
    {reports : List Report} (hlint : lintThrough read options source = .ok reports) {fix : Span}
    (hfix : fix ∈ fixesOf reports) :
    ∃ name ∈ options.focusNames, fix.start + Text.size name.toList ≤ fix.stop := by
  obtain ⟨_, hrun, hreports⟩ := exists_run_fixes source (unique source) options
  rw [lintThrough, hrun] at hlint
  cases hlint
  obtain ⟨report, hreport, hsome⟩ := mem_fixesOf.mp hfix
  obtain ⟨hremoval, name, hname, hcover⟩ := hreports report hreport
  rw [hremoval, Option.some.injEq] at hsome
  subst hsome
  have hcovers : report.span.cover source ≠ [] := by
    rw [← hcover]
    exact fun hnil => named (String.toList_eq_nil_iff.mp hnil ▸ hname)
  have hwidth := Span.size_cover hcovers
  refine ⟨name, hname, ?_⟩
  rw [hcover]
  simp only [removalSpan]
  omega

/-- For any source, any options of which the empty name is no focus modifier, and any reader of trees without
repeated numbers, mending yields a text. It is the source without some of its characters, and the bytes that are
gone are at least as many as those of the shortest modifier, for every span that was removed. So the text is the
source exactly if nothing was removed, and no more spans are removed than the source has bytes. The passes end
without a limit too: under any limit that is no smaller than the source the loop ends with the same text, from which
nothing can be removed. -/
theorem mending_only_deletes (read : List Char → Tree) (unique : ∀ text, (read text).ids.Nodup)
    (options : RuleOptions) (named : "" ∉ options.focusNames) (source : List Char) :
    ∃ fixed, mend (lintThrough read options) source = .ok fixed ∧
      (∀ (reader : Reader) (dialect : Dialect), read = reader.tree dialect →
        lintAndFix reader (rulesOf options) dialect source = fixed) ∧
      fixed.output.Sublist source ∧
      Text.size fixed.output + fixed.fixesApplied * options.shortestFocus ≤ Text.size source ∧
      (fixed.output = source ↔ fixed.fixesApplied = 0) ∧
      fixed.fixesApplied ≤ Text.size source ∧
      ∃ ended total, Settled (lintThrough read options) ended ∧
        ∀ limit, Text.size source ≤ limit →
          fixUpTo (lintThrough read options) limit source 0 = .ok (ended, total) := by
  have hlint : ∀ text, ∃ reports, lintThrough read options text = .ok reports := fun text =>
    (exists_run_fixes text (unique text) options).imp fun _ h => h.1
  have hshortest : ∀ text reports, lintThrough read options text = .ok reports →
      ∀ span ∈ fixesOf reports, span.fits text = true →
        span.start + options.shortestFocus ≤ span.stop := by
    intro text reports hreports span hspan _
    obtain ⟨name, hname, hwidth⟩ := width_of_mem_fixesOf unique named hreports hspan
    exact Nat.le_trans (Nat.add_le_add_left (RuleOptions.shortestFocus_le hname) _) hwidth
  have hbyte : ∀ text reports, lintThrough read options text = .ok reports →
      ∀ span ∈ fixesOf reports, span.fits text = true → span.start + 1 ≤ span.stop := by
    intro text reports hreports span hspan _
    obtain ⟨name, hname, hwidth⟩ := width_of_mem_fixesOf unique named hreports hspan
    have hpos : 0 < Text.size name.toList := Text.size_pos fun hnil =>
      named (String.toList_eq_nil_iff.mp hnil ▸ hname)
    omega
  have hmend := mend_spec (lintThrough read options) source
  cases hfixed : mend (lintThrough read options) source with
  | error missing =>
    rw [hfixed] at hmend
    obtain ⟨_, -, text, _, -, hmissing⟩ := hmend
    obtain ⟨reports, hreports⟩ := hlint text
    rw [hreports] at hmissing
    cases hmissing
  | ok fixed =>
    rw [hfixed] at hmend
    obtain ⟨-, n, -, hpasses, -⟩ := hmend
    have hgone := hpasses.shrinks hshortest
    have hcount := hpasses.shrinks hbyte
    refine ⟨fixed, rfl, ?_, hpasses.output_sublist, hgone, ⟨fun hsame => ?_, fun hzero => ?_⟩, by omega,
      exists_settled hlint hbyte source⟩
    · rintro reader dialect rfl
      have htry : tryLintAndFix reader (rulesOf options) dialect source = .ok fixed := hfixed
      rw [lintAndFix, htry]
    · rw [hsame] at hcount
      omega
    · rw [hzero] at hpasses
      exact hpasses.eq_of_total_zero

/-- Mending a chain of two modifiers takes two passes, each of which removes five bytes. -/
theorem mending_only_deletes_chainedModifiers :
    (∀ text, (Syntax.grammarReader.tree .javaScript text).ids.Nodup) ∧ "" ∉ RuleOptions.unset.focusNames ∧
    ∃ fixed, mend (lintThrough (Syntax.grammarReader.tree .javaScript) .unset) "it.only.only()".toList = .ok fixed ∧
      lintAndFix Syntax.grammarReader (rulesOf .unset) .javaScript "it.only.only()".toList = fixed ∧
      fixed.output = "it()".toList ∧ fixed.fixesApplied = 2 ∧
      fixed.output.Sublist "it.only.only()".toList ∧ RuleOptions.unset.shortestFocus = 4 ∧
      Text.size fixed.output + 2 * 4 ≤ Text.size "it.only.only()".toList := by
  have unique := Syntax.grammarReader.unique .javaScript
  have named : "" ∉ RuleOptions.unset.focusNames := by decide
  obtain ⟨fixed, hfixed, hsame, hsublist, hgone, -⟩ :=
    mending_only_deletes (Syntax.grammarReader.tree .javaScript) unique .unset named "it.only.only()".toList
  refine ⟨unique, named, fixed, hfixed, hsame Syntax.grammarReader .javaScript rfl, ?_⟩
  have hfirst : lintThrough (Syntax.grammarReader.tree .javaScript) .unset "it.only.only()".toList =
      .ok [⟨"no-only-tests", 6, ⟨3, 7⟩, "it.only not permitted", some ⟨2, 7⟩⟩] := by
    rw [lintThrough, lower_eq _ (unique _)]
    decide +kernel
  have hsecond : lintThrough (Syntax.grammarReader.tree .javaScript) .unset "it.only()".toList =
      .ok [⟨"no-only-tests", 5, ⟨3, 7⟩, "it.only not permitted", some ⟨2, 7⟩⟩] := by
    rw [lintThrough, lower_eq _ (unique _)]
    decide +kernel
  have hlast : lintThrough (Syntax.grammarReader.tree .javaScript) .unset "it()".toList = .ok [] := by
    rw [lintThrough, lower_eq _ (unique _)]
    decide +kernel
  have hpass : Fix.apply "it.only.only()".toList [⟨2, 7⟩] = ⟨"it.only()".toList, 1, 0⟩ := by decide +kernel
  have hpass' : Fix.apply "it.only()".toList [⟨2, 7⟩] = ⟨"it()".toList, 1, 0⟩ := by decide +kernel
  have hloop := fixUpTo_of_removes hfirst (by decide +kernel) 9 0
  have hloop' := fixUpTo_of_removes hsecond (by decide +kernel) 8 1
  simp only [fixesOf, List.filterMap_cons, List.filterMap_nil, hpass, hpass'] at hloop hloop'
  have hend := fixUpTo_of_settled ⟨[], hlast, fun _ hspan => absurd hspan List.not_mem_nil⟩ 8 2
  have hmend : mend (lintThrough (Syntax.grammarReader.tree .javaScript) .unset) "it.only.only()".toList =
      .ok ⟨"it()".toList, 2, []⟩ := by
    simp only [mend, maxFixPasses, hloop, hloop', hend, hlast, bind, Except.bind, pure, Except.pure]
  rw [hmend] at hfixed
  cases hfixed
  exact ⟨rfl, rfl, hsublist, rfl, hgone⟩

end FocusLint
