import FocusLint.Proofs.FixPass
import FocusLint.Proofs.WellLinked

/-!
One fix pass removes every focus modifier that is reported, except those behind a wide character.

Main statement: `pass_removes_reported`. Where the names of a tree lie apart from each other in the source,
the pass over all fixes of a run removes the modifiers whose fix fits, each with the byte before it, and
keeps every other byte. A fix does not fit exactly if the character before the modifier takes more than
one byte, for then it would cut that character. Nesting and chaining of accesses do not matter.

The fix of a name reaches one byte beyond it, and between two names there is a byte, so fixes never overlap
(`apart_removalSpan`). A pass over spans that are apart takes all that fit (`Fix.apply_of_apart`).
-/

namespace FocusLint

open Syntax (Tree Field)

variable {source : List Char} {tree : Tree} {options : RuleOptions} {reports : List Report}

/-- The names of a tree lie apart in a text: each takes some bytes of it, and between two of them there is
at least one more. -/
structure Syntax.Tree.NamesApart (source : List Char) (tree : Tree) : Prop where
  fits : ∀ place ∈ tree.places, place.node.kind ∈ identifierKinds →
    place.node.span.fits source = true
  nonempty : ∀ place ∈ tree.places, place.node.kind ∈ identifierKinds →
    place.node.span.start < place.node.span.stop
  apart : ∀ first ∈ tree.places, ∀ second ∈ tree.places, first.node.kind ∈ identifierKinds →
    second.node.kind ∈ identifierKinds → first.node.id ≠ second.node.id →
      first.node.span.stop < second.node.span.start ∨ second.node.span.stop < first.node.span.start

/-! ## One fix -/

/-- The fix of a name fits unless the character before the name takes more than one byte. -/
theorem fits_removalSpan {span : Span} (hfits : span.fits source = true) :
    (removalSpan span).fits source = !Text.wideBefore source span.start := by
  have hstart := Span.isBoundary_start hfits
  have hstop := Span.isBoundary_stop hfits
  have hle := Span.start_le_stop hfits
  rw [← Text.isBoundary_pred hstart]
  cases hpred : Text.isBoundary source (span.start - 1) with
  | true => exact Span.fits_of_boundaries (by omega) hpred hstop
  | false => simp [Span.fits, removalSpan, hpred]

/-! ## All fixes of a run -/

/-- A run of the rule on a lowered tree ends. Its reports are in document order, each at another name of the
tree, which its fix removes. -/
theorem exists_run_removing (source : List Char) (unique : tree.ids.Nodup) (options : RuleOptions) :
    ∃ reports, Linter.run [focusRule options] (lower source tree) = .ok reports ∧
      (reports.Pairwise fun first second => first.node < second.node) ∧
      ∀ report ∈ reports, report.fix = some (removalSpan report.span) ∧
        ∃ place, tree.visited[report.node]? = some place ∧ place.node.kind ∈ identifierKinds ∧
          report.span = place.node.span := by
  obtain ⟨reports, hrun, hordered, hblames⟩ := exists_run_blaming source unique options
  refine ⟨reports, hrun, hordered, fun report hreport => ?_⟩
  obtain ⟨place, receiver, hget, hkind, -, -, heq⟩ := hblames report hreport
  have hspan : report.span = place.node.span := congrArg Report.span heq
  refine ⟨?_, place, hget, hkind, hspan⟩
  rw [hspan]
  exact congrArg Report.fix heq

theorem pairwise_reports (unique : tree.ids.Nodup) (namesApart : tree.NamesApart source)
    (hordered : reports.Pairwise fun first second => first.node < second.node)
    (hplace : ∀ report ∈ reports, ∃ place, tree.visited[report.node]? = some place ∧
      place.node.kind ∈ identifierKinds ∧ report.span = place.node.span) :
    reports.Pairwise fun first second =>
      first.span.stop < second.span.start ∨ second.span.stop < first.span.start := by
  refine hordered.imp_of_mem fun {first second} hfirst hsecond hlt => ?_
  obtain ⟨place, hget, hkind, hspan⟩ := hplace first hfirst
  obtain ⟨other, hgetOther, hkindOther, hspanOther⟩ := hplace second hsecond
  have hne : place.node.id ≠ other.node.id := by
    intro heq
    have hnumber := Tree.number?_of_getElem? unique hget
    rw [heq, Tree.number?_of_getElem? unique hgetOther, Option.some.injEq] at hnumber
    exact Nat.ne_of_gt hlt hnumber
  rw [hspan, hspanOther]
  exact namesApart.apart place (Tree.mem_visited.mp (List.mem_of_getElem? hget)).1
    other (Tree.mem_visited.mp (List.mem_of_getElem? hgetOther)).1 hkind hkindOther hne

/-- The fixes of names that lie apart do not overlap, though each reaches one byte to the left. -/
theorem apart_removalSpan {spans : List Span} (nonempty : ∀ span ∈ spans, span.start < span.stop)
    (apart : spans.Pairwise fun a b => a.stop < b.start ∨ b.stop < a.start) :
    Fix.Apart (spans.map removalSpan) where
  nonempty := by
    intro fix hfix
    obtain ⟨span, hspan, rfl⟩ := List.mem_map.mp hfix
    have := nonempty span hspan
    simp only [removalSpan]
    omega
  clear := by
    rw [List.pairwise_map]
    refine apart.imp fun hclear => ?_
    simp only [removalSpan]
    omega

theorem fixesOf_eq_map (h : ∀ report ∈ reports, report.fix = some (removalSpan report.span)) :
    fixesOf reports = (reports.map Report.span).map removalSpan := by
  rw [fixesOf, List.filterMap_congr h, List.map_map, ← List.filterMap_eq_map]
  rfl

/-- A pass over the fixes of names that lie apart takes those that no wide character stands before. -/
theorem pass_removes_apart {spans : List Span} (fits : ∀ span ∈ spans, span.fits source = true)
    (nonempty : ∀ span ∈ spans, span.start < span.stop)
    (apart : spans.Pairwise fun a b => a.stop < b.start ∨ b.stop < a.start) :
    let taken := spans.filter fun span => !Text.wideBefore source span.start
    let outcome := Fix.apply source (spans.map removalSpan)
    (∃ accepted, Fix.Accepted source (Fix.distinct (spans.map removalSpan)) accepted ∧
      ∀ span ∈ spans, removalSpan span ∈ accepted ↔ Text.wideBefore source span.start = false) ∧
    Fix.attempt source (spans.map removalSpan) = .ok outcome ∧ outcome.applied = taken.length ∧
    outcome.applied + outcome.skipped = spans.length ∧
    Text.bytes outcome.output = Fix.keptBytes (taken.map removalSpan) (Text.bytes source) := by
  intro taken outcome
  have hapart := apart_removalSpan nonempty apart
  have hfits : ∀ span ∈ spans, (removalSpan span).fits source = !Text.wideBefore source span.start :=
    fun span hspan => fits_removalSpan (fits span hspan)
  have htaken : (spans.map removalSpan).filter (·.fits source) = taken.map removalSpan := by
    rw [List.filter_map]
    exact congrArg _ (List.filter_congr hfits)
  obtain ⟨hbytes, happlied, hcount⟩ := Fix.apply_of_apart source hapart
  rw [htaken] at hbytes happlied
  rw [List.length_map] at happlied hcount
  obtain ⟨accepted, haccepted, hattempt, -⟩ := Fix.apply_spec source (spans.map removalSpan)
  refine ⟨⟨accepted, haccepted, fun span hspan => ?_⟩, hattempt, happlied, hcount, hbytes⟩
  rw [hapart.mem_accepted_iff haccepted, hfits span hspan, Bool.not_eq_true']
  exact and_iff_right (List.mem_map_of_mem hspan)

/-- For any concrete tree without repeated numbers whose names lie apart in the source, and any options, a
run of the rule ends, and one pass over the fixes of all its reports takes no bad slice. The pass leaves
exactly the fixes of names behind a character of more than one byte and applies all others. What comes out
is the source without the bytes of the names whose fixes are applied and without the one byte before each
of them, if there is one. -/
theorem pass_removes_reported (source : List Char) (tree : Tree) (options : RuleOptions)
    (unique : tree.ids.Nodup) (namesApart : tree.NamesApart source) :
    ∃ reports, Linter.run [focusRule options] (lower source tree) = .ok reports ∧
      let taken := reports.filter fun report => !Text.wideBefore source report.span.start
      let left := reports.filter fun report => Text.wideBefore source report.span.start
      let outcome := Fix.apply source (fixesOf reports)
      (∃ accepted, Fix.Accepted source (Fix.distinct (fixesOf reports)) accepted ∧
        ∀ report ∈ reports, ∃ fix, report.fix = some fix ∧
          (fix ∈ accepted ↔ Text.wideBefore source report.span.start = false)) ∧
      Fix.attempt source (fixesOf reports) = .ok outcome ∧
      outcome.applied = taken.length ∧ outcome.skipped = left.length ∧
      outcome.applied + outcome.skipped = reports.length ∧
      Text.bytes outcome.output = Fix.keptBytes
        (taken.map fun report => ⟨report.span.start - 1, report.span.stop⟩) (Text.bytes source) := by
  obtain ⟨reports, hrun, hordered, hreports⟩ := exists_run_removing source unique options
  refine ⟨reports, hrun, ?_⟩
  intro taken left outcome
  have hplace : ∀ span ∈ reports.map Report.span, ∃ place ∈ tree.places,
      place.node.kind ∈ identifierKinds ∧ span = place.node.span := by
    intro span hspan
    obtain ⟨report, hreport, rfl⟩ := List.mem_map.mp hspan
    obtain ⟨-, place, hget, hkind, hspan⟩ := hreports report hreport
    exact ⟨place, (Tree.mem_visited.mp (List.mem_of_getElem? hget)).1, hkind, hspan⟩
  have hfits : ∀ span ∈ reports.map Report.span, span.fits source = true := by
    intro span hspan
    obtain ⟨place, hplaces, hkind, rfl⟩ := hplace span hspan
    exact namesApart.fits place hplaces hkind
  have hnonempty : ∀ span ∈ reports.map Report.span, span.start < span.stop := by
    intro span hspan
    obtain ⟨place, hplaces, hkind, rfl⟩ := hplace span hspan
    exact namesApart.nonempty place hplaces hkind
  have hapart := pairwise_reports unique namesApart hordered fun report hreport =>
    (hreports report hreport).2
  obtain ⟨⟨accepted, haccepted, hmem⟩, hattempt, happlied, hcount, hbytes⟩ :=
    pass_removes_apart hfits hnonempty (List.pairwise_map.mpr hapart)
  have hfixes := fixesOf_eq_map fun report hreport => (hreports report hreport).1
  rw [← hfixes] at haccepted hattempt happlied hcount hbytes
  have htaken : (reports.map Report.span).filter (fun span => !Text.wideBefore source span.start) =
      taken.map Report.span := List.filter_map
  rw [htaken] at happlied hbytes
  rw [List.length_map] at happlied hcount
  rw [List.map_map] at hbytes
  have hskipped : outcome.skipped = left.length := by
    have hall : left.length + taken.length = reports.length :=
      (List.length_eq_length_filter_add fun report : Report =>
        Text.wideBefore source report.span.start).symm
    have happly : outcome.applied = taken.length := happlied
    have hboth : outcome.applied + outcome.skipped = reports.length := hcount
    omega
  refine ⟨⟨accepted, haccepted, fun report hreport => ?_⟩, hattempt, happlied, hskipped, hcount, hbytes⟩
  exact ⟨_, (hreports report hreport).1, hmem report.span (List.mem_map_of_mem hreport)⟩

/-- The concrete tree of `it.only.only` with a wide blank before the second modifier. -/
def chainedFocus : Tree :=
  .node 0 [] "program" ⟨0, 15⟩
    [.node 1 [] "member_expression" ⟨0, 15⟩
      [.node 2 [.object] "member_expression" ⟨0, 7⟩
        [.node 3 [.object] "identifier" ⟨0, 2⟩ [], .node 4 [.property] "property_identifier" ⟨3, 7⟩ []],
        .node 5 [.property] "property_identifier" ⟨11, 15⟩ []]]

theorem namesApart_chainedFocus : chainedFocus.NamesApart "it.only.\u3000only".toList where
  fits := by decide
  nonempty := by decide
  apart := by decide

/-- Both modifiers of that chain are reported, and one pass removes the one that it can. -/
theorem pass_removes_reported_chainedFocus :
    chainedFocus.ids.Nodup ∧ chainedFocus.NamesApart "it.only.\u3000only".toList ∧
    ∃ reports, Linter.run [focusRule ⟨some ["it", "it.only"], none⟩]
        (lower "it.only.\u3000only".toList chainedFocus) = .ok reports ∧
      reports.map Report.message = ["it.only not permitted", "it.only.only not permitted"] ∧
      (Fix.apply "it.only.\u3000only".toList (fixesOf reports)).applied = 1 ∧
      (Fix.apply "it.only.\u3000only".toList (fixesOf reports)).skipped = 1 ∧
      Text.bytes (Fix.apply "it.only.\u3000only".toList (fixesOf reports)).output =
        Text.bytes "it.\u3000only".toList := by
  have unique : chainedFocus.ids.Nodup := by decide
  obtain ⟨reports, hrun, -, -, happlied, hskipped, -, hbytes⟩ := pass_removes_reported
    "it.only.\u3000only".toList chainedFocus ⟨some ["it", "it.only"], none⟩ unique namesApart_chainedFocus
  refine ⟨unique, namesApart_chainedFocus, reports, hrun, ?_⟩
  have hreports : Linter.run [focusRule ⟨some ["it", "it.only"], none⟩]
      (lower "it.only.\u3000only".toList chainedFocus) =
      .ok [⟨"no-only-tests", 4, ⟨3, 7⟩, "it.only not permitted", some ⟨2, 7⟩⟩,
        ⟨"no-only-tests", 5, ⟨11, 15⟩, "it.only.only not permitted", some ⟨10, 15⟩⟩] := by
    rw [lower_eq _ unique]
    decide
  rw [hreports] at hrun
  cases hrun
  exact ⟨rfl, happlied.trans (by decide), hskipped.trans (by decide), hbytes.trans (by decide)⟩

end FocusLint
