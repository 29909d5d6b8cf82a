import FocusLint.Proofs.TextPositions
import FocusLint.Proofs.WellLinked

/-!
Diagnostics lie in the order of the text, and each covers the name that it blames.

Main statement: `diagnostics_cover_modifiers`. Where the names of a tree follow each other in the source, each
on one line, the diagnostics of a run start at strictly increasing positions. Each of them ends on its own
line, as many columns further as the blamed name has characters, and between its two positions the source
spells that name.

A name that lies in the source cuts it into what stands before the name, the name and the rest
(`diagnostic_of_split`). What stands before a name is the start of what stands before any later one
(`before_of_ordered`), so the positions increase with the numbers of the blamed nodes.
-/

namespace FocusLint

open Syntax (Tree)

/-- The names of a tree follow each other in a text: each takes some bytes of it and no line feed, and ends
before the next one starts. -/
structure Syntax.Tree.NamesInOrder (source : List Char) (tree : Tree) : Prop where
  fits : ∀ place ∈ tree.places, place.node.kind ∈ identifierKinds →
    place.node.span.fits source = true
  nonempty : ∀ place ∈ tree.places, place.node.kind ∈ identifierKinds →
    place.node.span.start < place.node.span.stop
  oneLine : ∀ place ∈ tree.places, place.node.kind ∈ identifierKinds →
    '\n' ∉ place.node.span.cover source
  ordered : tree.places.Pairwise fun first second => first.node.kind ∈ identifierKinds →
    second.node.kind ∈ identifierKinds → first.node.span.stop ≤ second.node.span.start

namespace Diagnostic

def start (diagnostic : Diagnostic) : LineColumn := ⟨diagnostic.line, diagnostic.column⟩

def stop (diagnostic : Diagnostic) : LineColumn := ⟨diagnostic.endLine, diagnostic.endColumn⟩

/-- A diagnostic lies on one line and takes as many columns as a name has characters, and the source spells
that name there. -/
structure Covers (source : List Char) (diagnostic : Diagnostic) (name : String) : Prop where
  endLine : diagnostic.endLine = diagnostic.line
  endColumn : diagnostic.endColumn = diagnostic.column + name.length
  spells : Text.between source diagnostic.start diagnostic.stop = name.toList

end Diagnostic

variable {source : List Char} {tree : Tree} {reports : List Report}

/-! ## One diagnostic -/

theorem diagnostic_of_split {before name : List Char} {report : Report}
    (hstart : report.span.start = Text.size before)
    (hstop : report.span.stop = Text.size before + Text.size name) (behind : List Char) :
    (Diagnostic.ofReport (.ofText (before ++ (name ++ behind))) report).start = Text.ending before ∧
    (Diagnostic.ofReport (.ofText (before ++ (name ++ behind))) report).stop =
      Text.ending (before ++ name) := by
  have hbefore := LineIndex.lineColumn_append before (name ++ behind)
  have hname := LineIndex.lineColumn_append (before ++ name) behind
  rw [List.append_assoc, Text.size_append] at hname
  constructor
  · rw [← hbefore, ← hstart]
    rfl
  · rw [← hname, ← hstop]
    rfl

theorem covers_of_oneLine {report : Report} (hfits : report.span.fits source = true)
    (oneLine : '\n' ∉ report.span.cover source) :
    (Diagnostic.ofReport (.ofText source) report).Covers source
      (String.ofList (report.span.cover source)) := by
  obtain ⟨before, name, behind, rfl, hstart, hstop⟩ := Span.fits_iff.mp hfits
  have hcover : report.span.cover (before ++ (name ++ behind)) = name := by
    rw [Span.cover, if_pos hfits, hstart, hstop, Text.slice_append]
  obtain ⟨hfrom, hto⟩ := diagnostic_of_split hstart hstop behind
  rw [hcover] at oneLine ⊢
  have hmoved := Text.ending_append_of_not_mem before oneLine
  refine ⟨?_, ?_, ?_⟩
  · exact (congrArg LineColumn.line (hto.trans hmoved)).trans (congrArg LineColumn.line hfrom).symm
  · rw [String.length_ofList]
    refine (congrArg LineColumn.column (hto.trans hmoved)).trans ?_
    exact congrArg (· + name.length) (congrArg LineColumn.column hfrom).symm
  · rw [hfrom, hto, Text.between_append, String.toList_ofList]

theorem before_of_ordered {first second : Report} (hfirst : first.span.fits source = true)
    (hsecond : second.span.fits source = true) (nonempty : first.span.start < first.span.stop)
    (hordered : first.span.stop ≤ second.span.start) :
    (Diagnostic.ofReport (.ofText source) first).start.Before
      (Diagnostic.ofReport (.ofText source) second).start :=
  LineIndex.before_lineColumn (Span.isBoundary_start hfirst) (Span.isBoundary_start hsecond)
    (Nat.lt_of_lt_of_le nonempty hordered)

/-! ## All diagnostics of a run -/

theorem ordered_of_node_lt (namesInOrder : tree.NamesInOrder source)
    (hordered : reports.Pairwise fun first second => first.node < second.node)
    (hplace : ∀ report ∈ reports, ∃ place, tree.visited[report.node]? = some place ∧
      place.node.kind ∈ identifierKinds ∧ report.span = place.node.span) :
    reports.Pairwise fun first second => first.span.stop ≤ second.span.start := by
  refine hordered.imp_of_mem fun {first second} hfirst hsecond hlt => ?_
  obtain ⟨place, hget, hkind, hspan⟩ := hplace first hfirst
  obtain ⟨other, hgetOther, hkindOther, hspanOther⟩ := hplace second hsecond
  obtain ⟨hbound, rfl⟩ := List.getElem?_eq_some_iff.mp hget
  obtain ⟨hboundOther, rfl⟩ := List.getElem?_eq_some_iff.mp hgetOther
  have hvisited := namesInOrder.ordered.sublist (List.filter_sublist (p := Place.isVisited))
  rw [hspan, hspanOther]
  exact List.pairwise_iff_getElem.mp hvisited _ _ hbound hboundOther hlt hkind hkindOther

/-- For any concrete tree without repeated numbers whose names follow each other in the source, each on one
line, and any options, a run of the rule ends, and its diagnostics start at strictly increasing positions. The
diagnostic of a report covers the name at the reported node, which is a focus modifier and which the message
blames for a blocked receiver. -/
theorem diagnostics_cover_modifiers (source : List Char) (tree : Tree) (options : RuleOptions)
    (unique : tree.ids.Nodup) (namesInOrder : tree.NamesInOrder source) :
    ∃ reports, Linter.run [focusRule options] (lower source tree) = .ok reports ∧
      ((diagnosticsOf source reports).Pairwise fun first second => first.start.Before second.start) ∧
      List.Forall₂ (fun report diagnostic => ∃ place receiver modifier,
          tree.visited[report.node]? = some place ∧ place.node.text source = modifier ∧
          modifier ∈ options.focusNames ∧ receiver ∈ options.blockNames ∧
          diagnostic.message = receiver ++ "." ++ modifier ++ " not permitted" ∧
          diagnostic.Covers source modifier)
        reports (diagnosticsOf source reports) := by
  obtain ⟨reports, hrun, hordered, hblames⟩ := exists_run_blaming source unique options
  have hplace : ∀ report ∈ reports, ∃ place, tree.visited[report.node]? = some place ∧
      place.node.kind ∈ identifierKinds ∧ report.span = place.node.span := by
    intro report hreport
    obtain ⟨place, _, hget, hkind, -, -, heq⟩ := hblames report hreport
    exact ⟨place, hget, hkind, congrArg Report.span heq⟩
  have hname : ∀ report ∈ reports, report.span.fits source = true ∧
      report.span.start < report.span.stop ∧ '\n' ∉ report.span.cover source := by
    intro report hreport
    obtain ⟨place, hget, hkind, hspan⟩ := hplace report hreport
    have hplaces := (Tree.mem_visited.mp (List.mem_of_getElem? hget)).1
    rw [hspan]
    exact ⟨namesInOrder.fits place hplaces hkind, namesInOrder.nonempty place hplaces hkind,
      namesInOrder.oneLine place hplaces hkind⟩
  refine ⟨reports, hrun, ?_, ?_⟩
  · rw [diagnosticsOf, List.pairwise_map]
    refine (ordered_of_node_lt namesInOrder hordered hplace).imp_of_mem ?_
    intro first second hfirst hsecond hle
    exact before_of_ordered (hname first hfirst).1 (hname second hsecond).1 (hname first hfirst).2.1 hle
  · rw [diagnosticsOf, List.forall₂_map_right_iff, List.forall₂_same]
    intro report hreport
    obtain ⟨place, receiver, hget, -, hfocus, hblocked, heq⟩ := hblames report hreport
    have hspan : report.span = place.node.span := congrArg Report.span heq
    obtain ⟨hfits, -, oneLine⟩ := hname report hreport
    have hcovers := covers_of_oneLine hfits oneLine
    refine ⟨place, receiver, _, hget, rfl, hfocus, hblocked, congrArg Report.message heq, ?_⟩
    rw [Tree.text, ← hspan]
    exact hcovers

/-- The concrete tree of two modifiers on two lines, the first one behind a name of two bytes. -/
def twoLineFocus : Tree :=
  .node 0 [] "program" ⟨0, 16⟩
    [.node 1 [] "member_expression" ⟨0, 7⟩
      [.node 2 [.object] "identifier" ⟨0, 2⟩ [], .node 3 [.property] "property_identifier" ⟨3, 7⟩ []],
      .node 4 [] "member_expression" ⟨9, 16⟩
      [.node 5 [.object] "identifier" ⟨9, 11⟩ [], .node 6 [.property] "property_identifier" ⟨12, 16⟩ []]]

theorem namesInOrder_twoLineFocus : twoLineFocus.NamesInOrder "é.only;\nit.only".toList where
  fits := by decide
  nonempty := by decide
  oneLine := by decide
  ordered := by decide

/-- Both modifiers are reported where they stand: the name of two bytes takes one column. -/
theorem diagnostics_cover_modifiers_twoLineFocus :
    twoLineFocus.ids.Nodup ∧ twoLineFocus.NamesInOrder "é.only;\nit.only".toList ∧
    ∃ reports, Linter.run [focusRule ⟨some ["é", "it"], none⟩]
        (lower "é.only;\nit.only".toList twoLineFocus) = .ok reports ∧
      diagnosticsOf "é.only;\nit.only".toList reports =
        [⟨1, 3, 1, 7, "no-only-tests", "é.only not permitted", true⟩,
          ⟨2, 4, 2, 8, "no-only-tests", "it.only not permitted", true⟩] ∧
      (diagnosticsOf "é.only;\nit.only".toList reports).Pairwise
        (fun first second => first.start.Before second.start) ∧
      ∀ diagnostic ∈ diagnosticsOf "é.only;\nit.only".toList reports,
        ∃ modifier, diagnostic.Covers "é.only;\nit.only".toList modifier := by
  have unique : twoLineFocus.ids.Nodup := by decide
  obtain ⟨reports, hrun, hordered, hcovers⟩ := diagnostics_cover_modifiers "é.only;\nit.only".toList
    twoLineFocus ⟨some ["é", "it"], none⟩ unique namesInOrder_twoLineFocus
  refine ⟨unique, namesInOrder_twoLineFocus, reports, hrun, ?_, hordered, ?_⟩
  · have hreports : Linter.run [focusRule ⟨some ["é", "it"], none⟩]
        (lower "é.only;\nit.only".toList twoLineFocus) =
        .ok [⟨"no-only-tests", 3, ⟨3, 7⟩, "é.only not permitted", some ⟨2, 7⟩⟩,
          ⟨"no-only-tests", 6, ⟨12, 16⟩, "it.only not permitted", some ⟨11, 16⟩⟩] := by
      rw [lower_eq _ unique]
      decide
    rw [hreports] at hrun
    cases hrun
    decide
  · rw [List.forall₂_iff_get] at hcovers
    intro diagnostic hdiagnostic
    obtain ⟨i, hi, rfl⟩ := List.getElem_of_mem hdiagnostic
    obtain ⟨_, _, modifier, -, -, -, -, -, hcovers⟩ := hcovers.2 i (hcovers.1 ▸ hi) hi
    exact ⟨modifier, hcovers⟩

end FocusLint
