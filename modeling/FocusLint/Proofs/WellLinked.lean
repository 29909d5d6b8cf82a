import FocusLint.Lint
import FocusLint.Proofs.Detection

/-!
On a lowered tree no link names a missing node.

Main statement: `tryLint_rulesOf`, that linting a source with the program's own rules does not fail. What a
concrete tree without repeated numbers is lowered to is well linked (`wellLinked_lower`), and a reader
yields such trees only. So a run of the rule on a lowered tree ends, and each of its reports blames a focus
modifier (`exists_run_blaming`), whatever the fields of the tree name.
-/

namespace FocusLint

open Syntax (Tree Field Dialect Reader)

/-! ## Lowered trees -/

theorem Syntax.Tree.number?_lt {tree : Tree} {id number : Nat} (h : tree.number? id = some number) :
    number < tree.visited.length := by
  rw [Tree.number?, List.findIdx?_eq_some_iff_getElem] at h
  exact h.1

theorem wellLinked_lower (source : List Char) {tree : Tree} (unique : tree.ids.Nodup) :
    (lower source tree).WellLinked := by
  intro id node hnode
  obtain ⟨place, -, rfl⟩ := exists_place_of_node source unique hnode
  rw [size_lower source unique]
  have hlink : ∀ {field number}, place.link? tree field = some number → number < tree.visited.length := by
    intro field number hnumber
    obtain ⟨filler, -, hfiller⟩ := Option.bind_eq_some_iff.mp hnumber
    exact Tree.number?_lt hfiller
  have hlinks : ∀ number, (place.lowered source tree).object = some number ∨
      (place.lowered source tree).property = some number → number < tree.visited.length := by
    intro number hnumber
    cases hfield : (place.pending tree).accessField? with
    | none => simp [Place.links_lowered_of_none hfield] at hnumber
    | some field =>
      rw [Place.lowered_of_access hfield] at hnumber
      rcases hnumber with hobject | hproperty
      · exact hlink hobject
      · exact hlink hproperty
  refine ⟨?_, fun number h => hlinks number (Or.inl h), fun number h => hlinks number (Or.inr h)⟩
  intro number hnumber
  rw [Place.parent_lowered] at hnumber
  obtain ⟨parent, -, hparent⟩ := Option.bind_eq_some_iff.mp hnumber
  exact Tree.number?_lt hparent

theorem namesAreNoAccesses_lower (source : List Char) {tree : Tree} (unique : tree.ids.Nodup) :
    (lower source tree).NamesAreNoAccesses := by
  intro id node hnode hname
  obtain ⟨place, -, rfl⟩ := exists_place_of_node source unique hnode
  rw [Place.name_lowered] at hname
  rcases place.lowered_cases source tree with ⟨field, -, heq⟩ | ⟨-, heq⟩ | ⟨-, -, heq⟩
  · simp [heq] at hname
  · rw [heq]
  · rw [heq]

/-- A run of the rule on a lowered tree ends. Its reports are in document order, each at another name of the
tree, which is a focus modifier and is blamed for a blocked receiver. -/
theorem exists_run_blaming (source : List Char) {tree : Tree} (unique : tree.ids.Nodup)
    (options : RuleOptions) :
    ∃ reports, Linter.run [focusRule options] (lower source tree) = .ok reports ∧
      (reports.Pairwise fun first second => first.node < second.node) ∧
      ∀ report ∈ reports, ∃ place receiver, tree.visited[report.node]? = some place ∧
        place.node.kind ∈ identifierKinds ∧ place.node.text source ∈ options.focusNames ∧
        receiver ∈ options.blockNames ∧ report = place.blame source report.node receiver := by
  obtain ⟨reports, hrun, hmem, hordered⟩ :=
    exists_run_of_wellLinked (wellLinked_lower source unique) options
  refine ⟨reports, hrun, hordered (namesAreNoAccesses_lower source unique), fun report hreport => ?_⟩
  obtain ⟨id, node, violation, hnode, hkind, huse, rfl⟩ := (hmem report).mp hreport
  obtain ⟨place, hget, rfl⟩ := exists_place_of_node source unique hnode
  obtain ⟨hat, hname, hfocus, -, -, -, -, -, hblocked⟩ := huse
  rw [hnode] at hat
  cases hat
  -- The name that is looked up among the modifiers is the text of the place.
  rw [Place.name_lowered, if_pos hkind, Option.some.injEq] at hname
  subst hname
  refine ⟨place, _, hget, (Place.kind_lowered_eq_identifier.mp hkind).1, hfocus, hblocked, ?_⟩
  simp [Violation.report, violationOf, removalSpan, Place.blame]

/-! ## Sources -/

theorem tryLint_rulesOf (reader : Reader) (options : RuleOptions) (dialect : Dialect) (source : List Char) :
    ∃ reports, tryLint reader (rulesOf options) dialect source = .ok reports := by
  have wellLinked := wellLinked_lower source (reader.unique dialect source)
  obtain ⟨reports, hrun, -⟩ := exists_run_of_wellLinked wellLinked options
  exact ⟨reports, hrun⟩

end FocusLint
