import FocusLint.Proofs.DocumentOrder
import FocusLint.Proofs.WellLinked

/-!
A report blames the property of an access, unless the object is a focus modifier and blocked itself.

Main statement: `reports_blame_property`. Where the names that hang off an access are its object or its
property, every report is anchored at the property, with one exception: an object whose name is in both
lists is taken for a modifier of itself, is always reported, and its fix takes away the receiver. So if no
name is in both lists all reports are anchored at properties, and if one is they need not be
(`report_blames_receiver`).

The rule asks a name for the object of its parent only, never for the property. What tells the two apart is
that the object, when it is asked for its own object, is a name and goes by that name alone.
-/

namespace FocusLint

open Syntax (Tree Field)

variable {source : List Char} {tree : Tree} {place access : Place} {options : RuleOptions}

/-- Every name that hangs off an access is what fills its object or its property, when the parentheses are
taken away. -/
def Syntax.Tree.NamesFillAccesses (tree : Tree) : Prop :=
  ∀ place ∈ tree.places, place.node.kind ∈ identifierKinds → ∀ access, place.parent? = some access →
    ∀ field, access.node.propertyField? = some field →
      ∃ used filler, (used = .object ∨ used = field) ∧ access.node.filler? used = some filler ∧
        filler.bare = place.node

/-! ## The object of an access -/

theorem link_eq_of_name (unique : tree.ids.Nodup) (namesFill : tree.NamesFillAccesses) {id : NodeId}
    (hget : tree.visited[id]? = some place) (hkind : place.node.kind ∈ identifierKinds)
    (hparent : place.parent? = some access) {object : NodeId}
    (hobject : (access.lowered source tree).object = some object) :
    (access.lowered source tree).object = some id ∨ (access.lowered source tree).property = some id := by
  obtain ⟨field, hfield, hobjectLink, hpropertyLink⟩ := exists_field_of_link (Or.inl hobject)
  have hplace := (Tree.mem_visited.mp (List.mem_of_getElem? hget)).1
  obtain ⟨used, filler, hused, hfiller, hbare⟩ := namesFill place hplace hkind access hparent field hfield
  have hlink : access.link? tree used = some id := by
    rw [Place.link?, hfiller, Option.bind_some, hbare]
    exact Tree.number?_of_getElem? unique hget
  rw [hobjectLink, hpropertyLink]
  rcases hused with rfl | rfl
  · exact Or.inl hlink
  · exact Or.inr hlink

theorem goesBy_of_name {arena : Arena} (namesAreNoAccesses : arena.NamesAreNoAccesses) {id : NodeId}
    {node : Node} {name blocked : String} (hnode : arena.node id = .ok node) (hname : node.name = some name) :
    node.name = some blocked ∨ dottedName arena node = .ok (some blocked) ↔ blocked = name := by
  have hproperty := namesAreNoAccesses id node hnode (by simp [hname])
  have hdotted : dottedName arena node = .ok none := by
    simp only [dottedName, hproperty, linkedName_none, bind, Except.bind]
    rfl
  rw [hname, hdotted]
  simp [eq_comm]

/-! ## Reports -/

/-- A report of a use is anchored at the property of an access, or at an object that is a modifier and
blocked. -/
theorem Uses.property_or_object (unique : tree.ids.Nodup) (namesFill : tree.NamesFillAccesses)
    {id : NodeId} {node : Node} {violation : Violation}
    (hnode : (lower source tree).node id = .ok node) (hkind : node.kind = .identifier)
    (huse : Uses options.blockNames options.focusNames (lower source tree) id violation) :
    ∃ above access name, node.name = some name ∧ node.parent = some above ∧
      (lower source tree).node above = .ok access ∧ access.kind = .memberExpression ∧
      (access.property = some id ∧ access.object ≠ some id ∨
        access.object = some id ∧ name ∈ options.focusNames ∧ name ∈ options.blockNames) := by
  obtain @⟨above, object, other, access, receiver, name, blocked, hat, hname, hfocus, hangs, hatParent,
    hobject, hatObject, hgoes, hblocked⟩ := huse
  rw [hnode] at hat
  cases hat
  refine ⟨above, access, name, hname, hangs, hatParent, ?_, ?_⟩
  · obtain ⟨place, -, rfl⟩ := exists_place_of_node source unique hatParent
    exact kind_lowered_of_link (Or.inl (by simp [hobject]))
  · by_cases hsame : access.object = some id
    · -- The name is asked for its own name, so that it is blocked.
      rw [hobject, Option.some.injEq] at hsame
      subst hsame
      rw [hnode] at hatObject
      cases hatObject
      rw [goesBy_of_name (namesAreNoAccesses_lower source unique) hnode hname] at hgoes
      exact Or.inr ⟨hobject, hfocus, hgoes ▸ hblocked⟩
    · refine Or.inl ⟨?_, hsame⟩
      obtain ⟨place, hget, rfl⟩ := exists_place_of_node source unique hnode
      have hplace := (Tree.mem_visited.mp (List.mem_of_getElem? hget)).1
      obtain ⟨parent, hparent, hgetParent⟩ := (parent_lowered_eq_some unique hplace).mp hangs
      rw [node_lower source unique hgetParent] at hatParent
      cases hatParent
      have hidentifier := (Place.kind_lowered_eq_identifier.mp hkind).1
      exact (link_eq_of_name unique namesFill hget hidentifier hparent hobject).resolve_left hsame

theorem uses_of_object {arena : Arena} {block focus : List String} {id above : NodeId}
    {node access : Node} {name : String} (hnode : arena.node id = .ok node)
    (hname : node.name = some name) (hparent : node.parent = some above)
    (haccess : arena.node above = .ok access) (hobject : access.object = some id)
    (hfocus : name ∈ focus) (hblocked : name ∈ block) :
    Uses block focus arena id (violationOf name name node) :=
  .intro hnode hname hfocus hparent haccess hobject hnode (Or.inl hname) hblocked

/-- For any concrete tree without repeated numbers in which the names that hang off an access are its
object or its property, and any options, a run of the rule ends, and every report is anchored at a name
whose parent is an access. The name is the property of that access and not its object, or it is its object
and in both lists; and every object of an access that is a name in both lists is reported. -/
theorem reports_blame_property (source : List Char) (tree : Tree) (options : RuleOptions)
    (unique : tree.ids.Nodup) (namesFill : tree.NamesFillAccesses) :
    ∃ reports, Linter.run [focusRule options] (lower source tree) = .ok reports ∧
      (∀ report ∈ reports, ∃ node above access name,
        (lower source tree).node report.node = .ok node ∧ node.name = some name ∧
        node.parent = some above ∧ (lower source tree).node above = .ok access ∧
        access.kind = .memberExpression ∧
        (access.property = some report.node ∧ access.object ≠ some report.node ∨
          access.object = some report.node ∧ name ∈ options.focusNames ∧ name ∈ options.blockNames)) ∧
      ∀ id node above access name, (lower source tree).node id = .ok node → node.name = some name →
        node.parent = some above → (lower source tree).node above = .ok access →
        access.object = some id → name ∈ options.focusNames → name ∈ options.blockNames →
        ∃ report ∈ reports, report.node = id ∧
          report.message = name ++ "." ++ name ++ " not permitted" ∧
          report.fix = some (removalSpan node.span) := by
  obtain ⟨reports, hrun, hmem, -⟩ := exists_run_of_wellLinked (wellLinked_lower source unique) options
  refine ⟨reports, hrun, fun report hreport => ?_, ?_⟩
  · obtain ⟨id, node, violation, hnode, hkind, huse, rfl⟩ := (hmem report).mp hreport
    obtain ⟨above, access, name, hname, hparent, haccess, hmember, hlinks⟩ :=
      huse.property_or_object unique namesFill hnode hkind
    exact ⟨node, above, access, name, hnode, hname, hparent, haccess, hmember, hlinks⟩
  · intro id node above access name hnode hname hparent haccess hobject hfocus hblocked
    have hkind : node.kind = .identifier := by
      obtain ⟨place, -, rfl⟩ := exists_place_of_node source unique hnode
      rw [Place.name_lowered] at hname
      by_contra hkind
      rw [if_neg hkind] at hname
      cases hname
    exact ⟨_, (hmem _).mpr ⟨id, node, _, hnode, hkind,
      uses_of_object hnode hname hparent haccess hobject hfocus hblocked, rfl⟩, rfl, rfl, rfl⟩

/-- The concrete tree of `serial.foo`. -/
def serialMember : Tree :=
  .node 0 [] "program" ⟨0, 10⟩
    [.node 1 [] "member_expression" ⟨0, 10⟩
      [.node 2 [.object] "identifier" ⟨0, 6⟩ [], .node 3 [.property] "property_identifier" ⟨7, 10⟩ []]]

theorem namesFillAccesses_serialMember : serialMember.NamesFillAccesses := by
  intro place hplace hkind access hparent field hfield
  simp only [serialMember, Tree.places, Tree.placesUnder, Tree.placesUnderAll, List.append_nil,
    List.nil_append, List.cons_append, List.mem_cons, List.not_mem_nil, or_false] at hplace
  rcases hplace with rfl | rfl | rfl | rfl
  · exact absurd hkind (by decide)
  · exact absurd hkind (by decide)
  · cases hparent
    exact ⟨.object, _, Or.inl rfl, rfl, rfl⟩
  · cases hparent
    cases hfield
    exact ⟨.property, _, Or.inr rfl, rfl, rfl⟩

theorem nodes_serialMember :
    (lower "serial.foo".toList serialMember).node 1 =
      .ok ⟨.memberExpression, none, some 0, some 2, some 3, ⟨0, 10⟩⟩ ∧
    (lower "serial.foo".toList serialMember).node 2 =
      .ok ⟨.identifier, some "serial", some 1, none, none, ⟨0, 6⟩⟩ ∧
    (lower "serial.foo".toList serialMember).node 3 =
      .ok ⟨.identifier, some "foo", some 1, none, none, ⟨7, 10⟩⟩ := by
  rw [lower_eq _ (by decide)]
  decide

/-- With both names of that access as modifiers there are two reports: the object is blamed for itself, and
the property for the object. -/
theorem reports_blame_property_serialMember :
    serialMember.ids.Nodup ∧ serialMember.NamesFillAccesses ∧
    ∃ reports, Linter.run [focusRule ⟨none, some ["serial", "foo"]⟩]
        (lower "serial.foo".toList serialMember) = .ok reports ∧
      reports.map (·.node) = [2, 3] ∧
      (∃ report ∈ reports, report.node = 2 ∧ report.message = "serial.serial not permitted") ∧
      ∃ above access, (lower "serial.foo".toList serialMember).node above = .ok access ∧
        access.kind = .memberExpression ∧ access.property = some 3 := by
  have unique : serialMember.ids.Nodup := by decide
  obtain ⟨haccess, hobject, hproperty⟩ := nodes_serialMember
  obtain ⟨reports, hrun, hanchors, hobjects⟩ := reports_blame_property "serial.foo".toList serialMember
    ⟨none, some ["serial", "foo"]⟩ unique namesFillAccesses_serialMember
  have hsame : Linter.run [focusRule ⟨none, some ["serial", "foo"]⟩]
      (lower "serial.foo".toList serialMember) =
      .ok [⟨"no-only-tests", 2, ⟨0, 6⟩, "serial.serial not permitted", some ⟨0, 6⟩⟩,
        ⟨"no-only-tests", 3, ⟨7, 10⟩, "serial.foo not permitted", some ⟨6, 10⟩⟩] := by
    rw [lower_eq _ unique]
    decide
  have hnodes : reports.map (·.node) = [2, 3] := by
    rw [hsame] at hrun
    cases hrun
    rfl
  refine ⟨unique, namesFillAccesses_serialMember, reports, hrun, hnodes, ?_, ?_⟩
  · obtain ⟨report, hreport, hnode, hmessage, -⟩ :=
      hobjects 2 _ 1 _ "serial" hobject rfl rfl haccess rfl (by decide) (by decide)
    exact ⟨report, hreport, hnode, hmessage⟩
  · obtain ⟨report, hreport, hnode⟩ : ∃ report ∈ reports, report.node = 3 :=
      List.mem_map.mp (hnodes ▸ by simp)
    obtain ⟨node, above, access, name, hat, hname, -, hatAbove, hkind, hlinks⟩ := hanchors report hreport
    rcases hlinks with ⟨hfills, -⟩ | ⟨-, -, hblocked⟩
    · exact ⟨above, access, hatAbove, hkind, hnode ▸ hfills⟩
    · -- The property is not blocked, so that it is not blamed for itself.
      rw [hnode, hproperty] at hat
      cases hat
      cases hname
      exact absurd hblocked (by decide)

/-- A report need not be anchored at a property: in that tree, with the blocked name as the only modifier,
the object of the access is reported, and the fix would take it away. -/
theorem report_blames_receiver :
    serialMember.ids.Nodup ∧ serialMember.NamesFillAccesses ∧
    ∃ reports, Linter.run [focusRule ⟨none, some ["serial"]⟩]
        (lower "serial.foo".toList serialMember) = .ok reports ∧
      ∃ report ∈ reports, report.fix = some ⟨0, 6⟩ ∧
        ¬ ∃ node above access, (lower "serial.foo".toList serialMember).node report.node = .ok node ∧
          node.parent = some above ∧ (lower "serial.foo".toList serialMember).node above = .ok access ∧
          access.kind = .memberExpression ∧ access.property = some report.node := by
  have unique : serialMember.ids.Nodup := by decide
  obtain ⟨haccess, hobject, -⟩ := nodes_serialMember
  have hrun : Linter.run [focusRule ⟨none, some ["serial"]⟩] (lower "serial.foo".toList serialMember) =
      .ok [⟨"no-only-tests", 2, ⟨0, 6⟩, "serial.serial not permitted", some ⟨0, 6⟩⟩] := by
    rw [lower_eq _ unique]
    decide
  refine ⟨unique, namesFillAccesses_serialMember, _, hrun, _, List.mem_singleton_self _, rfl, ?_⟩
  intro hgiven
  obtain ⟨node, above, access, hnode, hparent, hat, -, hproperty⟩ := hgiven
  rw [hobject] at hnode
  cases hnode
  cases hparent
  rw [haccess] at hat
  cases hat
  cases hproperty

end FocusLint
