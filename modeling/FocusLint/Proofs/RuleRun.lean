import FocusLint.FocusRule
import FocusLint.Proofs.LinterRun
import Mathlib.Tactic.Choose

/-!
The rule against focus modifiers on any tree.

What the rule finds at a node is told by what asking for its neighbours yields
(`violationsAt_of_object`, `violationsAt_of_no_object`). On a tree in which every link names a node
(`Arena.WellLinked`) none of these questions fails. Then the rule finds the uses of a modifier (`Uses`),
and a run reports those at names, at most one for a node if nothing with a name has a property
(`exists_run_of_wellLinked`).
-/

namespace FocusLint

variable {arena : Arena} {id : NodeId} {block focus : List String}

/-! ## What is found at a node -/

@[simp] theorem linkedName_none (arena : Arena) : linkedName arena none = .ok none := rfl

theorem linkedName_some {node : Node} (h : arena.node id = .ok node) :
    linkedName arena (some id) = .ok node.name := by
  simp only [linkedName, Arena.related, h, Except.map, bind, Except.bind]
  rfl

theorem dottedName_of_names {access : Node} {object property : Option String}
    (hobject : linkedName arena access.object = .ok object)
    (hproperty : linkedName arena access.property = .ok property) :
    dottedName arena access =
      .ok (property.bind fun property => object.map fun object => object ++ "." ++ property) := by
  simp only [dottedName, hproperty, bind, Except.bind]
  cases property with
  | none => rfl
  | some property =>
    simp only [hobject]
    rfl

theorem violationsAt_of_object {node receiver : Node} {parent : Option Node} {object : NodeId}
    {dotted : Option String} (hnode : arena.node id = .ok node)
    (hparent : arena.related node.parent = .ok parent)
    (hobject : parent.bind Node.object = some object) (hreceiver : arena.node object = .ok receiver)
    (hdotted : dottedName arena receiver = .ok dotted) :
    violationsAt block focus arena id =
      .ok ((node.name.toList.filter focus.contains).flatMap fun name =>
        ((receiver.name.toList ++ dotted.toList).filter block.contains).map fun names =>
          violationOf names name node) := by
  simp only [violationsAt, hnode, hparent, hobject, bind, Except.bind]
  cases node.name with
  | none => rfl
  | some name =>
    by_cases hfocus : focus.contains name = true
    · simp only [hfocus, if_true, hreceiver, hdotted, Option.toList_some,
        List.filter_cons_of_pos hfocus, List.filter_nil, List.flatMap_singleton, List.filter_append,
        List.map_append]
      rfl
    · simp only [hfocus, Option.toList_some, List.filter_cons_of_neg hfocus, List.filter_nil,
        List.flatMap_nil]
      rfl

theorem violationsAt_of_no_object {node : Node} {parent : Option Node}
    (hnode : arena.node id = .ok node) (hparent : arena.related node.parent = .ok parent)
    (hobject : parent.bind Node.object = none) :
    violationsAt block focus arena id = .ok [] := by
  simp only [violationsAt, hnode, hparent, hobject, bind, Except.bind]
  rfl

/-- The rule reports what it finds, at nodes that are names. -/
theorem focusRule_reportsAt {options : RuleOptions} {node : Node} {violations : List Violation}
    (hnode : arena.node id = .ok node)
    (hviolations : violationsAt options.blockNames options.focusNames arena id = .ok violations) :
    (focusRule options).reportsAt arena id = .ok (if node.kind = .identifier then
      violations.map fun violation =>
        ⟨focusRuleMeta.name, id, node.span, violation.message, some violation.fix⟩
      else []) := by
  simp only [Rule.reportsAt, hnode, bind, Except.bind]
  by_cases hkind : node.kind = .identifier
  · simp only [focusRule, hkind, List.contains_cons, beq_self_eq_true, Bool.true_or, if_true, hviolations,
      bind, Except.bind, pure, Except.pure]
    rw [mapM_report_of_anchor hnode _ (by simp), List.map_map]
    rfl
  · have hother : (focusRule options).kinds.contains node.kind = false := by simpa [focusRule] using hkind
    rw [hother, if_neg hkind]
    rfl

/-! ## Well linked trees -/

/-- The links of a node name nodes among the first so many. -/
structure Node.LinksBelow (node : Node) (size : Nat) : Prop where
  parent : ∀ id, node.parent = some id → id < size
  object : ∀ id, node.object = some id → id < size
  property : ∀ id, node.property = some id → id < size

/-- Every link of a node of the tree names a node of the tree. -/
def Arena.WellLinked (arena : Arena) : Prop :=
  ∀ id node, arena.node id = .ok node → node.LinksBelow arena.size

theorem related_some {node : Node} (h : arena.node id = .ok node) :
    arena.related (some id) = .ok (some node) := by
  rw [Arena.related, h]
  rfl

theorem exists_related {link : Option NodeId} (h : ∀ id, link = some id → id < arena.size) :
    ∃ found, arena.related link = .ok found ∧
      ∀ node, found = some node → ∃ id, link = some id ∧ arena.node id = .ok node := by
  cases link with
  | none => exact ⟨none, rfl, by simp⟩
  | some id =>
    obtain ⟨node, hnode⟩ := exists_node (h id rfl)
    refine ⟨some node, related_some hnode, ?_⟩
    intro other hother
    cases hother
    exact ⟨id, rfl, hnode⟩

theorem exists_linkedName {link : Option NodeId} (h : ∀ id, link = some id → id < arena.size) :
    ∃ name, linkedName arena link = .ok name := by
  cases link with
  | none => exact ⟨none, rfl⟩
  | some id =>
    obtain ⟨node, hnode⟩ := exists_node (h id rfl)
    exact ⟨node.name, linkedName_some hnode⟩

theorem exists_dottedName {access : Node} (h : access.LinksBelow arena.size) :
    ∃ names, dottedName arena access = .ok names ∧ (access.property = none → names = none) := by
  obtain ⟨object, hobject⟩ := exists_linkedName h.object
  obtain ⟨property, hproperty⟩ := exists_linkedName h.property
  refine ⟨_, dottedName_of_names hobject hproperty, fun hnone => ?_⟩
  rw [hnone, linkedName_none] at hproperty
  cases hproperty
  rfl

/-! ## Uses of a modifier -/

/-- A use of a modifier at a node, by the nodes that tell of it: the node goes by the name of a modifier,
and its parent has an object that goes by a blocked name, its own or two joined with a dot. -/
inductive Uses (block focus : List String) (arena : Arena) (id : NodeId) : Violation → Prop
  | intro {above object : NodeId} {node access receiver : Node} {modifier blocked : String}
      (atNode : arena.node id = .ok node) (named : node.name = some modifier)
      (focused : modifier ∈ focus) (hangsOff : node.parent = some above)
      (atParent : arena.node above = .ok access) (hasObject : access.object = some object)
      (atObject : arena.node object = .ok receiver)
      (goesBy : receiver.name = some blocked ∨ dottedName arena receiver = .ok (some blocked))
      (isBlocked : blocked ∈ block) :
      Uses block focus arena id (violationOf blocked modifier node)

/-- No node has both a name and a property: what has a name of its own is no access. -/
def Arena.NamesAreNoAccesses (arena : Arena) : Prop :=
  ∀ id node, arena.node id = .ok node → node.name ≠ none → node.property = none

/-- What is found at a node with an object to look at is a use of a modifier. -/
theorem mem_violationsAt_iff {node access receiver : Node} {above object : NodeId}
    {dotted : Option String} {violations : List Violation} (hnode : arena.node id = .ok node)
    (hparent : node.parent = some above) (haccess : arena.node above = .ok access)
    (hobject : access.object = some object) (hreceiver : arena.node object = .ok receiver)
    (hdotted : dottedName arena receiver = .ok dotted)
    (hviolations : violationsAt block focus arena id = .ok violations) (violation : Violation) :
    violation ∈ violations ↔ Uses block focus arena id violation := by
  have hrelated : arena.related node.parent = .ok (some access) := by rw [hparent, related_some haccess]
  rw [violationsAt_of_object hnode hrelated hobject hreceiver hdotted] at hviolations
  cases hviolations
  simp only [List.mem_flatMap, List.mem_filter, List.mem_map, List.mem_append, Option.mem_toList,
    List.contains_iff_mem]
  constructor
  · intro hgiven
    obtain ⟨modifier, ⟨hname, hfocus⟩, blocked, ⟨hgoes, hblocked⟩, rfl⟩ := hgiven
    refine .intro hnode hname hfocus hparent haccess hobject hreceiver ?_ hblocked
    exact hgoes.imp_right fun h => by rw [hdotted, h]
  · intro huse
    obtain ⟨hat, hname, hfocus, hangs, hatParent, hhas, hatObject, hgoes, hblocked⟩ := huse
    -- What the use asks for is what was found.
    rw [hnode] at hat
    cases hat
    rw [hparent] at hangs
    cases hangs
    rw [haccess] at hatParent
    cases hatParent
    rw [hobject] at hhas
    cases hhas
    rw [hreceiver] at hatObject
    cases hatObject
    rw [hdotted] at hgoes
    exact ⟨_, ⟨hname, hfocus⟩, _, ⟨hgoes.imp_right Except.ok.inj, hblocked⟩, rfl⟩

/-- An object whose name of its own, if it has one, is all that it goes by is found once at most. -/
theorem length_violationsAt_le {node receiver : Node} {parent : Option Node} {object : NodeId}
    {dotted : Option String} {violations : List Violation} (hnode : arena.node id = .ok node)
    (hparent : arena.related node.parent = .ok parent)
    (hobject : parent.bind Node.object = some object) (hreceiver : arena.node object = .ok receiver)
    (hdotted : dottedName arena receiver = .ok dotted) (hone : receiver.name ≠ none → dotted = none)
    (hviolations : violationsAt block focus arena id = .ok violations) : violations.length ≤ 1 := by
  rw [violationsAt_of_object hnode hparent hobject hreceiver hdotted] at hviolations
  cases hviolations
  have hnames : (receiver.name.toList ++ dotted.toList).length ≤ 1 := by
    cases hname : receiver.name with
    | none => cases dotted <;> simp
    | some name => simp [hone (by simp [hname])]
  cases node.name with
  | none => simp
  | some modifier =>
    by_cases hfocus : focus.contains modifier = true
    · rw [Option.toList_some, List.filter_cons_of_pos hfocus, List.filter_nil, List.flatMap_singleton,
        List.length_map]
      exact Nat.le_trans (List.length_filter_le _ _) hnames
    · rw [Option.toList_some, List.filter_cons_of_neg hfocus]
      simp

/-- On a well linked tree the rule looks at any node without asking for a missing one. It finds the uses of
a modifier there, and no more than one if names are no accesses. -/
theorem exists_violationsAt (wellLinked : arena.WellLinked) (block focus : List String)
    (hid : id < arena.size) :
    ∃ violations, violationsAt block focus arena id = .ok violations ∧
      (∀ violation, violation ∈ violations ↔ Uses block focus arena id violation) ∧
      (arena.NamesAreNoAccesses → violations.length ≤ 1) := by
  obtain ⟨node, hnode⟩ := exists_node hid
  obtain ⟨parent, hparent, hparentNode⟩ := exists_related (wellLinked id node hnode).parent
  cases hobject : parent.bind Node.object with
  | none =>
    refine ⟨[], violationsAt_of_no_object hnode hparent hobject, fun violation => ?_, fun _ => by simp⟩
    refine ⟨fun h => absurd h List.not_mem_nil, fun huse => ?_⟩
    obtain ⟨hat, -, -, hangs, hatParent, hhas, -⟩ := huse
    rw [hnode] at hat
    cases hat
    rw [hangs, related_some hatParent] at hparent
    cases hparent
    rw [Option.bind_some, hhas] at hobject
    cases hobject
  | some object =>
    obtain ⟨access, rfl, hlink⟩ := Option.bind_eq_some_iff.mp hobject
    obtain ⟨above, habove, haccess⟩ := hparentNode access rfl
    -- The object is a link of the parent, which is a node of the tree itself.
    obtain ⟨receiver, hreceiver⟩ := exists_node ((wellLinked above access haccess).object object hlink)
    obtain ⟨dotted, hdotted, hnone⟩ := exists_dottedName (wellLinked object receiver hreceiver)
    have hviolations : violationsAt block focus arena id = .ok _ :=
      violationsAt_of_object hnode hparent hobject hreceiver hdotted
    refine ⟨_, hviolations,
      mem_violationsAt_iff hnode habove haccess hlink hreceiver hdotted hviolations, fun hnames => ?_⟩
    exact length_violationsAt_le hnode hparent hobject hreceiver hdotted
      (fun hname => hnone (hnames object receiver hreceiver hname)) hviolations

/-! ## Reports -/

/-- The report of a use that was found at a node of the tree. -/
def Violation.report (violation : Violation) (id : NodeId) (node : Node) : Report :=
  ⟨focusRuleMeta.name, id, node.span, violation.message, some violation.fix⟩

theorem exists_reportsAt (wellLinked : arena.WellLinked) (options : RuleOptions) (id : NodeId) :
    ∃ reports, (id < arena.size → (focusRule options).reportsAt arena id = .ok reports) ∧
      (∀ report, report ∈ reports ↔ ∃ node violation, arena.node id = .ok node ∧
        node.kind = .identifier ∧ Uses options.blockNames options.focusNames arena id violation ∧
        report = violation.report id node) ∧
      (arena.NamesAreNoAccesses → reports.length ≤ 1) := by
  by_cases hid : id < arena.size
  · obtain ⟨node, hnode⟩ := exists_node hid
    obtain ⟨violations, hviolations, hmem, hone⟩ :=
      exists_violationsAt wellLinked options.blockNames options.focusNames hid
    rw [focusRule_reportsAt hnode hviolations]
    by_cases hkind : node.kind = .identifier
    · rw [if_pos hkind]
      refine ⟨_, fun _ => rfl, fun report => ?_, fun hnames => by simpa using hone hnames⟩
      simp only [List.mem_map, hmem, hnode, Except.ok.injEq]
      constructor
      · intro hgiven
        obtain ⟨violation, huse, rfl⟩ := hgiven
        exact ⟨node, violation, rfl, hkind, huse, rfl⟩
      · intro hgiven
        obtain ⟨other, violation, rfl, -, huse, rfl⟩ := hgiven
        exact ⟨violation, huse, rfl⟩
    · rw [if_neg hkind]
      refine ⟨[], fun _ => rfl, fun report => ?_, fun _ => by simp⟩
      refine ⟨fun h => absurd h List.not_mem_nil, fun hgiven => ?_⟩
      obtain ⟨other, -, hother, hidentifier, -⟩ := hgiven
      rw [hnode] at hother
      cases hother
      exact absurd hidentifier hkind
  · refine ⟨[], fun h => absurd h hid, fun report => ?_, fun _ => by simp⟩
    refine ⟨fun h => absurd h List.not_mem_nil, fun hgiven => ?_⟩
    obtain ⟨node, -, hnode, -⟩ := hgiven
    exact absurd (lt_size_of_node hnode) hid

/-- On a well linked tree a run of the rule ends. It reports the uses of a modifier at names, one for a node
and in document order if names are no accesses. -/
theorem exists_run_of_wellLinked (wellLinked : arena.WellLinked) (options : RuleOptions) :
    ∃ reports, Linter.run [focusRule options] arena = .ok reports ∧
      (∀ report, report ∈ reports ↔ ∃ id node violation, arena.node id = .ok node ∧
        node.kind = .identifier ∧ Uses options.blockNames options.focusNames arena id violation ∧
        report = violation.report id node) ∧
      (arena.NamesAreNoAccesses →
        reports.Pairwise fun first second => first.node < second.node) := by
  choose reports hrun hmem hone using exists_reportsAt wellLinked options
  refine ⟨arena.ids.flatMap reports, ?_, fun report => ?_, fun hnames => ?_⟩
  · apply Linter.run_eq_flatMap
    intro id hid
    rw [Linter.reportsAt_singleton, hrun id hid]
  · simp only [List.mem_flatMap, hmem]
    constructor
    · intro hgiven
      obtain ⟨id, -, node, violation, hreport⟩ := hgiven
      exact ⟨id, node, violation, hreport⟩
    · intro hgiven
      obtain ⟨id, node, violation, hnode, hreport⟩ := hgiven
      exact ⟨id, List.mem_range.mpr (lt_size_of_node hnode), node, violation, hnode, hreport⟩
  · refine Linter.pairwise_node_lt ?_ fun id => hone id hnames
    intro id report hreport
    obtain ⟨node, violation, -, -, -, rfl⟩ := (hmem id report).mp hreport
    rfl

end FocusLint
