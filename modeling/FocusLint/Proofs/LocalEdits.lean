import FocusLint.Proofs.MissingNodes

/-!
What an edit of a tree changes in the reports on it.

Main statement: `edits_are_local`. A node that is added puts its own reports behind those that are there. Setting the
object and the property of a node changes what is found at another one only if that leans on it: its parent is the
node, or has the node as its object. The reports at all others stay, in their order.

What is found at a node is told by its name, by the object of its parent and by the names that this object goes by
(`foundAt_congr`). Adding a node changes none of these for the nodes before, as their links name nodes that are
there (`foundAt_push`). Setting links changes no name at all, and the links of one node only
(`Arena.SetsParts.foundAt_eq`).
-/

namespace FocusLint

variable {arena next other : Arena} {id member : NodeId} {node node' : Node} {options : RuleOptions}
variable {block focus : List String}

/-- A node is added to a tree, as a child of some node or of none, and gets a number. -/
inductive Arena.Adds (arena : Arena) (parent : Option NodeId) : NodeId → Arena → Prop
  | identifier (name : String) (span : Span) :
      Adds arena parent (arena.addIdentifier parent name span).1 (arena.addIdentifier parent name span).2
  | member (span : Span) : Adds arena parent (arena.addMember parent span).1 (arena.addMember parent span).2
  | other (kind : String) (span : Span) :
      Adds arena parent (arena.addOther parent kind span).1 (arena.addOther parent kind span).2

/-- A node leans on another one if that is its parent, or the object of its parent. -/
def Arena.leansOn (arena : Arena) (id member : NodeId) : Bool :=
  (arena.node? id).any fun node => node.parent.any fun above =>
    above == member || (arena.node? above).any fun access => access.object == some member

theorem leansOn_eq_false_iff (hnode : arena.node? id = some node) :
    arena.leansOn id member = false ↔ ∀ above, node.parent = some above →
      above ≠ member ∧ ∀ access, arena.node? above = some access → access.object ≠ some member := by
  rw [Arena.leansOn, hnode, Option.any_some]
  cases node.parent with
  | none => simp
  | some above => cases haccess : arena.node? above <;> simp [haccess]

/-! ## What is looked at -/

theorem foundAt_congr (hnode : arena.node? id = some node) (hnode' : other.node? id = some node')
    (hname : node'.name = node.name) (hparent : node'.parent = node.parent) (hspan : node'.span = node.span)
    (habove : ∀ above, node.parent = some above → other.node? above = arena.node? above)
    (hgoes : ∀ object, examined? focus arena node = some object → other.name? object = arena.name? object ∧
      (other.node? object).bind (joinedNames? other) = (arena.node? object).bind (joinedNames? arena)) :
    foundAt block focus other id = foundAt block focus arena id := by
  have huse : ∀ modifier names, useOf block modifier node' names = useOf block modifier node names := by
    intro modifier names
    simp only [useOf, violationOf, hspan]
  have hexamined : examined? focus other node' = examined? focus arena node := by
    have hbind : node.parent.bind other.node? = node.parent.bind arena.node? := by
      cases hlink : node.parent with
      | none => rfl
      | some above => exact habove above hlink
    rw [examined?, examined?, hname, hparent, hbind]
  rw [foundAt, foundAt, hnode, hnode', Option.elim_some, Option.elim_some, hexamined, hname]
  cases hobject : examined? focus arena node with
  | none => rfl
  | some object =>
    obtain ⟨hdirect, hdotted⟩ := hgoes object hobject
    simp only [Option.elim_some, hdirect, hdotted, huse]

theorem reportsFound_congr (hnode : arena.node? id = some node) (hnode' : other.node? id = some node')
    (hkind : node'.kind = node.kind) (hspan : node'.span = node.span)
    (hfound : foundAt options.blockNames options.focusNames other id =
      foundAt options.blockNames options.focusNames arena id) :
    reportsFound options other id = reportsFound options arena id := by
  rw [reportsFound, reportsFound, hnode, hnode', Option.elim_some, Option.elim_some, hkind, hfound]
  simp only [Violation.report, hspan]

theorem node_mem_reportsFound {report : Report} (h : report ∈ reportsFound options arena id) :
    report.node = id := by
  rw [reportsFound] at h
  cases hnode : arena.node? id with
  | none => simp [hnode] at h
  | some node =>
    rw [hnode, Option.elim_some] at h
    split at h
    case isTrue =>
      obtain ⟨violation, -, rfl⟩ := List.mem_map.mp h
      rfl
    case isFalse => cases h

/-! ## Adding a node -/

theorem node?_push (arena : Arena) (node : Node) (h : id < arena.size) :
    (arena.push node).node? id = arena.node? id := by
  rw [Arena.node?, Arena.node?, Arena.push, Array.getElem?_push_lt h, Array.getElem?_eq_getElem h]

theorem node?_push_size (arena : Arena) (node : Node) : (arena.push node).node? arena.size = some node := by
  rw [Arena.node?, Arena.push, Arena.size, Array.getElem?_push_size]

theorem size_push (arena : Arena) (node : Node) : (arena.push node).size = arena.size + 1 :=
  Array.size_push node

theorem Node.LinksBelow.mono {size size' : Nat} (h : node.LinksBelow size) (hle : size ≤ size') :
    node.LinksBelow size' where
  parent := fun id hid => Nat.lt_of_lt_of_le (h.parent id hid) hle
  object := fun id hid => Nat.lt_of_lt_of_le (h.object id hid) hle
  property := fun id hid => Nat.lt_of_lt_of_le (h.property id hid) hle

theorem Arena.WellLinked.push (wellLinked : arena.WellLinked) (links : node.LinksBelow arena.size) :
    (arena.push node).WellLinked := by
  intro id found hfound
  have hsize := size_push arena node
  have hid := lt_size_of_node hfound
  have hfound? := Arena.node?_of_ok hfound
  rw [hsize] at hid ⊢
  rcases Nat.lt_succ_iff_lt_or_eq.mp hid with hlt | rfl
  · rw [node?_push arena node hlt] at hfound?
    exact (wellLinked.linksBelow hfound?).mono (Nat.le_succ _)
  · rw [node?_push_size] at hfound?
    cases hfound?
    exact links.mono (Nat.le_succ _)

theorem bind_name?_push (arena : Arena) (node : Node) {link : Option NodeId}
    (h : ∀ id, link = some id → id < arena.size) : link.bind (arena.push node).name? = link.bind arena.name? := by
  cases link with
  | none => rfl
  | some id => rw [Option.bind_some, Option.bind_some, Arena.name?, Arena.name?, node?_push arena node (h id rfl)]

theorem foundAt_push (wellLinked : arena.WellLinked) (node : Node) (hid : id < arena.size) :
    foundAt block focus (arena.push node) id = foundAt block focus arena id := by
  obtain ⟨found, hfound⟩ := Arena.exists_node? hid
  refine foundAt_congr hfound ((node?_push arena node hid).trans hfound) rfl rfl rfl ?_ ?_
  · intro above hlink
    exact node?_push arena node ((wellLinked.linksBelow hfound).parent above hlink)
  · intro object hobject
    obtain ⟨-, above, access, -, haccess, hlink⟩ := examined?_eq_some.mp hobject
    have hlt := (wellLinked.linksBelow haccess).object object hlink
    obtain ⟨receiver, hreceiver⟩ := Arena.exists_node? hlt
    have hsame := node?_push arena node hlt
    have links := wellLinked.linksBelow hreceiver
    refine ⟨by rw [Arena.name?, Arena.name?, hsame], ?_⟩
    rw [hsame, hreceiver, Option.bind_some, Option.bind_some, joinedNames?, joinedNames?,
      bind_name?_push arena node links.property, bind_name?_push arena node links.object]

/-- A run on a tree with one more node reports what it did before, and then what is found at that node. -/
theorem run_push (wellLinked : arena.WellLinked) (links : node.LinksBelow arena.size) (options : RuleOptions) :
    Linter.run [focusRule options] (arena.push node) =
      .ok (allReportsFound options arena ++ reportsFound options (arena.push node) arena.size) := by
  have hids : (arena.push node).ids = arena.ids ++ [arena.size] := by
    rw [Arena.ids, size_push, List.range_succ, ← Arena.ids]
  have hbefore : arena.ids.flatMap (reportsFound options (arena.push node)) = allReportsFound options arena := by
    rw [allReportsFound, List.flatMap_def, List.flatMap_def]
    refine congrArg List.flatten (List.map_congr_left fun id hid => ?_)
    have hlt : id < arena.size := List.mem_range.mp hid
    obtain ⟨found, hfound⟩ := Arena.exists_node? hlt
    exact reportsFound_congr hfound ((node?_push arena node hlt).trans hfound) rfl rfl
      (foundAt_push wellLinked node hlt)
  rw [run_of_wellLinked (wellLinked.push links), allReportsFound, hids, List.flatMap_append,
    List.flatMap_singleton, hbefore]

/-! ## Setting the object and the property of a node -/

/-- A tree is another one in which a node has other parts. -/
structure Arena.SetsParts (arena : Arena) (member : NodeId) (object property : Option NodeId) (next : Arena) :
    Prop where
  size : next.size = arena.size
  node_of_ne : ∀ id, id ≠ member → next.node? id = arena.node? id
  node_member : next.node? member = (arena.node? member).map fun node => { node with object, property }

variable {object property : Option NodeId}

theorem exists_setMemberParts (hmember : member < arena.size) (object property : Option NodeId) :
    ∃ next, arena.setMemberParts member object property = .ok next ∧
      arena.SetsParts member object property next := by
  obtain ⟨node, hnode⟩ := Arena.exists_node? hmember
  have hget : arena.nodes[member]? = some node := hnode
  refine ⟨⟨arena.nodes.setIfInBounds member { node with object, property }⟩, ?_, ?_, ?_, ?_⟩
  · rw [Arena.setMemberParts, hget]
  · rw [Arena.size, Arena.size, Array.size_setIfInBounds]
  · intro id hne
    rw [Arena.node?, Arena.node?, Array.getElem?_setIfInBounds_ne (Ne.symm hne)]
  · rw [hnode, Option.map_some, Arena.node?, Array.getElem?_setIfInBounds_self_of_lt hmember]

namespace Arena.SetsParts

theorem exists_node? (h : arena.SetsParts member object property next) (hnode : arena.node? id = some node) :
    ∃ node', next.node? id = some node' ∧ node'.kind = node.kind ∧ node'.name = node.name ∧
      node'.parent = node.parent ∧ node'.span = node.span := by
  by_cases hid : id = member
  · subst hid
    exact ⟨{ node with object, property }, by rw [h.node_member, hnode, Option.map_some], rfl, rfl, rfl, rfl⟩
  · exact ⟨node, (h.node_of_ne id hid).trans hnode, rfl, rfl, rfl, rfl⟩

theorem node?_eq_none (h : arena.SetsParts member object property next) (hid : arena.node? id = none) :
    next.node? id = none := by
  by_cases hmember : id = member
  · rw [hmember] at hid ⊢
    rw [h.node_member, hid, Option.map_none]
  · rw [h.node_of_ne id hmember, hid]

theorem name?_eq (h : arena.SetsParts member object property next) : next.name? = arena.name? := by
  funext id
  rw [Arena.name?, Arena.name?]
  cases hid : arena.node? id with
  | none => rw [h.node?_eq_none hid]
  | some node =>
    obtain ⟨node', hnode', -, hname, -⟩ := h.exists_node? hid
    rw [hnode', Option.bind_some, Option.bind_some, hname]

theorem wellLinked (h : arena.SetsParts member object property next) (wellLinked : arena.WellLinked)
    (hobject : ∀ id, object = some id → id < arena.size) (hproperty : ∀ id, property = some id → id < arena.size) :
    next.WellLinked := by
  intro id node hnode
  have hnode? := Arena.node?_of_ok hnode
  rw [h.size]
  by_cases hid : id = member
  · rw [hid, h.node_member, Option.map_eq_some_iff] at hnode?
    obtain ⟨old, hold, rfl⟩ := hnode?
    exact ⟨(wellLinked.linksBelow hold).parent, hobject, hproperty⟩
  · rw [h.node_of_ne id hid] at hnode?
    exact wellLinked.linksBelow hnode?

theorem leansOn_eq (h : arena.SetsParts member object property next) (id : NodeId) :
    next.leansOn id member = arena.leansOn id member := by
  rw [Arena.leansOn, Arena.leansOn]
  cases hid : arena.node? id with
  | none =>
    rw [h.node?_eq_none hid]
    rfl
  | some node =>
    obtain ⟨node', hnode', -, -, hparent, -⟩ := h.exists_node? hid
    rw [hnode', Option.any_some, Option.any_some, hparent]
    cases node.parent with
    | none => rfl
    | some above =>
      rw [Option.any_some, Option.any_some]
      by_cases habove : above = member
      · rw [habove, beq_self_eq_true, Bool.true_or, Bool.true_or]
      · rw [h.node_of_ne above habove]

theorem foundAt_eq (h : arena.SetsParts member object property next) (hlean : arena.leansOn id member = false) :
    foundAt block focus next id = foundAt block focus arena id := by
  cases hid : arena.node? id with
  | none =>
    rw [foundAt, foundAt, hid, h.node?_eq_none hid]
    rfl
  | some node =>
    obtain ⟨node', hnode', -, hname, hparent, hspan⟩ := h.exists_node? hid
    have hclear := (leansOn_eq_false_iff hid).mp hlean
    refine foundAt_congr hid hnode' hname hparent hspan ?_ ?_
    · intro above hlink
      exact h.node_of_ne above (hclear above hlink).1
    · intro receiver hreceiver
      obtain ⟨-, above, access, hlink, haccess, hobject⟩ := examined?_eq_some.mp hreceiver
      have hne : receiver ≠ member := by
        rintro rfl
        exact (hclear above hlink).2 access haccess hobject
      rw [h.node_of_ne receiver hne, h.name?_eq]
      refine ⟨rfl, ?_⟩
      cases arena.node? receiver with
      | none => rfl
      | some found => rw [Option.bind_some, Option.bind_some, joinedNames?, joinedNames?, h.name?_eq]

theorem reportsFound_eq (h : arena.SetsParts member object property next)
    (hlean : arena.leansOn id member = false) : reportsFound options next id = reportsFound options arena id := by
  cases hid : arena.node? id with
  | none =>
    rw [reportsFound, reportsFound, hid, h.node?_eq_none hid]
    rfl
  | some node =>
    obtain ⟨node', hnode', hkind, -, -, hspan⟩ := h.exists_node? hid
    exact reportsFound_congr hid hnode' hkind hspan (h.foundAt_eq hlean)

theorem violationsAt_eq (h : arena.SetsParts member object property next) (wellLinked : arena.WellLinked)
    (wellLinked' : next.WellLinked) (hlean : arena.leansOn id member = false) :
    violationsAt block focus next id = violationsAt block focus arena id := by
  by_cases hid : id < arena.size
  · rw [violationsAt_of_wellLinked wellLinked block focus hid,
      violationsAt_of_wellLinked wellLinked' block focus (h.size ▸ hid), h.foundAt_eq hlean]
  · have hnone : arena.node? id = none := Array.getElem?_eq_none (Nat.not_lt.mp hid)
    rw [violationsAt_of_none hnone, violationsAt_of_none (h.node?_eq_none hnone), h.size]

/-- The reports at nodes that do not lean on the one whose parts are set stay, in their order. -/
theorem filter_allReportsFound (h : arena.SetsParts member object property next) (options : RuleOptions) :
    (allReportsFound options next).filter (fun report => !arena.leansOn report.node member) =
      (allReportsFound options arena).filter fun report => !arena.leansOn report.node member := by
  have hids : next.ids = arena.ids := by rw [Arena.ids, Arena.ids, h.size]
  rw [allReportsFound, allReportsFound, hids, List.filter_flatMap, List.filter_flatMap]
  congr 1
  funext id
  cases hlean : arena.leansOn id member with
  | false => rw [h.reportsFound_eq hlean]
  | true =>
    -- The reports at this node are left out on both sides.
    have hnone : ∀ tree : Arena, (reportsFound options tree id).filter
        (fun report => !arena.leansOn report.node member) = [] := by
      intro tree
      rw [List.filter_eq_nil_iff]
      intro report hreport
      rw [node_mem_reportsFound hreport, hlean]
      exact Bool.false_ne_true
    rw [hnone, hnone]

end Arena.SetsParts

/-! ## Both edits -/

/-- A node that is added has no object and no property. -/
theorem Arena.Adds.exists_push {parent : Option NodeId} (h : arena.Adds parent id next) :
    id = arena.size ∧ ∃ node, next = arena.push node ∧ node.parent = parent ∧ node.object = none ∧
      node.property = none := by
  cases h with
  | identifier name span => exact ⟨rfl, _, rfl, rfl, rfl, rfl⟩
  | member span => exact ⟨rfl, _, rfl, rfl, rfl, rfl⟩
  | other kind span => exact ⟨rfl, _, rfl, rfl, rfl, rfl⟩

/-- On a tree all of whose links name nodes a run reports what is found at them. When a node of any kind is added,
under a node of the tree or under none, what was reported stays, and what the rule reports at the new node comes behind
it. When the object and the property of a node are set to nodes of the tree or to none, the rule answers otherwise at a
node only if that leans on the one that was set, be it before or after; the reports at all other nodes are the same, in
the same order. In both cases all links of the new tree name nodes again. -/
theorem edits_are_local (arena : Arena) (wellLinked : arena.WellLinked) (options : RuleOptions) :
    Linter.run [focusRule options] arena = .ok (allReportsFound options arena) ∧
    (∀ parent id next, (∀ above, parent = some above → above < arena.size) → arena.Adds parent id next →
      next.WellLinked ∧
      (focusRule options).reportsAt next id = .ok (reportsFound options next id) ∧
      Linter.run [focusRule options] next = .ok (allReportsFound options arena ++ reportsFound options next id)) ∧
    ∀ member object property, member < arena.size → (∀ id, object = some id → id < arena.size) →
      (∀ id, property = some id → id < arena.size) →
      ∃ next, arena.setMemberParts member object property = .ok next ∧ next.WellLinked ∧
        (∀ id, next.leansOn id member = arena.leansOn id member) ∧
        (∀ id, violationsAt options.blockNames options.focusNames next id ≠
            violationsAt options.blockNames options.focusNames arena id → arena.leansOn id member = true) ∧
        Linter.run [focusRule options] next = .ok (allReportsFound options next) ∧
        (allReportsFound options next).filter (fun report => !arena.leansOn report.node member) =
          (allReportsFound options arena).filter fun report => !arena.leansOn report.node member := by
  refine ⟨run_of_wellLinked wellLinked options, ?_, ?_⟩
  · intro parent id next hparent hadds
    obtain ⟨rfl, node, rfl, rfl, hobject, hproperty⟩ := hadds.exists_push
    have links : node.LinksBelow arena.size := ⟨hparent, by simp [hobject], by simp [hproperty]⟩
    have wellLinked' := wellLinked.push links
    refine ⟨wellLinked', ?_, run_push wellLinked links options⟩
    exact reportsAt_of_wellLinked wellLinked' options (by rw [size_push]; exact Nat.lt_succ_self _)
  · intro member object property hmember hobject hproperty
    obtain ⟨next, hset, h⟩ := exists_setMemberParts hmember object property
    have wellLinked' := h.wellLinked wellLinked hobject hproperty
    refine ⟨next, hset, wellLinked', h.leansOn_eq, fun id hchanged => ?_, run_of_wellLinked wellLinked' options,
      h.filter_allReportsFound options⟩
    by_contra hlean
    exact hchanged (h.violationsAt_eq wellLinked wellLinked' (eq_false_of_ne_true hlean))

/-- The tree of two accesses to `only`, one behind the other. -/
def twoAccessTree : Arena :=
  ⟨#[⟨.memberExpression, none, none, some 1, some 2, ⟨0, 7⟩⟩,
    ⟨.identifier, some "it", some 0, none, none, ⟨0, 2⟩⟩,
    ⟨.identifier, some "only", some 0, none, none, ⟨3, 7⟩⟩,
    ⟨.memberExpression, none, none, some 4, some 5, ⟨8, 17⟩⟩,
    ⟨.identifier, some "test", some 3, none, none, ⟨8, 12⟩⟩,
    ⟨.identifier, some "only", some 3, none, none, ⟨13, 17⟩⟩]⟩

/-- One more modifier below the first access is reported behind the two that are there. Without its parts the first
access has no object, and only the report on the other one stays. -/
theorem edits_are_local_twoAccessTree :
    twoAccessTree.WellLinked ∧
    (allReportsFound .unset twoAccessTree).map Report.node = [2, 5] ∧
    Linter.run [focusRule .unset] (twoAccessTree.addIdentifier (some 0) "only" ⟨18, 22⟩).2 =
      .ok (allReportsFound .unset twoAccessTree ++
        [⟨"no-only-tests", 6, ⟨18, 22⟩, "it.only not permitted", some ⟨17, 22⟩⟩]) ∧
    ∃ next, twoAccessTree.setMemberParts 0 none none = .ok next ∧
      Linter.run [focusRule .unset] next = .ok (allReportsFound .unset next) ∧
      (allReportsFound .unset next).map Report.node = [5] ∧
      (allReportsFound .unset next).filter (fun report => !twoAccessTree.leansOn report.node 0) =
        (allReportsFound .unset twoAccessTree).filter fun report => !twoAccessTree.leansOn report.node 0 := by
  have wellLinked : twoAccessTree.WellLinked := by decide
  obtain ⟨-, hadd, hset⟩ := edits_are_local twoAccessTree wellLinked .unset
  obtain ⟨-, -, hnext⟩ := hadd (some 0) _ _ (by decide) (.identifier "only" ⟨18, 22⟩)
  obtain ⟨next, hparts, -, -, -, hrun, hsame⟩ := hset 0 none none (by decide) (by decide) (by decide)
  refine ⟨wellLinked, by decide, hnext, next, hparts, hrun, ?_, hsame⟩
  cases hparts
  decide

end FocusLint
