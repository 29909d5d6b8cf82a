import FocusLint.Proofs.RuleRun

/-!
Which missing node the rule asks for.

A link of a tree may name a node that is not there, and that is no fault of the tree until somebody asks for the
node. What the rule asks for at a node is a list, in the order in which it asks (`asked`): the node, its parent,
and for the name of a modifier the object of the parent, the property of that and, if the property has a name,
the object of that. Each level of the list is what one function of the rule asks for, and each of these functions
yields its result after the list was checked (`dottedName_eq`, `violationsAt_eq`). So the rule fails with the first
node of the list that is missing, and a run with what the first name fails with. If no link of a tree names a
missing node, then a run reports what is found at its nodes (`run_of_wellLinked`).
-/

namespace FocusLint

variable {arena : Arena} {id : NodeId} {block focus : List String}

/-! ## Asking for nodes -/

namespace Arena

def node? (arena : Arena) (id : NodeId) : Option Node := arena.nodes[id]?

def name? (arena : Arena) (id : NodeId) : Option String := (arena.node? id).bind Node.name

def lacks (arena : Arena) (id : NodeId) : Bool := (arena.node? id).isNone

/-- What is found out by asking for nodes one after the other, which fails at the first that is missing. -/
def after {α : Type} (arena : Arena) (ids : List NodeId) (found : α) : Except MissingNode α :=
  match ids.find? arena.lacks with
  | some id => .error ⟨arena.size, id⟩
  | none => .ok found

theorem node_of_some {node : Node} (h : arena.node? id = some node) : arena.node id = .ok node := by
  rw [node?] at h
  rw [Arena.node, h]

theorem node_of_none (h : arena.node? id = none) : arena.node id = .error ⟨arena.size, id⟩ := by
  rw [node?] at h
  rw [Arena.node, h]

theorem node?_of_ok {node : Node} (h : arena.node id = .ok node) : arena.node? id = some node := by
  cases hid : arena.node? id with
  | none =>
    rw [node_of_none hid] at h
    cases h
  | some found =>
    rw [node_of_some hid] at h
    rw [Except.ok.inj h]

theorem exists_node? (h : id < arena.size) : ∃ node, arena.node? id = some node := by
  obtain ⟨node, hnode⟩ := exists_node h
  exact ⟨node, node?_of_ok hnode⟩

theorem WellLinked.linksBelow {node : Node} (wellLinked : arena.WellLinked) (h : arena.node? id = some node) :
    node.LinksBelow arena.size := wellLinked id node (node_of_some h)

theorem wellLinked_iff : arena.WellLinked ↔ ∀ node ∈ arena.nodes.toList, node.LinksBelow arena.size := by
  constructor
  · intro wellLinked node hnode
    obtain ⟨id, hid⟩ := List.mem_iff_getElem?.mp hnode
    rw [Array.getElem?_toList] at hid
    exact wellLinked.linksBelow hid
  · intro h id node hnode
    have hid : arena.nodes[id]? = some node := node?_of_ok hnode
    rw [← Array.getElem?_toList] at hid
    exact h node (List.mem_of_getElem? hid)

instance (node : Node) (size : Nat) : Decidable (node.LinksBelow size) :=
  decidable_of_iff
    ((∀ id ∈ node.parent, id < size) ∧ (∀ id ∈ node.object, id < size) ∧ ∀ id ∈ node.property, id < size)
    ⟨fun ⟨parent, object, property⟩ => ⟨parent, object, property⟩,
      fun links => ⟨links.parent, links.object, links.property⟩⟩

instance (arena : Arena) : Decidable arena.WellLinked := decidable_of_iff _ wellLinked_iff.symm

variable {α β : Type} {ids : List NodeId} {found : α}

theorem after_cons_of_some {node : Node} (h : arena.node? id = some node) (ids : List NodeId) (found : α) :
    arena.after (id :: ids) found = arena.after ids found := by
  have hpresent : arena.lacks id = false := by rw [lacks, h, Option.isNone_some]
  rw [after, List.find?_cons_of_neg (by simp [hpresent]), ← after]

theorem after_cons_of_none (h : arena.node? id = none) (ids : List NodeId) (found : α) :
    arena.after (id :: ids) found = .error ⟨arena.size, id⟩ := by
  have hmissing : arena.lacks id = true := by rw [lacks, h, Option.isNone_none]
  rw [after, List.find?_cons_of_pos hmissing]

theorem after_bind {first second : List NodeId} {result : β} {f : α → Except MissingNode β}
    (h : f found = arena.after second result) :
    (arena.after first found >>= f) = arena.after (first ++ second) result := by
  simp only [after, List.find?_append] at h ⊢
  cases first.find? arena.lacks with
  | none => exact h
  | some id => rfl

theorem after_map (arena : Arena) (ids : List NodeId) (found : α) (f : α → β) :
    (arena.after ids found >>= fun a => pure (f a)) = arena.after ids (f found) := by
  simp only [after]
  cases ids.find? arena.lacks <;> rfl

theorem after_eq_error_iff {missing : MissingNode} :
    arena.after ids found = .error missing ↔
      missing.size = arena.size ∧ ids.find? arena.lacks = some missing.id := by
  obtain ⟨size, id⟩ := missing
  simp only [after]
  cases ids.find? arena.lacks with
  | none => simp
  | some first =>
    simp only [Except.error.injEq, MissingNode.mk.injEq, Option.some.injEq]
    exact and_congr_left fun _ => eq_comm

theorem after_eq_ok_iff {result : α} :
    arena.after ids found = .ok result ↔ (∀ id ∈ ids, id < arena.size) ∧ result = found := by
  have hpresent : (∀ id ∈ ids, id < arena.size) ↔ ids.find? arena.lacks = none := by
    simp [lacks, node?, size]
  rw [hpresent, after]
  cases ids.find? arena.lacks with
  | none => simp [eq_comm]
  | some first => simp

end Arena

/-! ## What is asked for -/

/-- The nodes that are asked for to join the names of an object and a property. -/
def dottedAsked (arena : Arena) (access : Node) : List NodeId :=
  access.property.toList ++ ((access.property.bind arena.name?).bind fun _ => access.object).toList

/-- The object that is looked at for a node: that of its parent, if the node is the name of a modifier. -/
def examined? (focus : List String) (arena : Arena) (node : Node) : Option NodeId :=
  if node.name.any focus.contains then (node.parent.bind arena.node?).bind Node.object else none

/-- The nodes that are asked for at a node, in the order in which this is done. -/
def asked (focus : List String) (arena : Arena) (id : NodeId) : List NodeId :=
  id :: (arena.node? id).elim [] fun node =>
    node.parent.toList ++ (examined? focus arena node).elim [] fun object =>
      object :: (arena.node? object).elim [] (dottedAsked arena)

/-- The names of an object and a property joined with a dot, if both are there and have one. -/
def joinedNames? (arena : Arena) (access : Node) : Option String :=
  (access.property.bind arena.name?).bind fun property =>
    (access.object.bind arena.name?).map fun object => object ++ "." ++ property

/-- The use of a modifier on a name, if there is one and it is blocked. -/
def useOf (block : List String) (modifier : String) (node : Node) (names : Option String) : List Violation :=
  (names.toList.filter block.contains).map fun receiver => violationOf receiver modifier node

/-- What is found at a node: the use of a modifier on the name of the object, and behind it the one on the two names
of the object. -/
def foundAt (block focus : List String) (arena : Arena) (id : NodeId) : List Violation :=
  (arena.node? id).elim [] fun node =>
    (examined? focus arena node).elim [] fun object =>
      let modifier := node.name.getD ""
      useOf block modifier node (arena.name? object) ++
        useOf block modifier node ((arena.node? object).bind (joinedNames? arena))

theorem related_eq (arena : Arena) (link : Option NodeId) :
    arena.related link = arena.after link.toList (link.bind arena.node?) := by
  cases link with
  | none => rfl
  | some id =>
    rw [Option.toList_some, Option.bind_some, Arena.related]
    cases hid : arena.node? id with
    | none =>
      rw [Arena.after_cons_of_none hid, Arena.node_of_none hid]
      rfl
    | some node =>
      rw [Arena.after_cons_of_some hid, Arena.node_of_some hid]
      rfl

theorem linkedName_eq (arena : Arena) (link : Option NodeId) :
    linkedName arena link = arena.after link.toList (link.bind arena.name?) := by
  have hname : link.bind arena.name? = (link.bind arena.node?).bind Node.name := by cases link <;> rfl
  rw [linkedName, related_eq, Arena.after_map, hname]

theorem dottedName_eq (arena : Arena) (access : Node) :
    dottedName arena access = arena.after (dottedAsked arena access) (joinedNames? arena access) := by
  rw [dottedName, linkedName_eq]
  refine Arena.after_bind ?_
  rw [joinedNames?]
  cases access.property.bind arena.name? with
  | none => rfl
  | some property =>
    simp only [linkedName_eq]
    exact Arena.after_map ..

/-- Asking for an object and then for its two names tells what it goes by. -/
theorem goesBy_eq {α : Type} (arena : Arena) (object : NodeId) (f : Option String → Option String → α) :
    (do
      let receiver ← arena.node object
      let dotted ← dottedName arena receiver
      pure (f receiver.name dotted)) =
      arena.after (object :: (arena.node? object).elim [] (dottedAsked arena))
        (f (arena.name? object) ((arena.node? object).bind (joinedNames? arena))) := by
  cases hreceiver : arena.node? object with
  | none =>
    rw [Arena.after_cons_of_none hreceiver, Arena.node_of_none hreceiver]
    rfl
  | some receiver =>
    rw [Arena.after_cons_of_some hreceiver, Arena.node_of_some hreceiver, Arena.name?, hreceiver]
    change (dottedName arena receiver >>= _) = _
    rw [dottedName_eq, Arena.after_map]
    rfl

/-- At a node what is asked for is found, or the first of it that is missing is told. -/
theorem violationsAt_eq (block focus : List String) (arena : Arena) (id : NodeId) :
    violationsAt block focus arena id =
      arena.after (asked focus arena id) (foundAt block focus arena id) := by
  rw [asked, foundAt]
  cases hid : arena.node? id with
  | none =>
    rw [Arena.after_cons_of_none hid, violationsAt, Arena.node_of_none hid]
    rfl
  | some node =>
    rw [Arena.after_cons_of_some hid, violationsAt, Arena.node_of_some hid]
    change (arena.related node.parent >>= _) = _
    rw [related_eq]
    refine Arena.after_bind ?_
    simp only [examined?, Option.elim_some]
    -- Without an object or the name of a modifier no more is asked for.
    cases (node.parent.bind arena.node?).bind Node.object with
    | none =>
      simp only [ite_self]
      rfl
    | some object =>
      cases node.name with
      | none => rfl
      | some name =>
        by_cases hfocus : focus.contains name = true
        · simp only [Option.any_some, if_pos hfocus]
          exact goesBy_eq arena object fun direct dotted =>
            useOf block name node direct ++ useOf block name node dotted
        · simp only [Option.any_some, hfocus]
          rfl

theorem violationsAt_of_none (h : arena.node? id = none) :
    violationsAt block focus arena id = .error ⟨arena.size, id⟩ := by
  rw [violationsAt_eq, asked, Arena.after_cons_of_none h]

/-! ## Runs -/

theorem Arena.getElem?_ids {i : Nat} : arena.ids[i]? = some id ↔ i = id ∧ id < arena.size := by
  rw [Arena.ids, List.getElem?_eq_some_iff]
  simp only [List.length_range, List.getElem_range, exists_prop]
  exact ⟨fun ⟨hlt, heq⟩ => ⟨heq, heq ▸ hlt⟩, fun ⟨heq, hlt⟩ => ⟨heq ▸ hlt, heq⟩⟩

/-- At a name the rule fails for want of a node. -/
def FailsAtName (options : RuleOptions) (arena : Arena) (id : NodeId) (missing : MissingNode) : Prop :=
  ∃ node, arena.node id = .ok node ∧ node.kind = .identifier ∧
    violationsAt options.blockNames options.focusNames arena id = .error missing

variable {options : RuleOptions} {missing : MissingNode}

theorem reportsAt_eq_error_iff (h : id < arena.size) :
    (focusRule options).reportsAt arena id = .error missing ↔ FailsAtName options arena id missing := by
  obtain ⟨node, hnode⟩ := exists_node h
  simp only [FailsAtName, hnode, Except.ok.injEq, exists_eq_left']
  cases hviolations : violationsAt options.blockNames options.focusNames arena id with
  | ok violations => simp [focusRule_reportsAt hnode hviolations]
  | error first =>
    simp only [Rule.reportsAt, hnode, focusRule, hviolations, bind, Except.bind]
    by_cases hkind : node.kind = .identifier
    · simp [hkind]
    · simp [hkind, pure, Except.pure]

/-- A run of the rule fails as the first name does at which the rule fails. -/
theorem run_eq_error_iff :
    Linter.run [focusRule options] arena = .error missing ↔
      ∃ id, FailsAtName options arena id missing ∧
        ∀ earlier < id, ∀ other, ¬FailsAtName options arena earlier other := by
  have hends : ∀ {i : NodeId}, i < arena.size → ((∃ part, (focusRule options).reportsAt arena i = .ok part) ↔
      ∀ other, ¬FailsAtName options arena i other) := by
    intro i hi
    simp only [← reportsAt_eq_error_iff hi]
    cases (focusRule options).reportsAt arena i <;> simp
  rw [Linter.run_eq_reportsOn, Linter.reportsOn, Linter.joinAll_eq_error_iff]
  simp only [Linter.reportsAt_singleton, Arena.getElem?_ids]
  constructor
  · intro hgiven
    obtain ⟨i, id, ⟨rfl, hid⟩, hfails, hearlier⟩ := hgiven
    refine ⟨i, (reportsAt_eq_error_iff hid).mp hfails, fun j hj => ?_⟩
    have hlt : j < arena.size := Nat.lt_trans hj hid
    exact (hends hlt).mp (hearlier j hj j ⟨rfl, hlt⟩)
  · intro hgiven
    obtain ⟨id, hfails, hearlier⟩ := hgiven
    have hid : id < arena.size := by
      obtain ⟨node, hnode, -⟩ := hfails
      exact lt_size_of_node hnode
    refine ⟨id, id, ⟨rfl, hid⟩, (reportsAt_eq_error_iff hid).mpr hfails, ?_⟩
    rintro j hj _ ⟨rfl, hlt⟩
    exact (hends hlt).mpr (hearlier j hj)

/-! ## Trees without missing nodes -/

/-- What is reported at a node of which nothing that is asked for is missing. -/
def reportsFound (options : RuleOptions) (arena : Arena) (id : NodeId) : List Report :=
  (arena.node? id).elim [] fun node =>
    if node.kind = .identifier then
      (foundAt options.blockNames options.focusNames arena id).map fun violation => violation.report id node
    else []

/-- What is reported at the nodes of a tree of which nothing is missing, in document order. -/
def allReportsFound (options : RuleOptions) (arena : Arena) : List Report :=
  arena.ids.flatMap (reportsFound options arena)

theorem examined?_eq_some {node : Node} {object : NodeId} :
    examined? focus arena node = some object ↔ node.name.any focus.contains = true ∧
      ∃ above access, node.parent = some above ∧ arena.node? above = some access ∧ access.object = some object := by
  rw [examined?]
  split
  · next hfocus =>
    simp only [hfocus, true_and, Option.bind_eq_some_iff]
    constructor
    · rintro ⟨access, ⟨above, habove, haccess⟩, hobject⟩
      exact ⟨above, access, habove, haccess, hobject⟩
    · rintro ⟨above, access, habove, haccess, hobject⟩
      exact ⟨access, ⟨above, habove, haccess⟩, hobject⟩
  · next hfocus => simp [hfocus]

/-- If every link names a node, then what is asked for at a node is there. -/
theorem lt_size_of_asked (wellLinked : arena.WellLinked) (hid : id < arena.size) :
    ∀ other ∈ asked focus arena id, other < arena.size := by
  intro other hother
  rcases List.mem_cons.mp hother with rfl | hother
  · exact hid
  cases hnode : arena.node? id with
  | none => simp [hnode] at hother
  | some node =>
    rw [hnode, Option.elim_some, List.mem_append, Option.mem_toList] at hother
    rcases hother with hparent | hother
    · exact (wellLinked.linksBelow hnode).parent other hparent
    cases hexamined : examined? focus arena node with
    | none => simp [hexamined] at hother
    | some object =>
      obtain ⟨-, above, access, -, haccess, hobject⟩ := examined?_eq_some.mp hexamined
      rw [hexamined, Option.elim_some] at hother
      rcases List.mem_cons.mp hother with rfl | hother
      · exact (wellLinked.linksBelow haccess).object _ hobject
      cases hreceiver : arena.node? object with
      | none => simp [hreceiver] at hother
      | some receiver =>
        rw [hreceiver, Option.elim_some, dottedAsked, List.mem_append, Option.mem_toList, Option.mem_toList,
          Option.bind_eq_some_iff] at hother
        rcases hother with hproperty | ⟨_, -, hlink⟩
        · exact (wellLinked.linksBelow hreceiver).property other hproperty
        · exact (wellLinked.linksBelow hreceiver).object other hlink

theorem violationsAt_of_wellLinked (wellLinked : arena.WellLinked) (block focus : List String)
    (hid : id < arena.size) : violationsAt block focus arena id = .ok (foundAt block focus arena id) := by
  rw [violationsAt_eq, Arena.after_eq_ok_iff]
  exact ⟨lt_size_of_asked wellLinked hid, rfl⟩

theorem reportsAt_of_wellLinked (wellLinked : arena.WellLinked) (options : RuleOptions) (hid : id < arena.size) :
    (focusRule options).reportsAt arena id = .ok (reportsFound options arena id) := by
  obtain ⟨node, hnode⟩ := exists_node hid
  rw [focusRule_reportsAt hnode (violationsAt_of_wellLinked wellLinked _ _ hid), reportsFound,
    Arena.node?_of_ok hnode]
  rfl

/-- A run on a tree without missing nodes reports what is found at its nodes. -/
theorem run_of_wellLinked (wellLinked : arena.WellLinked) (options : RuleOptions) :
    Linter.run [focusRule options] arena = .ok (allReportsFound options arena) := by
  apply Linter.run_eq_flatMap
  intro id hid
  rw [Linter.reportsAt_singleton, reportsAt_of_wellLinked wellLinked options hid]

/-! ## What is found and what fails -/

/-- The trees that are built by adding nodes and setting the object and the property of one, with any links. -/
inductive Arena.Built : Arena → Prop
  | empty : Built .empty
  | addIdentifier {arena : Arena} (built : Built arena) (parent : Option NodeId) (name : String) (span : Span) :
      Built (arena.addIdentifier parent name span).2
  | addMember {arena : Arena} (built : Built arena) (parent : Option NodeId) (span : Span) :
      Built (arena.addMember parent span).2
  | addOther {arena : Arena} (built : Built arena) (parent : Option NodeId) (kind : String) (span : Span) :
      Built (arena.addOther parent kind span).2
  | setMemberParts {arena next : Arena} (built : Built arena) (member : NodeId) (object property : Option NodeId)
      (set : arena.setMemberParts member object property = .ok next) : Built next

/-- The tree of an access to `only` whose object `it` was itself given the parts of `test.describe`. -/
def twiceNamedTree : Arena :=
  ⟨#[⟨.memberExpression, none, none, some 1, some 2, ⟨0, 7⟩⟩,
    ⟨.identifier, some "it", some 0, some 3, some 4, ⟨0, 2⟩⟩,
    ⟨.identifier, some "only", some 0, none, none, ⟨3, 7⟩⟩,
    ⟨.identifier, some "test", none, none, none, ⟨8, 12⟩⟩,
    ⟨.identifier, some "describe", none, none, none, ⟨13, 21⟩⟩]⟩

theorem built_twiceNamedTree : twiceNamedTree.Built := by
  have hmember := Arena.Built.empty.addMember none ⟨0, 7⟩
  have hobject := hmember.addIdentifier (some 0) "it" ⟨0, 2⟩
  have hproperty := hobject.addIdentifier (some 0) "only" ⟨3, 7⟩
  have hsuite := hproperty.addIdentifier none "test" ⟨8, 12⟩
  have hkind := hsuite.addIdentifier none "describe" ⟨13, 21⟩
  have haccess := hkind.setMemberParts 0 (some 1) (some 2) rfl
  exact haccess.setMemberParts 1 (some 3) (some 4) rfl

/-- The rule fails with the first node that is missing among those that it asks for, and a run of it with what the
first name fails with. If none of them is missing it finds the use of a modifier on the name of the object and then
the one on its two names; there are trees on which it finds both. -/
theorem fails_at_first_missing (options : RuleOptions) (arena : Arena) :
    (∀ id missing, violationsAt options.blockNames options.focusNames arena id = .error missing ↔
      missing.size = arena.size ∧
        (asked options.focusNames arena id).find? arena.lacks = some missing.id) ∧
    (∀ id violations, violationsAt options.blockNames options.focusNames arena id = .ok violations ↔
      (∀ other ∈ asked options.focusNames arena id, other < arena.size) ∧
        violations = foundAt options.blockNames options.focusNames arena id) ∧
    (∀ missing, Linter.run [focusRule options] arena = .error missing ↔
      ∃ id, FailsAtName options arena id missing ∧
        ∀ earlier < id, ∀ other, ¬FailsAtName options arena earlier other) ∧
    ∃ (others : RuleOptions) (built : Arena) (id : NodeId) (direct dotted : Violation), built.Built ∧
      violationsAt others.blockNames others.focusNames built id = .ok [direct, dotted] := by
  refine ⟨fun id missing => ?_, fun id violations => ?_, fun missing => run_eq_error_iff, ?_⟩
  · rw [violationsAt_eq, Arena.after_eq_error_iff]
  · rw [violationsAt_eq, Arena.after_eq_ok_iff]
  · exact ⟨⟨some ["it", "test.describe"], none⟩, twiceNamedTree, 2, _, _, built_twiceNamedTree, rfl⟩

end FocusLint
