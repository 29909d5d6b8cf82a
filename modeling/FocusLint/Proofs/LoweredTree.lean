import FocusLint.Proofs.Places

/-!
The loops of lowering build what the paths of the concrete tree say.

Main statement: `lower_follows_paths`. The first loop makes one step for every concrete node and ends. The
lowered tree has one node for every place that is no parentheses, in document order, with the span of the
place, hanging off the node of its nearest ancestor that is no parentheses, and of the kind that the
triggers on its path decide.

The state of the first loop after some places is told by these places alone (`VisitedUpTo`): the nodes
added, the numbers given and the accesses met are read off them, and the stack holds the places whose
subtrees are still to come. The second loop then turns every node into what `Place.lowered` says
(`nodes_lower`), which is all that later results need.
-/

namespace FocusLint

open Syntax (Tree Field)

namespace Place

def pending (tree : Tree) (place : Place) : Pending :=
  ⟨place.node, place.parent?.bind fun parent => tree.number? parent.node.id, place.position⟩

/-- The number of what fills a field of a place, without its parentheses. -/
def link? (tree : Tree) (place : Place) (field : Field) : Option NodeId :=
  (place.node.filler? field).bind fun filler => tree.number? filler.bare.id

/-- The node that a place is lowered to, with its links. -/
def lowered (source : List Char) (tree : Tree) (place : Place) : Node :=
  match (place.pending tree).accessField? with
  | some field =>
    { (place.pending tree).lowered source with
      object := place.link? tree .object
      property := place.link? tree field }
  | none => (place.pending tree).lowered source

variable {tree : Tree} {place : Place}

theorem map_pending_children_of_parentheses (h : place.node.kind = parenthesesKind) :
    place.children.map (pending tree) = (place.pending tree).unwrapped := by
  have hparent : ∀ child, (⟨child, place.path⟩ : Place).parent? = place.parent? := by
    intro child
    simp [parent?, path, nearest?, h]
  have hposition : ∀ child, (⟨child, place.path⟩ : Place).position = place.position := by
    intro child
    simp [position, path, firstTrigger?, trigger?_of_parentheses h]
  simp [children, Pending.unwrapped, pending, hparent, hposition]

theorem position_child (tree child : Tree) :
    (⟨child, place.path⟩ : Place).position = (place.pending tree).childPosition child := by
  have hpath : firstTrigger? (⟨child, place.path⟩ : Place).path =
      (firstTrigger? place.path).or (trigger? place.node child) := rfl
  rw [position, hpath]
  simp only [Pending.childPosition, pending, position]
  rcases firstTrigger? place.path with _ | _ | _
  · by_cases hquery : place.node.kind = "type_query"
    · simp [trigger?, positionAfter, hquery]
    · by_cases htag : place.node.isTagName child = true <;>
        simp [trigger?, positionAfter, hquery, htag]
  · rfl
  · rfl

theorem map_pending_children (h : place.node.kind ≠ parenthesesKind) {number : NodeId}
    (hnumber : tree.number? place.node.id = some number) :
    place.children.map (pending tree) = (place.pending tree).below number := by
  have hparent : ∀ child, (⟨child, place.path⟩ : Place).parent? = some place := by
    intro child
    simp [parent?, path, nearest?, h]
  simp only [children, Pending.below, List.map_map]
  apply List.map_congr_left
  intro child _
  simp [pending, hparent, hnumber, position_child tree]

end Place

namespace Lowering

/-! ## The first loop -/

def steps (source : List Char) : Nat → Lowering → Option Lowering
  | 0, lowering => some lowering
  | n + 1, lowering => (lowering.step source).bind (steps source n)

/-- The accesses among some places, the first of which has the given number. -/
def accessesAmong (tree : Tree) (next : Nat) : List Place → List Access
  | [] => []
  | place :: others =>
    match (place.pending tree).accessField? with
    | some field => ⟨next, place.node, field⟩ :: accessesAmong tree (next + 1) others
    | none => accessesAmong tree (next + 1) others

theorem accessesAmong_append (tree : Tree) (next : Nat) (a b : List Place) :
    accessesAmong tree next (a ++ b) =
      accessesAmong tree next a ++ accessesAmong tree (next + a.length) b := by
  induction a generalizing next with
  | nil => simp [accessesAmong]
  | cons place a ih =>
    have hlength : next + (a.length + 1) = next + 1 + a.length := by omega
    simp only [List.cons_append, accessesAmong, List.length_cons, hlength, ih]
    split <;> rfl

/-- The state of the loop when some places were visited and others, with all below them, are still to
come. -/
structure VisitedUpTo (source : List Char) (tree : Tree) (done stack : List Place)
    (lowering : Lowering) : Prop where
  rest : tree.visited = done ++ (stack.flatMap Place.below).filter Place.isVisited
  stack : lowering.stack = stack.map (Place.pending tree)
  nodes : lowering.arena.nodes.toList = done.map fun place => (place.pending tree).lowered source
  numbers : ∀ id : Nat, lowering.numbers[id]? = done.findIdx? (·.node.id == id)
  accesses : lowering.accesses.toList = accessesAmong tree 0 done

variable {source : List Char} {tree : Tree} {place : Place} {done stack : List Place}
  {lowering : Lowering}

theorem visitedUpTo_start (source : List Char) (tree : Tree) :
    VisitedUpTo source tree [] [⟨tree, []⟩] (.start tree) where
  rest := by simp [Tree.visited, Tree.places, Place.below]
  stack := by simp [start, Place.pending, Place.parent?, Place.nearest?, Place.position, Place.path,
    firstTrigger?, positionAfter]
  nodes := rfl
  numbers := by simp [start]
  accesses := rfl

/-- Parentheses make way for what stands between them. -/
theorem VisitedUpTo.unwrap (h : VisitedUpTo source tree done (place :: stack) lowering)
    (hkind : place.node.kind = parenthesesKind) :
    VisitedUpTo source tree done (place.children ++ stack)
      { lowering with
        stack := Pending.push (stack.map (Place.pending tree)) (place.pending tree).unwrapped } where
  rest := by
    have hvisited : place.isVisited = false := by simp [Place.isVisited, hkind]
    rw [h.rest, List.flatMap_cons, Tree.below_eq, List.flatMap_append, List.cons_append,
      List.filter_cons_of_neg (by simp [hvisited])]
  stack := by
    rw [Pending.push_eq, List.map_append, Place.map_pending_children_of_parentheses hkind]
  nodes := h.nodes
  numbers := h.numbers
  accesses := h.accesses

/-- Any other place gets the next number, and its children come next. -/
theorem VisitedUpTo.add (h : VisitedUpTo source tree done (place :: stack) lowering)
    (unique : tree.ids.Nodup) (hkind : place.node.kind ≠ parenthesesKind) :
    VisitedUpTo source tree (done ++ [place]) (place.children ++ stack)
      { stack := Pending.push (stack.map (Place.pending tree))
          ((place.pending tree).below lowering.arena.size)
        arena := lowering.arena.push ((place.pending tree).lowered source)
        numbers := lowering.numbers.insert place.node.id lowering.arena.size
        accesses := match (place.pending tree).accessField? with
          | some field => lowering.accesses.push ⟨lowering.arena.size, place.node, field⟩
          | none => lowering.accesses } := by
  have hvisited : place.isVisited = true := by simp [Place.isVisited, hkind]
  have hsplit : tree.visited =
      done ++ place :: ((place.children ++ stack).flatMap Place.below).filter Place.isVisited := by
    rw [h.rest, List.flatMap_cons, Tree.below_eq, List.flatMap_append, List.cons_append,
      List.filter_cons_of_pos hvisited]
  -- The next number is the count of the places before, in the arena as in the list.
  have hsize : lowering.arena.size = done.length := by
    rw [Arena.size, ← Array.length_toList, h.nodes, List.length_map]
  have hnumber := Tree.number?_of_split unique hsplit
  rw [hsize]
  constructor
  · rw [hsplit, List.append_assoc, List.singleton_append]
  · rw [Pending.push_eq, List.map_append, Place.map_pending_children hkind hnumber]
  · simp [Arena.push, h.nodes]
  · intro id
    rw [Std.HashMap.getElem?_insert, List.findIdx?_append, h.numbers]
    by_cases hid : place.node.id = id
    · subst hid
      rw [Tree.findIdx?_before unique hsplit]
      simp [List.findIdx?_cons]
    · simp [hid, List.findIdx?_cons]
  · rw [accessesAmong_append, ← h.accesses]
    cases hfield : (place.pending tree).accessField? with
    | none => simp [accessesAmong, hfield]
    | some field => simp [accessesAmong, hfield]

theorem VisitedUpTo.step (h : VisitedUpTo source tree done (place :: stack) lowering)
    (unique : tree.ids.Nodup) :
    ∃ next done' stack', lowering.step source = some next ∧
      VisitedUpTo source tree done' stack' next := by
  have hstep : lowering.step source =
      some (lowering.visit source (place.pending tree) (stack.map (Place.pending tree))) := by
    rw [Lowering.step, h.stack, List.map_cons]
  rw [hstep]
  by_cases hkind : place.node.kind = parenthesesKind
  · refine ⟨_, done, place.children ++ stack, rfl, ?_⟩
    rw [visit, if_pos (by exact hkind)]
    exact h.unwrap hkind
  · refine ⟨_, done ++ [place], place.children ++ stack, rfl, ?_⟩
    rw [visit, if_neg (by exact hkind)]
    exact h.add unique hkind

theorem loop_of_step_none (hnone : lowering.step source = none) : loop source lowering = lowering := by
  rw [loop]
  split
  · rfl
  · next next hnext => rw [hnone] at hnext; cases hnext

theorem loop_of_step_some {next : Lowering} (hsome : lowering.step source = some next) :
    loop source lowering = loop source next := by
  rw [loop]
  split
  · next hnone => rw [hsome] at hnone; cases hnone
  · next next' hnext => rw [hsome] at hnext; cases hnext; rfl

/-- The loop makes one step for every concrete node that is still to come, and then ends with all places
visited. -/
theorem VisitedUpTo.run (h : VisitedUpTo source tree done stack lowering) (unique : tree.ids.Nodup) :
    steps source (Pending.work lowering.stack) lowering = some (loop source lowering) ∧
      VisitedUpTo source tree tree.visited [] (loop source lowering) := by
  -- On the number of concrete nodes that are still to be visited, which every step lowers by one.
  generalize hwork : Pending.work lowering.stack = n
  induction n generalizing done stack lowering with
  | zero =>
    cases stack with
    | nil =>
      have hempty : lowering.stack = [] := h.stack
      have hdone : tree.visited = done := by simpa using h.rest
      rw [loop_of_step_none (by simp [Lowering.step, hempty]), hdone]
      exact ⟨rfl, h⟩
    | cons place stack =>
      rw [h.stack, List.map_cons, Pending.work, Pending.count_eq] at hwork
      omega
  | succ n ih =>
    cases stack with
    | nil =>
      have hempty : lowering.stack = [] := h.stack
      rw [hempty, Pending.work] at hwork
      omega
    | cons place stack =>
      obtain ⟨next, done', stack', hstep, hnext⟩ := h.step unique
      have hless := work_step hstep
      obtain ⟨hsteps, hvisited⟩ := ih hnext (by omega)
      rw [loop_of_step_some hstep]
      refine ⟨?_, hvisited⟩
      rw [steps, hstep, Option.bind_some, hsteps]

/-! ## The second loop -/

/-- Setting the links of an access that was added changes its node and no other. -/
theorem setLinks_eq (hnumbers : ∀ id : Nat, lowering.numbers[id]? = tree.number? id) {arena : Arena}
    {before behind : List Node} {field : Field} (hfield : (place.pending tree).accessField? = some field)
    (hnodes : arena.nodes.toList = before ++ (place.pending tree).lowered source :: behind) :
    ∃ arena', lowering.setLinks arena ⟨before.length, place.node, field⟩ = .ok arena' ∧
      arena'.nodes.toList = before ++ place.lowered source tree :: behind := by
  have hlink : ∀ field, lowering.link? place.node field = place.link? tree field := by
    intro field
    simp [link?, Place.link?, hnumbers]
  have hget : arena.nodes[before.length]? = some ((place.pending tree).lowered source) := by
    rw [← Array.getElem?_toList, hnodes]
    simp
  refine ⟨⟨arena.nodes.setIfInBounds before.length (place.lowered source tree)⟩, ?_, ?_⟩
  · simp [setLinks, Arena.setMemberParts, hget, hlink, Place.lowered, hfield]
  · simp [hnodes]

theorem foldlM_setLinks (source : List Char)
    (hnumbers : ∀ id : Nat, lowering.numbers[id]? = tree.number? id)
    (linked rest : List Place) (arena : Arena)
    (hnodes : arena.nodes.toList = linked.map (Place.lowered source tree) ++
      rest.map fun place => (place.pending tree).lowered source) :
    ∃ arena', (accessesAmong tree linked.length rest).foldlM lowering.setLinks arena = .ok arena' ∧
      arena'.nodes.toList = (linked ++ rest).map (Place.lowered source tree) := by
  -- On the places without links yet; those before them are done and stay as they are.
  induction rest generalizing linked arena with
  | nil => exact ⟨arena, rfl, by simpa using hnodes⟩
  | cons place rest ih =>
    have hlength : (linked ++ [place]).length = linked.length + 1 := by simp
    have hassoc : linked ++ [place] ++ rest = linked ++ place :: rest := by simp
    cases hfield : (place.pending tree).accessField? with
    | none =>
      have hsame : place.lowered source tree = (place.pending tree).lowered source := by
        simp [Place.lowered, hfield]
      obtain ⟨arena', hrun, hnodes'⟩ := ih (linked ++ [place]) arena (by simp [hnodes, hsame])
      rw [hlength] at hrun
      rw [hassoc] at hnodes'
      exact ⟨arena', by simpa [accessesAmong, hfield] using hrun, hnodes'⟩
    | some field =>
      obtain ⟨next, hset, hnext⟩ := setLinks_eq hnumbers hfield hnodes
      rw [List.length_map] at hset
      obtain ⟨arena', hrun, hnodes'⟩ := ih (linked ++ [place]) next (by simp [hnext])
      rw [hlength] at hrun
      rw [hassoc] at hnodes'
      refine ⟨arena', ?_, hnodes'⟩
      simpa [accessesAmong, hfield, hset, bind, Except.bind] using hrun

end Lowering

/-! ## The lowered tree -/

variable {source : List Char} {tree : Tree}

/-- The nodes of the lowered tree are those of the places that are no parentheses, in order. -/
theorem nodes_lower (source : List Char) (unique : tree.ids.Nodup) :
    (lower source tree).nodes.toList = tree.visited.map (Place.lowered source tree) := by
  obtain ⟨-, h⟩ := (Lowering.visitedUpTo_start source tree).run unique
  obtain ⟨arena, hlinked, hnodes⟩ := Lowering.foldlM_setLinks source
    (fun id => h.numbers id) [] tree.visited _ (by simpa using h.nodes)
  have hlower : lower source tree = arena := by
    simp only [lower, Lowering.linked, h.accesses]
    rw [show (0 : Nat) = ([] : List Place).length from rfl, hlinked]
  rw [hlower, hnodes, List.nil_append]

/-- The lowered tree by the places alone, which can be computed. -/
theorem lower_eq (source : List Char) (unique : tree.ids.Nodup) :
    lower source tree = ⟨(tree.visited.map (Place.lowered source tree)).toArray⟩ := by
  rw [← nodes_lower source unique]

theorem size_lower (source : List Char) (unique : tree.ids.Nodup) :
    (lower source tree).size = tree.visited.length := by
  rw [Arena.size, ← Array.length_toList, nodes_lower source unique, List.length_map]

theorem node_lower (source : List Char) (unique : tree.ids.Nodup) {number : NodeId} {place : Place}
    (h : tree.visited[number]? = some place) :
    (lower source tree).node number = .ok (place.lowered source tree) := by
  have hget : (lower source tree).nodes[number]? = some (place.lowered source tree) := by
    rw [← Array.getElem?_toList, nodes_lower source unique, List.getElem?_map, h, Option.map_some]
  simp [Arena.node, hget]

theorem exists_place_of_node (source : List Char) (unique : tree.ids.Nodup) {number : NodeId}
    {node : Node} (h : (lower source tree).node number = .ok node) :
    ∃ place, tree.visited[number]? = some place ∧ place.lowered source tree = node := by
  have hnodes : (lower source tree).nodes[number]? =
      (tree.visited[number]?).map (Place.lowered source tree) := by
    rw [← Array.getElem?_toList, nodes_lower source unique, List.getElem?_map]
  cases hget : tree.visited[number]? with
  | none =>
    rw [hget, Option.map_none] at hnodes
    rw [Arena.node, hnodes] at h
    cases h
  | some place =>
    rw [node_lower source unique hget] at h
    cases h
    exact ⟨place, rfl, rfl⟩

namespace Place

variable {place : Place}

theorem accessField?_pending :
    (place.pending tree).accessField? =
      if place.position = .expression then place.node.propertyField? else none := rfl

theorem accessField?_eq_some {field : Field} :
    (place.pending tree).accessField? = some field ↔
      place.position = .expression ∧ place.node.propertyField? = some field := by
  rw [accessField?_pending]
  split <;> simp [*]

theorem exists_accessField?_iff :
    (∃ field, (place.pending tree).accessField? = some field) ↔
      firstTrigger? place.path = none ∧ place.node.IsAccess := by
  simp only [accessField?_eq_some, exists_and_left, Tree.isAccess_iff, position_eq_expression_iff]

theorem accessField?_eq_none_iff :
    (place.pending tree).accessField? = none ↔
      ¬ (firstTrigger? place.path = none ∧ place.node.IsAccess) := by
  rw [← exists_accessField?_iff, ← Option.not_isSome_iff_eq_none, Option.isSome_iff_exists]

theorem lowered_of_access {field : Field} (h : (place.pending tree).accessField? = some field) :
    place.lowered source tree =
      ⟨.memberExpression, none, place.parent?.bind fun parent => tree.number? parent.node.id,
        place.link? tree .object, place.link? tree field, place.node.span⟩ := by
  simp only [lowered, Pending.lowered, h, Option.isSome_some, if_true]
  rfl

theorem lowered_of_identifier (hkind : place.node.kind ∈ identifierKinds)
    (hposition : firstTrigger? place.path ≠ some .tagName) :
    place.lowered source tree =
      ⟨.identifier, some (place.node.text source),
        place.parent?.bind fun parent => tree.number? parent.node.id, none, none, place.node.span⟩ := by
  have hnone : (place.pending tree).accessField? = none :=
    accessField?_eq_none_iff.mpr fun h => h.2.not_mem_identifierKinds hkind
  rw [Ne, ← position_eq_tagName_iff] at hposition
  have hcond :
      (identifierKinds.contains place.node.kind && decide (place.position ≠ .tagName)) = true := by
    simp [hkind, hposition]
  simp only [lowered, Pending.lowered, hnone, Option.isSome_none, Bool.false_eq_true, if_false]
  exact if_pos hcond

theorem lowered_of_other (haccess : ¬ (firstTrigger? place.path = none ∧ place.node.IsAccess))
    (hname : ¬ (place.node.kind ∈ identifierKinds ∧ firstTrigger? place.path ≠ some .tagName)) :
    place.lowered source tree =
      ⟨.other place.node.kind, none, place.parent?.bind fun parent => tree.number? parent.node.id,
        none, none, place.node.span⟩ := by
  have hnone : (place.pending tree).accessField? = none := accessField?_eq_none_iff.mpr haccess
  rw [Ne, ← position_eq_tagName_iff] at hname
  have hcond :
      ¬ (identifierKinds.contains place.node.kind && decide (place.position ≠ .tagName)) = true := by
    simpa using hname
  simp only [lowered, Pending.lowered, hnone, Option.isSome_none, Bool.false_eq_true, if_false]
  exact if_neg hcond

theorem lowered_cases (source : List Char) (tree : Tree) (place : Place) :
    (∃ field, (place.pending tree).accessField? = some field ∧ place.lowered source tree =
      ⟨.memberExpression, none, place.parent?.bind fun parent => tree.number? parent.node.id,
        place.link? tree .object, place.link? tree field, place.node.span⟩) ∨
    ((place.node.kind ∈ identifierKinds ∧ firstTrigger? place.path ≠ some .tagName) ∧
      place.lowered source tree =
        ⟨.identifier, some (place.node.text source),
          place.parent?.bind fun parent => tree.number? parent.node.id, none, none, place.node.span⟩) ∨
    (¬ (firstTrigger? place.path = none ∧ place.node.IsAccess) ∧
      ¬ (place.node.kind ∈ identifierKinds ∧ firstTrigger? place.path ≠ some .tagName) ∧
      place.lowered source tree =
        ⟨.other place.node.kind, none, place.parent?.bind fun parent => tree.number? parent.node.id,
          none, none, place.node.span⟩) := by
  by_cases haccess : ∃ field, (place.pending tree).accessField? = some field
  · obtain ⟨field, hfield⟩ := haccess
    exact Or.inl ⟨field, hfield, lowered_of_access hfield⟩
  · rw [exists_accessField?_iff] at haccess
    by_cases hname : place.node.kind ∈ identifierKinds ∧ firstTrigger? place.path ≠ some .tagName
    · exact Or.inr (Or.inl ⟨hname, lowered_of_identifier hname.1 hname.2⟩)
    · exact Or.inr (Or.inr ⟨haccess, hname, lowered_of_other haccess hname⟩)

theorem links_lowered_of_none (h : (place.pending tree).accessField? = none) :
    (place.lowered source tree).object = none ∧ (place.lowered source tree).property = none := by
  rcases place.lowered_cases source tree with ⟨field, hfield, _⟩ | ⟨_, heq⟩ | ⟨_, _, heq⟩
  · rw [h] at hfield
    cases hfield
  · simp [heq]
  · simp [heq]

@[simp] theorem span_lowered : (place.lowered source tree).span = place.node.span := by
  rcases place.lowered_cases source tree with ⟨_, _, h⟩ | ⟨_, h⟩ | ⟨_, _, h⟩ <;> rw [h]

@[simp] theorem parent_lowered :
    (place.lowered source tree).parent = place.parent?.bind fun parent => tree.number? parent.node.id := by
  rcases place.lowered_cases source tree with ⟨_, _, h⟩ | ⟨_, h⟩ | ⟨_, _, h⟩ <;> rw [h]

theorem kind_lowered_eq_memberExpression :
    (place.lowered source tree).kind = .memberExpression ↔
      firstTrigger? place.path = none ∧ place.node.IsAccess := by
  rcases place.lowered_cases source tree with ⟨field, hfield, h⟩ | ⟨hname, h⟩ | ⟨haccess, _, h⟩
  · simp [h, exists_accessField?_iff.mp ⟨field, hfield⟩]
  · have hnot : ¬ place.node.IsAccess := fun h => h.not_mem_identifierKinds hname.1
    simp [h, hnot]
  · simp [h, haccess]

theorem kind_lowered_eq_identifier :
    (place.lowered source tree).kind = .identifier ↔
      place.node.kind ∈ identifierKinds ∧ firstTrigger? place.path ≠ some .tagName := by
  rcases place.lowered_cases source tree with ⟨field, hfield, h⟩ | ⟨hname, h⟩ | ⟨_, hname, h⟩
  · have hnot := (exists_accessField?_iff.mp ⟨field, hfield⟩).2.not_mem_identifierKinds
    simp [h, hnot]
  · simp [h, hname]
  · simp [h, hname]

theorem name_lowered :
    (place.lowered source tree).name =
      if (place.lowered source tree).kind = .identifier then some (place.node.text source) else none := by
  rcases place.lowered_cases source tree with ⟨_, _, h⟩ | ⟨_, h⟩ | ⟨_, _, h⟩ <;> simp [h]

end Place

variable {place : Place}

theorem parent_lowered_eq_some (unique : tree.ids.Nodup) (hplace : place ∈ tree.places) {above : NodeId} :
    (place.lowered source tree).parent = some above ↔
      ∃ parent, place.parent? = some parent ∧ tree.visited[above]? = some parent := by
  rw [Place.parent_lowered, Option.bind_eq_some_iff]
  refine exists_congr fun parent => and_congr_right fun hparent => ?_
  exact Tree.number?_eq_some_iff unique (Tree.mem_visited.mp (Tree.parent_mem_visited hplace hparent)).1

theorem parent_lowered_eq_none (unique : tree.ids.Nodup) (hplace : place ∈ tree.places) :
    (place.lowered source tree).parent = none ↔ place.parent? = none := by
  rw [Place.parent_lowered, Option.bind_eq_none_iff]
  constructor
  · intro hnone
    cases hparent : place.parent? with
    | none => rfl
    | some parent =>
      obtain ⟨number, hnumber, -⟩ :=
        Tree.number?_of_mem unique (Tree.parent_mem_visited hplace hparent)
      rw [hnone parent hparent] at hnumber
      cases hnumber
  · intro hnone parent hparent
    rw [hnone] at hparent
    cases hparent

theorem exists_accessField?_of_link (h : (place.lowered source tree).object ≠ none ∨
    (place.lowered source tree).property ≠ none) :
    ∃ field, (place.pending tree).accessField? = some field := by
  rw [← Option.isSome_iff_exists]
  by_contra hnone
  rw [Option.not_isSome_iff_eq_none] at hnone
  obtain ⟨hobject, hproperty⟩ := Place.links_lowered_of_none hnone
  exact h.elim (absurd hobject) (absurd hproperty)

theorem kind_lowered_of_link (h : (place.lowered source tree).object ≠ none ∨
    (place.lowered source tree).property ≠ none) :
    (place.lowered source tree).kind = .memberExpression :=
  Place.kind_lowered_eq_memberExpression.mpr
    (Place.exists_accessField?_iff.mp (exists_accessField?_of_link h))

theorem exists_field_of_link {number : NodeId}
    (h : (place.lowered source tree).object = some number ∨
      (place.lowered source tree).property = some number) :
    ∃ field, place.node.propertyField? = some field ∧
      (place.lowered source tree).object = place.link? tree .object ∧
      (place.lowered source tree).property = place.link? tree field := by
  have hlinks : (place.lowered source tree).object ≠ none ∨ (place.lowered source tree).property ≠ none :=
    h.imp (fun hobject => by simp [hobject]) (fun hproperty => by simp [hproperty])
  obtain ⟨field, hfield⟩ := exists_accessField?_of_link hlinks
  exact ⟨field, (Place.accessField?_eq_some.mp hfield).2, by rw [Place.lowered_of_access hfield],
    by rw [Place.lowered_of_access hfield]⟩

/-- A link names the place of what fills the field, without its parentheses. -/
theorem exists_filler_of_link (unique : tree.ids.Nodup) (hplace : place ∈ tree.places) {field : Field}
    {number : NodeId} (h : place.link? tree field = some number) :
    ∃ filler found, place.node.filler? field = some filler ∧ tree.visited[number]? = some found ∧
      found.node = filler.bare := by
  obtain ⟨filler, hfiller, hnumber⟩ := Option.bind_eq_some_iff.mp h
  obtain ⟨found, hfound, hnode⟩ := Tree.exists_place_of_bare_filler hplace hfiller
  rw [← hnode, Tree.number?_eq_some_iff unique hfound] at hnumber
  exact ⟨filler, found, hfiller, hnumber, hnode⟩

theorem exists_link_of_filler (unique : tree.ids.Nodup) (hplace : place ∈ tree.places) {field : Field}
    {filler : Tree} (hfiller : place.node.filler? field = some filler)
    (hkind : filler.bare.kind ≠ parenthesesKind) :
    ∃ number found, place.link? tree field = some number ∧ tree.visited[number]? = some found ∧
      found.node = filler.bare := by
  obtain ⟨found, hfound, hnode⟩ := Tree.exists_place_of_bare_filler hplace hfiller
  rw [← hnode] at hkind
  obtain ⟨number, hnumber, hget⟩ := Tree.number?_of_mem unique (Tree.mem_visited.mpr ⟨hfound, hkind⟩)
  refine ⟨number, found, ?_, hget, hnode⟩
  rw [Place.link?, hfiller, Option.bind_some, ← hnode, hnumber]

/-! ## Paths decide -/

/-- For any concrete tree without repeated numbers the loop of lowering ends, after one step for every
concrete node. The tree it builds has exactly one node for every place that is no parentheses, in document
order, with the span of the place and below the node of the nearest ancestor that is no parentheses. The
node is an access if no trigger is on the path to the place and the place is one, a name if the kind of
the place is one of a name and the first trigger is no tag name, and of no concern otherwise. -/
theorem lower_follows_paths (source : List Char) (tree : Tree) (unique : tree.ids.Nodup) :
    (∃ last, Lowering.steps source tree.count (.start tree) = some last ∧ last.stack = [] ∧
      last = Lowering.loop source (.start tree)) ∧
    (lower source tree).size = tree.visited.length ∧
    ∀ number place, tree.visited[number]? = some place →
      ∃ node, (lower source tree).node number = .ok node ∧
        node.span = place.node.span ∧
        (place.parent? = none → node.parent = none) ∧
        (∀ parent, place.parent? = some parent →
          ∃ above, node.parent = some above ∧ tree.visited[above]? = some parent) ∧
        (node.kind = .memberExpression ↔
          firstTrigger? place.path = none ∧ place.node.IsAccess) ∧
        (node.kind = .identifier ↔
          place.node.kind ∈ identifierKinds ∧ firstTrigger? place.path ≠ some .tagName) ∧
        node.name = (if node.kind = .identifier then some (place.node.text source) else none) ∧
        (node.kind ≠ .memberExpression → node.kind ≠ .identifier →
          node.kind = .other place.node.kind) := by
  obtain ⟨hsteps, hvisited⟩ := (Lowering.visitedUpTo_start source tree).run unique
  refine ⟨⟨_, ?_, hvisited.stack, rfl⟩, size_lower source unique, ?_⟩
  · simpa [Lowering.start, Pending.work] using hsteps
  · intro number place hplace
    refine ⟨_, node_lower source unique hplace, Place.span_lowered, ?_, ?_,
      Place.kind_lowered_eq_memberExpression, Place.kind_lowered_eq_identifier, Place.name_lowered, ?_⟩
    · intro hnone
      simp [hnone]
    · intro parent hparent
      have hmem := (Tree.mem_visited.mp (List.mem_of_getElem? hplace)).1
      obtain ⟨above, hnumber, habove⟩ :=
        Tree.number?_of_mem unique (Tree.parent_mem_visited hmem hparent)
      exact ⟨above, by simp [hparent, hnumber], habove⟩
    · intro haccess hname
      rcases place.lowered_cases source tree with ⟨_, _, h⟩ | ⟨_, h⟩ | ⟨_, _, h⟩
      · simp [h] at haccess
      · simp [h] at hname
      · rw [h]

/-- The concrete tree of `(<a.b/>)`: an access that is the name of a tag between parentheses. -/
def dottedTag : Tree :=
  .node 0 [] "program" ⟨0, 8⟩
    [.node 1 [] parenthesesKind ⟨0, 8⟩
      [.node 2 [] "jsx_self_closing_element" ⟨1, 7⟩
        [.node 3 [.name] "member_expression" ⟨2, 5⟩
          [.node 4 [.object] "identifier" ⟨2, 3⟩ [],
            .node 5 [.property] "property_identifier" ⟨4, 5⟩ []]]]]

/-- The object in that tag is no name: it is lowered to a node of no concern, below that of the access. -/
theorem lower_follows_paths_dottedTag : dottedTag.ids.Nodup ∧
    (lower "(<a.b/>)".toList dottedTag).size = 5 ∧
    ∃ node, (lower "(<a.b/>)".toList dottedTag).node 3 = .ok node ∧
      node.kind = .other "identifier" ∧ node.parent = some 2 := by
  have unique : dottedTag.ids.Nodup := by decide
  obtain ⟨-, hsize, hnodes⟩ := lower_follows_paths "(<a.b/>)".toList dottedTag unique
  obtain ⟨node, hnode, -, -, hparent, haccess, hname, -, hother⟩ := hnodes 3 _ rfl
  obtain ⟨above, habove, hget⟩ := hparent _ rfl
  refine ⟨unique, hsize, node, hnode, hother ?_ ?_, ?_⟩
  · rw [Ne, haccess]
    intro hgiven
    obtain ⟨htrigger, -⟩ := hgiven
    exact absurd htrigger (by decide)
  · rw [Ne, hname]
    intro hgiven
    obtain ⟨-, htrigger⟩ := hgiven
    exact htrigger (by decide)
  · have hnumber := Tree.number?_of_getElem? unique hget
    rw [habove, ← hnumber]
    rfl

end FocusLint
