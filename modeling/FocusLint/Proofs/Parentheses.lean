import FocusLint.Proofs.Comments

/-!
Parentheses are not seen.

Main statement: `lower_foldl_wrap`. A tree with parentheses put around nodes of it, anywhere and as many as one
likes, is lowered to the very tree that it is lowered to without them.

Lowering meets parentheses in three ways. What fills a field is looked up with the parentheses around it, and then
these are taken away (`fillerAmong_parenthesized`, `bare_parenthesized`); whether a child is the name of a tag is
asked of the parentheses around it (`name_parenthesized`); and in the first loop parentheses make way for what
stands between them. So a state of the loop with the added parentheses corresponds to one of the loop without
(`Lowering.Same`), where a step that takes added parentheses away corresponds to no step (`Lowering.Same.step`).
-/

namespace FocusLint

open Syntax (Tree Field)

/-- A tree and the same one with parentheses around nodes of it, which take the place of these nodes and the fields
that these fill. Nothing is said of the fields of the two roots: a node keeps none of them between its own
parentheses, but that it hands its property on. -/
inductive Parenthesized : Tree → Tree → Prop
  | node {id : Nat} {fields fields' : List Field} {kind : String} {span : Span} {children children' : List Tree}
      (below : List.Forall₂ Parenthesized children children')
      (sameFields : children'.map Tree.fields = children.map Tree.fields) :
      Parenthesized (.node id fields kind span children) (.node id fields' kind span children')
  | around {tree inner : Tree} {id : Nat} {fields : List Field} {span : Span} (within : Parenthesized tree inner)
      (handsOn : inner.fields = fields.filter (· == .sharedProperty)) :
      Parenthesized tree (.node id fields parenthesesKind span [inner])

/-- Two nodes that differ at most in parentheses below them. -/
structure Alike (tree tree' : Tree) : Prop where
  id : tree'.id = tree.id
  kind : tree'.kind = tree.kind
  span : tree'.span = tree.span
  children : List.Forall₂ Parenthesized tree.children tree'.children
  fields : tree'.children.map Tree.fields = tree.children.map Tree.fields

variable {tree tree' : Tree} {trees trees' : List Tree} {field : Field}

theorem Parenthesized.alike_or_around (h : Parenthesized tree tree') :
    Alike tree tree' ∨
      ∃ inner, tree'.kind = parenthesesKind ∧ tree'.children = [inner] ∧ Parenthesized tree inner := by
  cases h with
  | node below sameFields => exact Or.inl ⟨rfl, rfl, rfl, below, sameFields⟩
  | around within handsOn => exact Or.inr ⟨_, rfl, rfl, within⟩

namespace Syntax.Tree

theorem filling?_eq (tree : Tree) (field : Field) :
    tree.filling? field = if tree.fields.contains field then some tree
      else if field = .property && tree.fields.contains .sharedProperty then fillerAmong field tree.children
      else none := by
  cases tree with
  | node id fields kind span children => rw [filling?, Tree.fields, Tree.children]

-- The recursion is on the second tree, which has the parentheses.
mutual

/-- A node that hands its property on hands it on from between parentheses too. -/
theorem handedOn_parenthesized : ∀ {tree' tree : Tree}, Parenthesized tree tree' →
    Field.property ∉ tree'.fields → Field.sharedProperty ∈ tree'.fields →
      Option.Rel Parenthesized (fillerAmong .property tree.children) (fillerAmong .property tree'.children)
  | .node _ _ _ _ _, _, .node below sameFields, _, _ => fillerAmong_parenthesized below sameFields
  | .node _ fields' _ _ [inner], _, .around within handsOn, _, hshared => by
    have hown : Field.property ∉ inner.fields := by simp [handsOn]
    have hinner : Field.sharedProperty ∈ inner.fields := by
      rw [handsOn]
      exact List.mem_filter.mpr ⟨hshared, rfl⟩
    rw [Tree.children, fillerAmong, fillerAmong, Option.or_none, filling?_eq, if_neg (by simpa using hown),
      if_pos (by simpa using hinner)]
    exact handedOn_parenthesized within hown hinner

theorem fillerAmong_parenthesized {field : Field} : ∀ {trees' trees : List Tree},
    List.Forall₂ Parenthesized trees trees' → trees'.map Tree.fields = trees.map Tree.fields →
      Option.Rel Parenthesized (fillerAmong field trees) (fillerAmong field trees')
  | [], _, .nil, _ => .none
  | tree' :: _, tree :: _, .cons hchild others, hfields => by
    obtain ⟨hsame, hothers⟩ := List.cons.inj hfields
    rw [fillerAmong, fillerAmong, filling?_eq tree, filling?_eq tree', ← hsame]
    refine rel_or ?_ (fillerAmong_parenthesized others hothers)
    split
    case isTrue => exact .some hchild
    case isFalse hown =>
      split
      case isTrue hshared =>
        have hproperty : field = .property ∧ Field.sharedProperty ∈ tree'.fields := by simpa using hshared
        rw [hproperty.1] at hown ⊢
        exact handedOn_parenthesized hchild (by simpa using hown) hproperty.2
      case isFalse => exact .none

end

/-- Taking parentheses away leaves the same node, however many there are. -/
theorem bare_parenthesized (h : Parenthesized tree tree') :
    tree'.bare.id = tree.bare.id ∧ tree'.bare.kind = tree.bare.kind := by
  induction tree' using Tree.bare.induct generalizing tree with
  | case1 id' fields' kind span' =>
    cases h with
    | node below sameFields =>
      cases below
      exact ⟨rfl, rfl⟩
  | case2 id' fields' span' first' others' ih =>
    rw [bare, if_pos rfl]
    cases h with
    | node below sameFields =>
      cases below with
      | cons hfirst hothers =>
        rw [bare, if_pos rfl]
        exact ih hfirst
    | around within handsOn => exact ih within
  | case3 id' fields' kind span' first' others' hkind =>
    cases h with
    | node below sameFields =>
      rw [bare_of_ne (by exact hkind), bare_of_ne (by exact hkind)]
      exact ⟨rfl, rfl⟩
    | around within handsOn => exact absurd rfl hkind

/-! ## Tags -/

theorem filling?_name (tree : Tree) :
    tree.filling? .name = if tree.fields.contains .name then some tree else none := by
  rw [filling?_eq]
  rfl

theorem mem_of_fillerAmong_name {filler : Tree} (h : fillerAmong .name trees = some filler) : filler ∈ trees := by
  induction trees with
  | nil => cases h
  | cons tree others ih =>
    rw [fillerAmong, filling?_name, Option.or_eq_some_iff] at h
    rcases h with hfirst | ⟨-, hothers⟩
    · split at hfirst
      case isTrue =>
        cases hfirst
        exact List.mem_cons_self
      case isFalse => cases hfirst
    · exact List.mem_cons_of_mem _ (ih hothers)

theorem name_ne_of_not_mem {other : Tree} (h : other.id ∉ trees.map Tree.id) :
    ((fillerAmong .name trees).map Tree.id == some other.id) = false := by
  rw [beq_eq_false_iff_ne]
  intro heq
  obtain ⟨filler, hfiller, hid⟩ := Option.map_eq_some_iff.mp heq
  exact h (List.mem_map.mpr ⟨filler, mem_of_fillerAmong_name hfiller, hid⟩)

theorem name_parenthesized (h : List.Forall₂ Parenthesized trees trees')
    (sameFields : trees'.map Tree.fields = trees.map Tree.fields) (unique : (trees.map Tree.id).Nodup)
    (unique' : (trees'.map Tree.id).Nodup) :
    ∀ pair ∈ trees.zip trees', ((fillerAmong .name trees').map Tree.id == some pair.2.id) =
      ((fillerAmong .name trees).map Tree.id == some pair.1.id) := by
  induction h with
  | nil => simp
  | @cons child child' others others' hchild hothers ih =>
    obtain ⟨hsame, hfields⟩ := List.cons.inj sameFields
    rw [List.map_cons, List.nodup_cons] at unique unique'
    rw [fillerAmong, fillerAmong, filling?_name, filling?_name, hsame, List.zip_cons_cons, List.forall_mem_cons]
    split
    case isTrue =>
      refine ⟨by simp, fun pair hpair => ?_⟩
      obtain ⟨hfirst, hsecond⟩ : pair.1 ∈ others ∧ pair.2 ∈ others' := List.of_mem_zip hpair
      have hne : child.id ≠ pair.1.id := fun heq => unique.1 (heq ▸ List.mem_map_of_mem hfirst)
      have hne' : child'.id ≠ pair.2.id := fun heq => unique'.1 (heq ▸ List.mem_map_of_mem hsecond)
      simp [hne, hne']
    case isFalse =>
      rw [Option.none_or, Option.none_or, name_ne_of_not_mem unique.1, name_ne_of_not_mem unique'.1]
      exact ⟨rfl, ih hfields unique.2 unique'.2⟩

/-! ## Numbers -/

mutual

theorem map_id_placesUnder (above : List Tree) : ∀ tree : Tree,
    (tree.placesUnder above).map (·.node.id) = tree.ids
  | .node id fields kind span children => by
    rw [ids, places, placesUnder, placesUnder, List.map_cons, List.map_cons, map_id_placesUnderAll,
      map_id_placesUnderAll]

theorem map_id_placesUnderAll (above : List Tree) : ∀ trees : List Tree,
    (placesUnderAll above trees).map (·.node.id) = trees.flatMap ids
  | [] => rfl
  | tree :: others => by
    rw [placesUnderAll, List.map_append, map_id_placesUnder, map_id_placesUnderAll, List.flatMap_cons]

end

theorem ids_eq (tree : Tree) : tree.ids = tree.id :: tree.children.flatMap ids := by
  cases tree with
  | node id fields kind span children =>
    rw [ids, places, placesUnder, List.map_cons, map_id_placesUnderAll]
    rfl

theorem id_mem_ids (tree : Tree) : tree.id ∈ tree.ids := by
  rw [ids_eq]
  exact List.mem_cons_self

theorem nodup_ids_child {child : Tree} (unique : tree.ids.Nodup) (h : child ∈ tree.children) : child.ids.Nodup := by
  rw [ids_eq] at unique
  exact (List.nodup_flatMap.mp unique.of_cons).1 child h

theorem nodup_map_id_children (unique : tree.ids.Nodup) : (tree.children.map Tree.id).Nodup := by
  rw [ids_eq] at unique
  refine List.pairwise_map.mpr ((List.nodup_flatMap.mp unique.of_cons).2.imp fun hdisjoint heq => ?_)
  exact hdisjoint (id_mem_ids _) (heq ▸ id_mem_ids _)

end Syntax.Tree

/-! ## Nodes that differ only below -/

namespace Alike

theorem filler? (h : Alike tree tree') (field : Field) :
    Option.Rel Parenthesized (tree.filler? field) (tree'.filler? field) :=
  Tree.fillerAmong_parenthesized h.children h.fields

theorem propertyField?_eq (h : Alike tree tree') : tree'.propertyField? = tree.propertyField? := by
  have hindex := h.filler? .index
  rw [Tree.propertyField?, Tree.propertyField?, h.kind]
  generalize tree.filler? .index = index, tree'.filler? .index = index' at hindex
  cases hindex with
  | none => rfl
  | some hindex => simp only [(Tree.bare_parenthesized hindex).2]

theorem isTagName_eq (h : Alike tree tree') (unique : tree.ids.Nodup) (unique' : tree'.ids.Nodup) :
    ∀ pair ∈ tree.children.zip tree'.children, tree'.isTagName pair.2 = tree.isTagName pair.1 := by
  intro pair hpair
  rw [Tree.isTagName, Tree.isTagName, h.kind]
  exact congrArg _ (Tree.name_parenthesized h.children h.fields (Tree.nodup_map_id_children unique)
    (Tree.nodup_map_id_children unique') pair hpair)

end Alike

/-! ## The first loop -/

/-- Two entries of the stack that stand in the same place. -/
structure Pending.Same (pending pending' : Pending) : Prop where
  tree : Parenthesized pending.tree pending'.tree
  unique : pending.tree.ids.Nodup
  unique' : pending'.tree.ids.Nodup
  parent : pending'.parent = pending.parent
  position : pending'.position = pending.position

namespace Pending.Same

variable {pending pending' : Pending}

theorem accessField?_eq (h : Pending.Same pending pending') (alike : Alike pending.tree pending'.tree) :
    pending'.accessField? = pending.accessField? := by
  rw [accessField?, accessField?, h.position, alike.propertyField?_eq]

theorem lowered_eq (h : Pending.Same pending pending') (alike : Alike pending.tree pending'.tree)
    (source : List Char) : pending'.lowered source = pending.lowered source := by
  simp only [lowered, h.accessField?_eq alike, alike.kind, alike.span, h.parent, h.position]

theorem childPosition_eq (h : Pending.Same pending pending') (alike : Alike pending.tree pending'.tree) :
    ∀ pair ∈ pending.tree.children.zip pending'.tree.children,
      pending'.childPosition pair.2 = pending.childPosition pair.1 := by
  intro pair hpair
  rw [childPosition, childPosition, h.position, alike.kind, alike.isTagName_eq h.unique h.unique' pair hpair]

theorem children (h : Pending.Same pending pending') (alike : Alike pending.tree pending'.tree)
    (parent : Option NodeId) {position position' : Tree → Position}
    (hposition : ∀ pair ∈ pending.tree.children.zip pending'.tree.children, position' pair.2 = position pair.1) :
    List.Forall₂ Pending.Same (pending.tree.children.map fun child => ⟨child, parent, position child⟩)
      (pending'.tree.children.map fun child => ⟨child, parent, position' child⟩) := by
  rw [List.forall₂_map_left_iff, List.forall₂_map_right_iff, List.forall₂_iff_zip]
  refine ⟨alike.children.length_eq, fun {child child'} hpair => ?_⟩
  obtain ⟨hchild, hchild'⟩ := List.of_mem_zip hpair
  exact ⟨(List.forall₂_iff_zip.mp alike.children).2 hpair, Tree.nodup_ids_child h.unique hchild,
    Tree.nodup_ids_child h.unique' hchild', rfl, hposition _ hpair⟩

theorem unwrapped (h : Pending.Same pending pending') (alike : Alike pending.tree pending'.tree) :
    List.Forall₂ Pending.Same pending.unwrapped pending'.unwrapped := by
  rw [Pending.unwrapped, Pending.unwrapped, h.parent, h.position]
  exact h.children alike _ fun _ _ => rfl

theorem below (h : Pending.Same pending pending') (alike : Alike pending.tree pending'.tree) (id : NodeId) :
    List.Forall₂ Pending.Same (pending.below id) (pending'.below id) :=
  h.children alike (some id) (h.childPosition_eq alike)

/-- What stands between parentheses that were put around a node stands in the place of that node. -/
theorem within (h : Pending.Same pending pending') {inner : Tree} (hchildren : pending'.tree.children = [inner])
    (hinner : Parenthesized pending.tree inner) :
    List.Forall₂ Pending.Same [pending] pending'.unwrapped := by
  rw [Pending.unwrapped, hchildren, List.map_singleton]
  have hmem : inner ∈ pending'.tree.children := by simp [hchildren]
  exact .cons ⟨hinner, h.unique, Tree.nodup_ids_child h.unique' hmem, h.parent, h.position⟩ .nil

end Pending.Same

/-- Two accesses with the same number whose fields are filled by the same nodes. -/
structure Access.Same (access access' : Access) : Prop where
  id : access'.id = access.id
  filler? : ∀ field, Option.Rel Parenthesized (access.tree.filler? field) (access'.tree.filler? field)
  property : access'.property = access.property

namespace Lowering

/-- Two states of the loop in which the same was added and the same is still to come. -/
structure Same (lowering lowering' : Lowering) : Prop where
  stack : List.Forall₂ Pending.Same lowering.stack lowering'.stack
  arena : lowering'.arena = lowering.arena
  numbers : lowering'.numbers = lowering.numbers
  accesses : List.Forall₂ Access.Same lowering.accesses.toList lowering'.accesses.toList

variable {source : List Char} {lowering lowering' : Lowering}

theorem same_start (h : Parenthesized tree tree') (unique : tree.ids.Nodup) (unique' : tree'.ids.Nodup) :
    Same (.start tree) (.start tree') where
  stack := .cons ⟨h, unique, unique', rfl, rfl⟩ .nil
  arena := rfl
  numbers := rfl
  accesses := .nil

theorem Same.visit (h : Same lowering lowering') {pending pending' : Pending} {others others' : List Pending}
    (hpending : Pending.Same pending pending') (alike : Alike pending.tree pending'.tree)
    (hothers : List.Forall₂ Pending.Same others others') :
    Same (lowering.visit source pending others) (lowering'.visit source pending' others') := by
  rw [Lowering.visit, Lowering.visit, alike.kind]
  split
  case isTrue =>
    refine ⟨?_, h.arena, h.numbers, h.accesses⟩
    simp only [Pending.push_eq]
    exact List.rel_append (hpending.unwrapped alike) hothers
  case isFalse =>
    rw [h.arena, hpending.lowered_eq alike, h.numbers, alike.id, hpending.accessField?_eq alike]
    refine ⟨?_, rfl, rfl, ?_⟩
    · simp only [Pending.push_eq]
      exact List.rel_append (hpending.below alike _) hothers
    · cases pending.accessField? with
      | none => exact h.accesses
      | some field =>
        simp only [Array.toList_push]
        exact List.rel_append h.accesses (.cons ⟨rfl, alike.filler?, rfl⟩ .nil)

/-- What comes next in the loop with parentheses comes next in the one without, or is parentheses and makes way. -/
theorem Same.step (h : Same lowering lowering') {next' : Lowering} (hstep : lowering'.step source = some next') :
    Same lowering next' ∨ ∃ next, lowering.step source = some next ∧ Same next next' := by
  have hstack := h.stack
  cases hentries : lowering.stack with
  | nil =>
    rw [hentries] at hstack
    rw [Lowering.step, List.forall₂_nil_left_iff.mp hstack] at hstep
    cases hstep
  | cons pending others =>
    rw [hentries] at hstack
    obtain ⟨pending', others', hpending, hothers, hentries'⟩ := List.forall₂_cons_left_iff.mp hstack
    rw [Lowering.step, hentries'] at hstep
    cases hstep
    rcases hpending.tree.alike_or_around with alike | ⟨inner, hkind, hchildren, hinner⟩
    · right
      have hnext : lowering.step source = some (lowering.visit source pending others) := by
        rw [Lowering.step, hentries]
      exact ⟨_, hnext, h.visit hpending alike hothers⟩
    · left
      rw [Lowering.visit, if_pos hkind]
      refine ⟨?_, h.arena, h.numbers, h.accesses⟩
      rw [hentries, Pending.push_eq]
      exact List.rel_append (hpending.within hchildren hinner) hothers

/-- Both loops end with the same nodes, numbers and accesses. -/
theorem Same.loop (h : Same lowering lowering') : Same (loop source lowering) (loop source lowering') := by
  induction lowering' using Lowering.loop.induct source generalizing lowering with
  | case1 lowering' hnone =>
    have hstack : lowering'.stack = [] := by
      rw [Lowering.step] at hnone
      split at hnone
      · assumption
      · cases hnone
    have hempty := h.stack
    rw [hstack, List.forall₂_nil_right_iff] at hempty
    have hends : lowering.step source = none := by rw [Lowering.step, hempty]
    rw [loop_of_step_none hnone, loop_of_step_none hends]
    exact h
  | case2 lowering' next' hstep ih =>
    rw [loop_of_step_some hstep]
    rcases h.step hstep with hstays | ⟨next, hnext, hsame⟩
    · exact ih hstays
    · rw [loop_of_step_some hnext]
      exact ih hsame

/-! ## The second loop -/

theorem Same.link?_eq (h : Same lowering lowering') {access access' : Access} (haccess : Access.Same access access')
    (field : Field) : lowering'.link? access'.tree field = lowering.link? access.tree field := by
  have hfiller := haccess.filler? field
  rw [link?, link?, h.numbers]
  generalize access.tree.filler? field = filler, access'.tree.filler? field = filler' at hfiller
  cases hfiller with
  | none => rfl
  | some hfiller => simp only [Option.bind_some, (Tree.bare_parenthesized hfiller).1]

theorem Same.setLinks_eq (h : Same lowering lowering') (arena : Arena) {access access' : Access}
    (haccess : Access.Same access access') :
    lowering'.setLinks arena access' = lowering.setLinks arena access := by
  rw [setLinks, setLinks, haccess.id, haccess.property, h.link?_eq haccess, h.link?_eq haccess]

theorem Same.linked_eq (h : Same lowering lowering') : lowering'.linked = lowering.linked := by
  have haccesses := h.accesses
  rw [linked, linked, h.arena]
  -- On the accesses that are left, with the links of those before set.
  generalize lowering.arena = arena
  generalize lowering.accesses.toList = accesses, lowering'.accesses.toList = accesses' at haccesses ⊢
  induction haccesses generalizing arena with
  | nil => rfl
  | cons haccess _ ih =>
    rw [List.foldlM_cons, List.foldlM_cons, h.setLinks_eq arena haccess]
    exact congrArg _ (funext ih)

end Lowering

/-- Parentheses put around nodes do not change what a tree is lowered to. -/
theorem lower_parenthesized (source : List Char) (h : Parenthesized tree tree') (unique : tree.ids.Nodup)
    (unique' : tree'.ids.Nodup) : lower source tree' = lower source tree := by
  have hsame : Lowering.Same (.loop source (.start tree)) (.loop source (.start tree')) :=
    (Lowering.same_start h unique unique').loop
  rw [lower, lower, hsame.linked_eq, hsame.arena]

/-! ## Putting parentheses around nodes -/

/-- Parentheses that are put around a node of a tree: the number of that node, and the number and the span of the
parentheses. -/
structure Parentheses where
  around : Nat
  id : Nat
  span : Span
  deriving DecidableEq, Repr

namespace Syntax.Tree

/-- Parentheses with a node as their only child, in its place and filling its fields. A node that hands its property
on does so through the parentheses, so that the parent has the property that it had. -/
def within (parentheses : Parentheses) : Tree → Tree
  | .node id fields kind span children =>
    .node parentheses.id fields parenthesesKind parentheses.span
      [.node id (fields.filter (· == .sharedProperty)) kind span children]

mutual

def wrap (parentheses : Parentheses) : Tree → Tree
  | .node id fields kind span children =>
    if id = parentheses.around then (Tree.node id fields kind span children).within parentheses
    else .node id fields kind span (wrapAll parentheses children)

def wrapAll (parentheses : Parentheses) : List Tree → List Tree
  | [] => []
  | tree :: others => tree.wrap parentheses :: wrapAll parentheses others

end

variable (parentheses : Parentheses)

theorem fields_wrap (tree : Tree) : (tree.wrap parentheses).fields = tree.fields := by
  cases tree with
  | node id fields kind span children =>
    rw [wrap]
    split <;> rfl

theorem map_fields_wrapAll (trees : List Tree) :
    (wrapAll parentheses trees).map Tree.fields = trees.map Tree.fields := by
  induction trees with
  | nil => rfl
  | cons tree others ih => rw [wrapAll, List.map_cons, List.map_cons, fields_wrap, ih]

mutual

theorem parenthesized_refl : ∀ tree : Tree, Parenthesized tree tree
  | .node _ _ _ _ children => .node (parenthesizedAll_refl children) rfl

theorem parenthesizedAll_refl : ∀ trees : List Tree, List.Forall₂ Parenthesized trees trees
  | [] => .nil
  | tree :: others => .cons (parenthesized_refl tree) (parenthesizedAll_refl others)

end

mutual

theorem parenthesized_wrap : ∀ tree : Tree, Parenthesized tree (tree.wrap parentheses)
  | .node id fields kind span children => by
    rw [wrap]
    split
    · exact .around (.node (parenthesizedAll_refl children) rfl) rfl
    · exact .node (parenthesized_wrapAll children) (map_fields_wrapAll parentheses children)

theorem parenthesized_wrapAll : ∀ trees : List Tree, List.Forall₂ Parenthesized trees (wrapAll parentheses trees)
  | [] => .nil
  | tree :: others => .cons (parenthesized_wrap tree) (parenthesized_wrapAll others)

end

theorem ids_node (id : Nat) (fields : List Field) (kind : String) (span : Span) (children : List Tree) :
    (node id fields kind span children).ids = id :: children.flatMap ids := ids_eq _

theorem ids_within (tree : Tree) : (tree.within parentheses).ids = parentheses.id :: tree.ids := by
  cases tree with
  | node id fields kind span children => simp only [within, ids_node, List.flatMap_singleton]

mutual

theorem count_ids_wrap_le (a : Nat) : ∀ tree : Tree, (tree.wrap parentheses).ids.count a ≤
    tree.ids.count a + if parentheses.id = a then tree.ids.count parentheses.around else 0
  | .node id fields kind span children => by
    rw [wrap]
    by_cases htarget : id = parentheses.around
    · have hpos : 0 < (node id fields kind span children).ids.count parentheses.around :=
        List.count_pos_iff.mpr (htarget ▸ id_mem_ids _)
      rw [if_pos htarget, ids_within, List.count_cons]
      simp only [beq_iff_eq]
      split <;> omega
    · have hchildren := count_ids_wrapAll_le a children
      rw [if_neg htarget, ids_node, ids_node]
      simp only [List.count_cons]
      by_cases hid : parentheses.id = a
      · simp only [if_pos hid] at hchildren ⊢
        omega
      · simp only [if_neg hid] at hchildren ⊢
        omega

theorem count_ids_wrapAll_le (a : Nat) : ∀ trees : List Tree, ((wrapAll parentheses trees).flatMap ids).count a ≤
    (trees.flatMap ids).count a + if parentheses.id = a then (trees.flatMap ids).count parentheses.around else 0
  | [] => Nat.zero_le _
  | tree :: others => by
    have htree := count_ids_wrap_le a tree
    have hothers := count_ids_wrapAll_le a others
    rw [wrapAll, List.flatMap_cons, List.flatMap_cons]
    simp only [List.count_append]
    by_cases hid : parentheses.id = a
    · simp only [if_pos hid] at htree hothers ⊢
      omega
    · simp only [if_neg hid] at htree hothers ⊢
      omega

end

/-- Parentheses with a number of their own leave the numbers of a tree different from each other and from those of
other parentheses. -/
theorem nodup_ids_wrap {parentheses : Parentheses} {others : List Nat}
    (fresh : (tree.ids ++ parentheses.id :: others).Nodup) : ((tree.wrap parentheses).ids ++ others).Nodup := by
  have hunique : tree.ids.count parentheses.around ≤ 1 :=
    List.nodup_iff_count_le_one.mp (List.Nodup.of_append_left fresh) parentheses.around
  rw [List.nodup_iff_count_le_one] at fresh ⊢
  intro a
  have hwrap := count_ids_wrap_le parentheses a tree
  have hcount := fresh a
  simp only [List.count_append, List.count_cons, beq_iff_eq] at hcount ⊢
  by_cases hid : parentheses.id = a
  · simp only [if_pos hid] at hwrap hcount
    omega
  · simp only [if_neg hid] at hwrap hcount
    omega

end Syntax.Tree

/-- Parentheses are not seen: a tree with parentheses put around nodes of it, one pair after the other, anywhere and
as many as one likes, is lowered to the same as without them. -/
theorem lower_foldl_wrap (source : List Char) (tree : Tree) (added : List Parentheses)
    (fresh : (tree.ids ++ added.map Parentheses.id).Nodup) :
    lower source (added.foldl (fun tree parentheses => tree.wrap parentheses) tree) = lower source tree := by
  induction added generalizing tree with
  | nil => rfl
  | cons parentheses others ih =>
    have hfresh := Tree.nodup_ids_wrap fresh
    rw [List.foldl_cons, ih (tree.wrap parentheses) hfresh]
    exact lower_parenthesized source (tree.parenthesized_wrap parentheses) (List.Nodup.of_append_left fresh)
      (List.Nodup.of_append_left hfresh)

/-- The concrete tree of `it[only]`. -/
def subscriptedFocus : Tree :=
  .node 0 [] "program" ⟨0, 8⟩
    [.node 1 [] "subscript_expression" ⟨0, 8⟩
      [.node 2 [.object] "identifier" ⟨0, 2⟩ [], .node 3 [.index] "identifier" ⟨3, 7⟩ []]]

/-- Parentheses around the receiver, around these parentheses, around the index and around all of it. -/
theorem lower_foldl_wrap_subscriptedFocus :
    ∃ added : List Parentheses, (subscriptedFocus.ids ++ added.map Parentheses.id).Nodup ∧
      added.foldl (fun tree parentheses => tree.wrap parentheses) subscriptedFocus =
        .node 0 [] "program" ⟨0, 8⟩
          [.node 7 [] parenthesesKind ⟨0, 8⟩
            [.node 1 [] "subscript_expression" ⟨0, 8⟩
              [.node 5 [.object] parenthesesKind ⟨0, 2⟩
                [.node 4 [] parenthesesKind ⟨0, 2⟩ [.node 2 [] "identifier" ⟨0, 2⟩ []]],
                .node 6 [.index] parenthesesKind ⟨3, 7⟩ [.node 3 [] "identifier" ⟨3, 7⟩ []]]]] ∧
      lower "it[only]".toList
          (added.foldl (fun tree parentheses => tree.wrap parentheses) subscriptedFocus) =
        lower "it[only]".toList subscriptedFocus := by
  have fresh : (subscriptedFocus.ids ++ [4, 5, 6, 7]).Nodup := by decide
  exact ⟨[⟨2, 4, ⟨0, 2⟩⟩, ⟨4, 5, ⟨0, 2⟩⟩, ⟨3, 6, ⟨3, 7⟩⟩, ⟨1, 7, ⟨0, 8⟩⟩], fresh, rfl,
    lower_foldl_wrap "it[only]".toList subscriptedFocus _ fresh⟩

end FocusLint
