import FocusLint.Proofs.LoweredTree
import FocusLint.Proofs.RuleRun

/-!
A lowered tree is in document order, and its links stay within it.

Main statement: `lower_inDocumentOrder`. Only the first node has no parent, and all others come after
theirs. Only names have a name and only accesses have links. What an access names as its object or its
property is a later node whose parent is that access, the object before the property. On such a tree the
rule never asks for a missing node, and it finds one use of a modifier at a node at most.

The order of the nodes is that of the places (`lt_of_sublist_places`), and the order of places is read off
the list of all places: what is below a place stands together there (`below_sublist_places`), the place
itself first and then its children, one after the other.
-/

namespace FocusLint

open Syntax (Tree Field)

variable {source : List Char} {tree : Tree} {place parent : Place}

/-! ## The order of places -/

namespace Syntax.Tree

theorem number_unique (unique : tree.ids.Nodup) {a b : NodeId} (ha : tree.visited[a]? = some place)
    (hb : tree.visited[b]? = some place) : a = b := by
  have hnumber := number?_of_getElem? unique ha
  rw [number?_of_getElem? unique hb, Option.some.injEq] at hnumber
  exact hnumber.symm

theorem lt_of_sublist_places (unique : tree.ids.Nodup) {first second : Place} {a b : NodeId}
    (ha : tree.visited[a]? = some first) (hb : tree.visited[b]? = some second)
    (hbefore : [first, second].Sublist tree.places) : a < b := by
  have hvisited : [first, second].Sublist tree.visited := by
    have hkept := hbefore.filter Place.isVisited
    rwa [List.filter_cons_of_pos (List.mem_filter.mp (List.mem_of_getElem? ha)).2,
      List.filter_cons_of_pos (List.mem_filter.mp (List.mem_of_getElem? hb)).2, List.filter_nil] at hkept
  -- The list of these places falls apart into one part with the first and one with the second.
  obtain ⟨before, behind, hsplit, hfirst, hsecond⟩ := List.cons_sublist_iff.mp hvisited
  obtain ⟨i, hi, hgetFirst⟩ := List.getElem_of_mem hfirst
  obtain ⟨j, hj, hgetSecond⟩ := List.getElem_of_mem (List.singleton_sublist.mp hsecond)
  have hfirstAt : tree.visited[i]? = some first := by
    rw [hsplit, List.getElem?_append_left hi, List.getElem?_eq_getElem hi, hgetFirst]
  have hsecondAt : tree.visited[before.length + j]? = some second := by
    rw [hsplit, List.getElem?_append_right (Nat.le_add_right _ _), Nat.add_sub_cancel_left,
      List.getElem?_eq_getElem hj, hgetSecond]
  calc a = i := number_unique unique ha hfirstAt
    _ < before.length := hi
    _ ≤ before.length + j := Nat.le_add_right _ _
    _ = b := number_unique unique hsecondAt hb

theorem mem_below_of_parent (hplace : place ∈ tree.places) (hparent : place.parent? = some parent) :
    place ∈ parent.children.flatMap Place.below := by
  obtain ⟨node, above⟩ := place
  unfold Place.parent? at hparent
  simp only at hparent
  -- Up the path: below parentheses it is as for the parentheses themselves.
  induction above generalizing node with
  | nil => cases hparent
  | cons ancestor rest ih =>
    obtain ⟨hancestor, hchild⟩ := mem_places_of_above hplace
    by_cases hkind : ancestor.kind = parenthesesKind
    · rw [Place.nearest?, if_pos hkind] at hparent
      obtain ⟨child, hmem, hbelow⟩ := List.mem_flatMap.mp (ih ancestor hancestor hparent)
      have hsub := below_sublist_placesUnder hbelow
      exact List.mem_flatMap.mpr ⟨child, hmem, hsub.subset (children_subset_below _ hchild)⟩
    · rw [Place.nearest?, if_neg hkind, Option.some.injEq] at hparent
      subst hparent
      exact List.mem_flatMap.mpr ⟨_, hchild, mem_below_self _⟩

theorem parent_sublist_places (hplace : place ∈ tree.places) (hparent : place.parent? = some parent) :
    [parent, place].Sublist tree.places := by
  have hparentPlace := (mem_visited.mp (parent_mem_visited hplace hparent)).1
  refine List.Sublist.trans ?_ (below_sublist_places hparentPlace)
  rw [below_eq]
  exact (List.singleton_sublist.mpr (mem_below_of_parent hplace hparent)).cons_cons _

theorem below_sublist_of_children (hplace : place ∈ tree.places) {a b : Tree}
    (hab : [a, b].Sublist place.node.children) {first second : Place}
    (hfirst : first ∈ a.placesUnder place.path) (hsecond : second ∈ b.placesUnder place.path) :
    [first, second].Sublist tree.places := by
  refine List.Sublist.trans ?_ (below_sublist_places hplace)
  rw [Place.below, placesUnder_eq]
  refine List.Sublist.cons _ ?_
  obtain ⟨before, behind, hsplit, ha, hb⟩ := List.cons_sublist_iff.mp hab
  rw [hsplit, List.flatMap_append]
  have hbefore : [first].Sublist (before.flatMap (placesUnder place.path)) :=
    List.singleton_sublist.mpr (List.mem_flatMap.mpr ⟨a, ha, hfirst⟩)
  have hbehind : [second].Sublist (behind.flatMap (placesUnder place.path)) :=
    List.singleton_sublist.mpr (List.mem_flatMap.mpr ⟨b, List.singleton_sublist.mp hb, hsecond⟩)
  exact hbefore.append hbehind

theorem getLast?_path (hplace : place ∈ tree.places) : place.path.getLast? = some tree := by
  obtain ⟨node, above⟩ := place
  unfold Place.path
  simp only
  induction above generalizing node with
  | nil =>
    rcases mem_placesUnder_cases hplace with heq | ⟨parent, -, hchild⟩
    · cases heq
      rfl
    · obtain ⟨child, -, heq⟩ := List.mem_map.mp hchild
      cases heq
  | cons ancestor rest ih =>
    rw [List.getLast?_cons_cons]
    exact ih ancestor (mem_places_of_above hplace).1

end Syntax.Tree

/-! ## Arenas in document order -/

/-- The nodes of a tree come in document order and its links stay within it. -/
structure Arena.InDocumentOrder (arena : Arena) : Prop where
  /-- There is a first node. -/
  nonempty : 0 < arena.size
  /-- The first node has no parent, and all others have one. -/
  parent_eq_none : ∀ id node, arena.node id = .ok node → (node.parent = none ↔ id = 0)
  /-- A parent comes before its children. -/
  parent_lt : ∀ id node above, arena.node id = .ok node → node.parent = some above → above < id
  /-- Only a name has a name. -/
  name : ∀ id node, arena.node id = .ok node → node.name ≠ none → node.kind = .identifier
  /-- Only an access has links. -/
  access : ∀ id node, arena.node id = .ok node → node.object ≠ none ∨ node.property ≠ none →
    node.kind = .memberExpression
  /-- A link names a later node, whose parent is the node that has the link. -/
  link : ∀ id node other, arena.node id = .ok node →
    node.object = some other ∨ node.property = some other →
    id < other ∧ ∃ linked, arena.node other = .ok linked ∧ linked.parent = some id
  /-- The object of an access comes before its property. -/
  object_lt_property : ∀ id node object property, arena.node id = .ok node →
    node.object = some object → node.property = some property → object < property

namespace Arena.InDocumentOrder

variable {arena : Arena}

theorem wellLinked (h : arena.InDocumentOrder) : arena.WellLinked := by
  intro id node hnode
  have hlink : ∀ other, node.object = some other ∨ node.property = some other → other < arena.size := by
    intro other hother
    obtain ⟨-, linked, hlinked, -⟩ := h.link id node other hnode hother
    exact lt_size_of_node hlinked
  refine ⟨fun above habove => ?_, fun other hother => hlink other (.inl hother),
    fun other hother => hlink other (.inr hother)⟩
  exact Nat.lt_trans (h.parent_lt id node above hnode habove) (lt_size_of_node hnode)

theorem namesAreNoAccesses (h : arena.InDocumentOrder) : arena.NamesAreNoAccesses := by
  intro id node hnode hname
  by_contra hproperty
  have hidentifier := h.name id node hnode hname
  have haccess := h.access id node hnode (Or.inr hproperty)
  rw [hidentifier] at haccess
  cases haccess

end Arena.InDocumentOrder

/-! ## Lowered trees -/

/-- In every access of a tree what fills the object and what fills the property are two children of it, the
object first. -/
def Syntax.Tree.AccessesInOrder (tree : Tree) : Prop :=
  ∀ place ∈ tree.places, ∀ field, place.node.propertyField? = some field →
    ((place.node.filler? .object).toList ++ (place.node.filler? field).toList).Sublist
      place.node.children

/-- What a link of a lowered access names, by the place that is found there: it is below the child that
fills the field, and it hangs off the access. -/
theorem exists_place_of_link (unique : tree.ids.Nodup) (hplace : place ∈ tree.visited) {field : Field}
    (hchildren : ∀ filler, place.node.filler? field = some filler → filler ∈ place.node.children)
    {number : NodeId} (hlink : place.link? tree field = some number) :
    ∃ filler found, place.node.filler? field = some filler ∧ found ∈ filler.placesUnder place.path ∧
      tree.visited[number]? = some found ∧ found.parent? = some place := by
  obtain ⟨hplaces, hkind⟩ := Tree.mem_visited.mp hplace
  obtain ⟨filler, hfiller, hnumber⟩ := Option.bind_eq_some_iff.mp hlink
  obtain ⟨found, hfound, hnode, hparent, -⟩ := filler.exists_bare_below place.path
  have hfoundPlace : found ∈ tree.places := by
    have hchild := Tree.mem_places_of_child hplaces (List.mem_map_of_mem (hchildren filler hfiller))
    exact (Tree.below_sublist_places hchild).subset hfound
  rw [← hnode, Tree.number?_eq_some_iff unique hfoundPlace] at hnumber
  refine ⟨filler, found, hfiller, hfound, hnumber, ?_⟩
  rw [hparent, Place.path, Place.nearest?, if_neg hkind]

theorem Place.nearest?_eq_none_iff {above : List Tree} :
    nearest? above = none ↔ ∀ ancestor ∈ above, ancestor.kind = parenthesesKind := by
  induction above with
  | nil => simp [nearest?]
  | cons ancestor rest ih =>
    by_cases hkind : ancestor.kind = parenthesesKind
    · simp [nearest?, hkind, ih]
    · simp [nearest?, hkind]

theorem Place.parent?_eq_none_iff (root : tree.kind ≠ parenthesesKind) (hplace : place ∈ tree.places) :
    place.parent? = none ↔ place = ⟨tree, []⟩ := by
  have hlast := Tree.getLast?_path hplace
  obtain ⟨node, above⟩ := place
  rw [parent?, nearest?_eq_none_iff]
  cases above with
  | nil =>
    rw [path, List.getLast?_singleton, Option.some.injEq] at hlast
    simpa using hlast
  | cons ancestor rest =>
    rw [path, List.getLast?_cons_cons] at hlast
    have hmem := List.mem_of_getLast? hlast
    simp only [mk.injEq, reduceCtorEq, and_false, iff_false]
    exact fun hparens => root (hparens tree hmem)

theorem visited_head (root : tree.kind ≠ parenthesesKind) : tree.visited[0]? = some ⟨tree, []⟩ := by
  have hvisited : (⟨tree, []⟩ : Place).isVisited = true := by simpa [Place.isVisited] using root
  rw [Tree.visited, Tree.places, Tree.placesUnder_eq, List.filter_cons_of_pos hvisited,
    List.getElem?_cons_zero]

theorem inDocumentOrder_lower (source : List Char) (unique : tree.ids.Nodup)
    (root : tree.kind ≠ parenthesesKind) (accessesInOrder : tree.AccessesInOrder) :
    (lower source tree).InDocumentOrder where
  nonempty := by
    rw [size_lower source unique]
    exact (List.getElem?_eq_some_iff.mp (visited_head root)).1
  parent_eq_none := by
    intro id node hnode
    obtain ⟨place, hget, rfl⟩ := exists_place_of_node source unique hnode
    have hplace := (Tree.mem_visited.mp (List.mem_of_getElem? hget)).1
    rw [parent_lowered_eq_none unique hplace, Place.parent?_eq_none_iff root hplace]
    constructor
    · intro hroot
      rw [hroot] at hget
      exact Tree.number_unique unique hget (visited_head root)
    · intro hzero
      rw [hzero, visited_head root, Option.some.injEq] at hget
      exact hget.symm
  parent_lt := by
    intro id node above hnode habove
    obtain ⟨place, hget, rfl⟩ := exists_place_of_node source unique hnode
    have hplace := (Tree.mem_visited.mp (List.mem_of_getElem? hget)).1
    obtain ⟨parent, hparent, hgetParent⟩ := (parent_lowered_eq_some unique hplace).mp habove
    exact Tree.lt_of_sublist_places unique hgetParent hget (Tree.parent_sublist_places hplace hparent)
  name := by
    intro id node hnode hname
    obtain ⟨place, -, rfl⟩ := exists_place_of_node source unique hnode
    rw [Place.name_lowered] at hname
    by_contra hkind
    exact hname (if_neg hkind)
  access := by
    intro id node hnode hlinks
    obtain ⟨place, -, rfl⟩ := exists_place_of_node source unique hnode
    exact kind_lowered_of_link hlinks
  link := by
    intro id node other hnode hlink
    obtain ⟨place, hget, rfl⟩ := exists_place_of_node source unique hnode
    obtain ⟨field, hfield, hobject, hproperty⟩ := exists_field_of_link hlink
    rw [hobject, hproperty] at hlink
    have hvisited := List.mem_of_getElem? hget
    have horder := accessesInOrder place (Tree.mem_visited.mp hvisited).1 field hfield
    obtain ⟨found, hgetFound, hparent⟩ : ∃ found, tree.visited[other]? = some found ∧
        found.parent? = some place := by
      have hfills : ∀ used, used = .object ∨ used = field → ∀ filler,
          place.node.filler? used = some filler → filler ∈ place.node.children := by
        rintro used (rfl | rfl) filler hfiller
        · exact horder.subset (by simp [hfiller])
        · exact horder.subset (by simp [hfiller])
      obtain ⟨used, hused, hlinked⟩ : ∃ used, (used = .object ∨ used = field) ∧
          place.link? tree used = some other := by simpa using hlink
      obtain ⟨-, found, -, -, hgetFound, hparent⟩ :=
        exists_place_of_link unique hvisited (hfills used hused) hlinked
      exact ⟨found, hgetFound, hparent⟩
    have hplace := (Tree.mem_visited.mp (List.mem_of_getElem? hgetFound)).1
    refine ⟨?_, _, node_lower source unique hgetFound, ?_⟩
    · exact Tree.lt_of_sublist_places unique hget hgetFound (Tree.parent_sublist_places hplace hparent)
    · exact (parent_lowered_eq_some unique hplace).mpr ⟨place, hparent, hget⟩
  object_lt_property := by
    intro id node object property hnode hobject hproperty
    obtain ⟨place, hget, rfl⟩ := exists_place_of_node source unique hnode
    obtain ⟨field, hfield, hobjectLink, hpropertyLink⟩ := exists_field_of_link (Or.inl hobject)
    rw [hobjectLink] at hobject
    rw [hpropertyLink] at hproperty
    have hvisited := List.mem_of_getElem? hget
    have hplace := (Tree.mem_visited.mp hvisited).1
    have horder := accessesInOrder place hplace field hfield
    obtain ⟨a, first, ha, hfirst, hgetFirst, -⟩ :=
      exists_place_of_link unique hvisited (fun filler h => horder.subset (by simp [h])) hobject
    obtain ⟨b, second, hb, hsecond, hgetSecond, -⟩ :=
      exists_place_of_link unique hvisited (fun filler h => horder.subset (by simp [h])) hproperty
    rw [ha, hb] at horder
    exact Tree.lt_of_sublist_places unique hgetFirst hgetSecond
      (Tree.below_sublist_of_children hplace horder hfirst hsecond)

/-- For any concrete tree without repeated numbers, whose root is no parentheses and whose accesses have
their object and their property as two children in this order, the lowered tree is in document order. Under
any options the rule looks at every node of it without asking for a missing one and finds one use of a
modifier at most, so that a run of the rule ends with reports. -/
theorem lower_inDocumentOrder (source : List Char) (tree : Tree) (unique : tree.ids.Nodup)
    (root : tree.kind ≠ parenthesesKind) (accessesInOrder : tree.AccessesInOrder) :
    (lower source tree).InDocumentOrder ∧
    ∀ options : RuleOptions,
      (∀ id < (lower source tree).size, ∃ violations,
        violationsAt options.blockNames options.focusNames (lower source tree) id = .ok violations ∧
        violations.length ≤ 1) ∧
      ∃ reports, Linter.run [focusRule options] (lower source tree) = .ok reports := by
  have horder := inDocumentOrder_lower source unique root accessesInOrder
  refine ⟨horder, fun options => ⟨fun id hid => ?_, ?_⟩⟩
  · obtain ⟨violations, hviolations, -, hone⟩ :=
      exists_violationsAt horder.wellLinked options.blockNames options.focusNames hid
    exact ⟨violations, hviolations, hone horder.namesAreNoAccesses⟩
  · obtain ⟨reports, hrun, -⟩ := exists_run_of_wellLinked horder.wellLinked options
    exact ⟨reports, hrun⟩

/-- The concrete tree of `it[(only)]`. -/
def bracketedIndex : Tree :=
  .node 0 [] "program" ⟨0, 10⟩
    [.node 1 [] "subscript_expression" ⟨0, 10⟩
      [.node 2 [.object] "identifier" ⟨0, 2⟩ [],
        .node 3 [.index] parenthesesKind ⟨3, 9⟩ [.node 4 [] "identifier" ⟨4, 8⟩ []]]]

theorem accessesInOrder_bracketedIndex : bracketedIndex.AccessesInOrder := by
  intro place hplace field hfield
  have hplaces : bracketedIndex.places.map (·.node.propertyField?) =
      [none, some .index, none, none, none] := by decide
  obtain ⟨number, hget⟩ := List.mem_iff_getElem?.mp hplace
  have hat := congrArg (·[number]?) hplaces
  simp only [List.getElem?_map, hget, Option.map_some, hfield] at hat
  match number with
  | 0 | 2 | 3 | 4 => simp at hat
  | 1 =>
    cases hget
    cases hat
    exact List.Sublist.refl _
  | _ + 5 => simp at hat

/-- In that tree the index without its parentheses is the property of the access. -/
theorem lower_inDocumentOrder_bracketedIndex : bracketedIndex.ids.Nodup ∧
    bracketedIndex.kind ≠ parenthesesKind ∧ bracketedIndex.AccessesInOrder ∧
    (lower "it[(only)]".toList bracketedIndex).InDocumentOrder ∧
    (∃ access, (lower "it[(only)]".toList bracketedIndex).node 1 = .ok access ∧
      access.object = some 2 ∧ access.property = some 3) ∧
    ∃ reports, Linter.run [focusRule ⟨none, none⟩] (lower "it[(only)]".toList bracketedIndex) =
      .ok reports := by
  have unique : bracketedIndex.ids.Nodup := by decide
  have root : bracketedIndex.kind ≠ parenthesesKind := by decide
  obtain ⟨horder, hrule⟩ := lower_inDocumentOrder "it[(only)]".toList bracketedIndex unique root
    accessesInOrder_bracketedIndex
  refine ⟨unique, root, accessesInOrder_bracketedIndex, horder, ?_, (hrule ⟨none, none⟩).2⟩
  exact ⟨_, node_lower "it[(only)]".toList unique rfl, by decide, by decide⟩

end FocusLint
