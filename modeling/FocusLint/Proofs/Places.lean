import FocusLint.Lowering
import FocusLint.Syntax.Reader
import Mathlib.Data.List.Nodup

/-!
Places: the nodes of a concrete tree with the paths that lead to them.

Of the places of a tree (`Tree.places`), `Tree.visited` are those that are no parentheses, which are the
ones that get a node of their own when the tree is lowered. If no two nodes of the tree have the same number
(`Tree.ids`), a place is told from all others by the number of its node, and `Tree.number?` is where it
stands in that list (`number?_of_mem`).

A path has a trigger where it leaves a type query and where it enters the name of a tag. The first one
decides how what lies behind it is read.
-/

namespace FocusLint

open Syntax (Tree Field)

namespace Place

def path (place : Place) : List Tree := place.node :: place.above

def children (place : Place) : List Place := place.node.children.map (⟨·, place.path⟩)

/-- The place itself and all below it, in document order. -/
def below (place : Place) : List Place := place.node.placesUnder place.above

def isVisited (place : Place) : Bool := place.node.kind != parenthesesKind

def nearest? : List Tree → Option Place
  | [] => none
  | node :: above => if node.kind = parenthesesKind then nearest? above else some ⟨node, above⟩

/-- The place that a place hangs off: its nearest ancestor that is no parentheses. -/
def parent? (place : Place) : Option Place := nearest? place.above

end Place

namespace Syntax.Tree

/-- The places that are no parentheses, in document order. -/
def visited (tree : Tree) : List Place := tree.places.filter Place.isVisited

/-- The position among those places of the one whose node has a number. -/
def number? (tree : Tree) (id : Nat) : Option NodeId :=
  tree.visited.findIdx? (·.node.id == id)

/-- What fills the fields of a node is a child of that node, nowhere in the tree a descendant further
down. -/
def FieldsNameChildren (tree : Tree) : Prop :=
  ∀ place ∈ tree.places, Field.sharedProperty ∉ place.node.fields

instance (tree : Tree) : Decidable tree.FieldsNameChildren :=
  inferInstanceAs (Decidable (∀ place ∈ tree.places, Field.sharedProperty ∉ place.node.fields))

/-! ## Lists of places -/

theorem placesUnderAll_eq (above : List Tree) (trees : List Tree) :
    placesUnderAll above trees = trees.flatMap (placesUnder above) := by
  induction trees with
  | nil => rfl
  | cons tree others ih => rw [placesUnderAll, ih, List.flatMap_cons]

theorem placesUnder_eq (above : List Tree) (tree : Tree) :
    tree.placesUnder above = ⟨tree, above⟩ :: tree.children.flatMap (placesUnder (tree :: above)) := by
  cases tree with
  | node id fields kind span children => rw [placesUnder, placesUnderAll_eq, Tree.children]

theorem below_eq (place : Place) : place.below = place :: place.children.flatMap Place.below := by
  rw [Place.below, placesUnder_eq, Place.children, List.flatMap_map]
  rfl

theorem mem_below_self (place : Place) : place ∈ place.below := by
  rw [below_eq]
  exact List.mem_cons_self

theorem children_subset_below (place : Place) : place.children ⊆ place.below := by
  intro child hchild
  rw [below_eq]
  exact List.mem_cons_of_mem _ (List.mem_flatMap.mpr ⟨child, hchild, mem_below_self child⟩)

mutual

theorem below_sublist_placesUnder {above : List Tree} {place : Place} :
    ∀ {tree : Tree}, place ∈ tree.placesUnder above →
      place.below.Sublist (tree.placesUnder above)
  | .node id fields kind span children, h => by
    rw [placesUnder] at h ⊢
    rcases List.mem_cons.mp h with rfl | h
    · rw [Place.below, placesUnder]
    · exact (below_sublist_placesUnderAll h).cons _

theorem below_sublist_placesUnderAll {above : List Tree} {place : Place} :
    ∀ {trees : List Tree}, place ∈ placesUnderAll above trees →
      place.below.Sublist (placesUnderAll above trees)
  | [], h => by simp [placesUnderAll] at h
  | tree :: others, h => by
    rw [placesUnderAll] at h ⊢
    rcases List.mem_append.mp h with h | h
    · exact (below_sublist_placesUnder h).trans (List.sublist_append_left _ _)
    · exact (below_sublist_placesUnderAll h).trans (List.sublist_append_right _ _)

end

mutual

theorem mem_placesUnder_cases {above : List Tree} {place : Place} :
    ∀ {tree : Tree}, place ∈ tree.placesUnder above →
      place = ⟨tree, above⟩ ∨ ∃ parent ∈ tree.placesUnder above, place ∈ parent.children
  | .node id fields kind span children, h => by
    rw [placesUnder] at h ⊢
    rcases List.mem_cons.mp h with rfl | h
    · exact Or.inl rfl
    · right
      rcases mem_placesUnderAll_cases h with ⟨node, hnode, rfl⟩ | ⟨parent, hparent, hplace⟩
      · exact ⟨_, List.mem_cons_self, List.mem_map.mpr ⟨node, hnode, rfl⟩⟩
      · exact ⟨parent, List.mem_cons_of_mem _ hparent, hplace⟩

theorem mem_placesUnderAll_cases {above : List Tree} {place : Place} :
    ∀ {trees : List Tree}, place ∈ placesUnderAll above trees →
      (∃ node ∈ trees, place = ⟨node, above⟩) ∨
        ∃ parent ∈ placesUnderAll above trees, place ∈ parent.children
  | [], h => by simp [placesUnderAll] at h
  | tree :: others, h => by
    rw [placesUnderAll] at h ⊢
    rcases List.mem_append.mp h with h | h
    · rcases mem_placesUnder_cases h with rfl | ⟨parent, hparent, hplace⟩
      · exact Or.inl ⟨tree, List.mem_cons_self, rfl⟩
      · exact Or.inr ⟨parent, List.mem_append_left _ hparent, hplace⟩
    · rcases mem_placesUnderAll_cases h with ⟨node, hnode, rfl⟩ | ⟨parent, hparent, hplace⟩
      · exact Or.inl ⟨node, List.mem_cons_of_mem _ hnode, rfl⟩
      · exact Or.inr ⟨parent, List.mem_append_right _ hparent, hplace⟩

end

variable {tree : Tree} {place parent : Place}

theorem below_sublist_places (h : place ∈ tree.places) : place.below.Sublist tree.places :=
  below_sublist_placesUnder h

theorem mem_places_of_child (h : parent ∈ tree.places) (hchild : place ∈ parent.children) :
    place ∈ tree.places := (below_sublist_places h).subset (children_subset_below parent hchild)

/-- The ancestors of a place are places, and it is a child of the nearest. -/
theorem mem_places_of_above {node ancestor : Tree} {rest : List Tree}
    (h : ⟨node, ancestor :: rest⟩ ∈ tree.places) :
    ⟨ancestor, rest⟩ ∈ tree.places ∧
      (⟨node, ancestor :: rest⟩ : Place) ∈ (⟨ancestor, rest⟩ : Place).children := by
  rcases mem_placesUnder_cases h with heq | ⟨parent, hparent, hplace⟩
  · cases heq
  · obtain ⟨child, -, heq⟩ := List.mem_map.mp hplace
    cases heq
    exact ⟨hparent, hplace⟩

@[simp] theorem mem_visited :
    place ∈ tree.visited ↔ place ∈ tree.places ∧ place.node.kind ≠ parenthesesKind := by
  simp [visited, Place.isVisited]

theorem parent_mem_visited (h : place ∈ tree.places) (hparent : place.parent? = some parent) :
    parent ∈ tree.visited := by
  obtain ⟨node, above⟩ := place
  unfold Place.parent? at hparent
  simp only at hparent
  -- Up the path, for as long as there are parentheses.
  induction above generalizing node with
  | nil => cases hparent
  | cons ancestor rest ih =>
    have hancestor := (mem_places_of_above h).1
    by_cases hkind : ancestor.kind = parenthesesKind
    · rw [Place.nearest?, if_pos hkind] at hparent
      exact ih ancestor hancestor hparent
    · rw [Place.nearest?, if_neg hkind, Option.some.injEq] at hparent
      subst hparent
      exact mem_visited.mpr ⟨hancestor, hkind⟩

/-! ## Numbers -/

theorem nodup_visited (unique : tree.ids.Nodup) : (tree.visited.map (·.node.id)).Nodup :=
  unique.sublist (List.filter_sublist.map _)

theorem findIdx?_before (unique : tree.ids.Nodup) {done rest : List Place}
    (hsplit : tree.visited = done ++ place :: rest) :
    done.findIdx? (·.node.id == place.node.id) = none := by
  have hnodup := nodup_visited unique
  rw [hsplit, List.map_append, List.map_cons, List.nodup_append] at hnodup
  obtain ⟨-, -, hne⟩ := hnodup
  rw [List.findIdx?_eq_none_iff]
  intro other hother
  have := hne other.node.id (List.mem_map_of_mem hother) place.node.id List.mem_cons_self
  simpa using this

theorem number?_of_split (unique : tree.ids.Nodup) {done rest : List Place}
    (hsplit : tree.visited = done ++ place :: rest) : tree.number? place.node.id = some done.length := by
  rw [number?, hsplit, List.findIdx?_append, findIdx?_before unique hsplit]
  simp [List.findIdx?_cons]

theorem number?_of_getElem? (unique : tree.ids.Nodup) {number : NodeId}
    (h : tree.visited[number]? = some place) : tree.number? place.node.id = some number := by
  obtain ⟨hlt, hget⟩ := List.getElem?_eq_some_iff.mp h
  have hsplit : tree.visited =
      tree.visited.take number ++ place :: tree.visited.drop (number + 1) := by
    rw [← hget, List.getElem_cons_drop, List.take_append_drop]
  rw [number?_of_split unique hsplit, List.length_take, Nat.min_eq_left (Nat.le_of_lt hlt)]

/-- Every place that is no parentheses has a number, which is where it stands. -/
theorem number?_of_mem (unique : tree.ids.Nodup) (h : place ∈ tree.visited) :
    ∃ number, tree.number? place.node.id = some number ∧ tree.visited[number]? = some place := by
  obtain ⟨number, hget⟩ := List.mem_iff_getElem?.mp h
  exact ⟨number, number?_of_getElem? unique hget, hget⟩

theorem number?_of_parentheses (unique : tree.ids.Nodup) (h : place ∈ tree.places)
    (hkind : place.node.kind = parenthesesKind) : tree.number? place.node.id = none := by
  rw [number?, List.findIdx?_eq_none_iff]
  intro other hother
  obtain ⟨hplaces, hvisited⟩ := mem_visited.mp hother
  rw [beq_eq_false_iff_ne]
  intro hid
  -- A place of the same number would be the parentheses themselves.
  have heq : other = place := List.inj_on_of_nodup_map unique hplaces h hid
  exact hvisited (heq ▸ hkind)

theorem number?_eq_some_iff (unique : tree.ids.Nodup) (h : place ∈ tree.places) {number : NodeId} :
    tree.number? place.node.id = some number ↔ tree.visited[number]? = some place := by
  refine ⟨fun hnumber => ?_, number?_of_getElem? unique⟩
  have hvisited : place ∈ tree.visited := by
    refine mem_visited.mpr ⟨h, fun hkind => ?_⟩
    rw [number?_of_parentheses unique h hkind] at hnumber
    cases hnumber
  obtain ⟨other, hother, hget⟩ := number?_of_mem unique hvisited
  rw [hnumber, Option.some.injEq] at hother
  exact hother ▸ hget

end Syntax.Tree

/-! ## Accesses -/

namespace Syntax.Tree

/-- Whether a node is an access to a member where it stands among expressions. -/
def IsAccess (tree : Tree) : Prop :=
  tree.kind = "member_expression" ∨
    tree.kind = "subscript_expression" ∧
      ∃ index, tree.filler? .index = some index ∧ index.bare.kind = "identifier"

def text (source : List Char) (tree : Tree) : String := String.ofList (tree.span.cover source)

theorem propertyField?_eq_some {tree : Tree} {field : Field} :
    tree.propertyField? = some field ↔
      tree.kind = "member_expression" ∧ field = .property ∨
      tree.kind = "subscript_expression" ∧ field = .index ∧
        ∃ index, tree.filler? .index = some index ∧ index.bare.kind = "identifier" := by
  unfold propertyField?
  by_cases hmember : tree.kind = "member_expression"
  · simp [hmember, eq_comm]
  · by_cases hsubscript : tree.kind = "subscript_expression"
    · cases hindex : tree.filler? .index with
      | none => simp [hsubscript]
      | some index =>
        by_cases hname : index.bare.kind = "identifier"
        · simp [hsubscript, hname, eq_comm]
        · simp [hsubscript, hname]
    · simp [hmember, hsubscript]

theorem isAccess_iff {tree : Tree} : tree.IsAccess ↔ ∃ field, tree.propertyField? = some field := by
  simp only [IsAccess, propertyField?_eq_some]
  constructor
  · intro haccess
    rcases haccess with hmember | ⟨hsubscript, hindex⟩
    · exact ⟨_, Or.inl ⟨hmember, rfl⟩⟩
    · exact ⟨_, Or.inr ⟨hsubscript, rfl, hindex⟩⟩
  · intro hgiven
    obtain ⟨field, ⟨hmember, -⟩ | ⟨hsubscript, -, hindex⟩⟩ := hgiven
    · exact Or.inl hmember
    · exact Or.inr ⟨hsubscript, hindex⟩

theorem IsAccess.not_mem_identifierKinds {tree : Tree} (h : tree.IsAccess) :
    tree.kind ∉ identifierKinds := by
  rcases h with hmember | ⟨hsubscript, -⟩
  · rw [hmember]
    decide
  · rw [hsubscript]
    decide

end Syntax.Tree

/-! ## Triggers -/

/-- What changes how a path is read on. -/
inductive Trigger where
  | typeQuery
  | tagName
  deriving DecidableEq, Repr

/-- The trigger on the step from a node to a child. -/
def trigger? (parent child : Tree) : Option Trigger :=
  if parent.kind = "type_query" then some .typeQuery
  else if parent.isTagName child then some .tagName
  else none

/-- The trigger that comes first on the way down a path, which is given from its end to the root. -/
def firstTrigger? : List Tree → Option Trigger
  | child :: parent :: above => (firstTrigger? (parent :: above)).or (trigger? parent child)
  | _ => none

/-- The position that a first trigger leads to. -/
def positionAfter : Option Trigger → Position
  | none => .expression
  | some .typeQuery => .typeQuery
  | some .tagName => .tagName

theorem trigger?_of_parentheses {parent : Tree} (h : parent.kind = parenthesesKind) (child : Tree) :
    trigger? parent child = none := by
  simp [trigger?, Tree.isTagName, h, parenthesesKind, tagKinds]

/-- Taking parentheses away leads to a place below, which hangs off the same place and has the same
trigger. -/
theorem Syntax.Tree.exists_bare_below : ∀ (node : Tree) (above : List Tree),
    ∃ place ∈ node.placesUnder above, place.node = node.bare ∧
      place.parent? = Place.nearest? above ∧ firstTrigger? place.path = firstTrigger? (node :: above)
  | .node id fields kind span [], above =>
    ⟨_, Tree.mem_below_self ⟨_, above⟩, by rw [Tree.bare], rfl, rfl⟩
  | .node id fields kind span (first :: others), above => by
    by_cases hkind : kind = parenthesesKind
    · obtain ⟨place, hplace, hnode, hparent, htrigger⟩ :=
        first.exists_bare_below (.node id fields kind span (first :: others) :: above)
      refine ⟨place, ?_, by rw [hnode, Tree.bare, if_pos hkind], ?_, ?_⟩
      · rw [Tree.placesUnder_eq, Tree.children, List.flatMap_cons]
        exact List.mem_cons_of_mem _ (List.mem_append_left _ hplace)
      · rw [hparent, Place.nearest?, if_pos (by exact hkind)]
      · rw [htrigger, firstTrigger?, trigger?_of_parentheses (by exact hkind), Option.or_none]
    · exact ⟨_, Tree.mem_below_self ⟨_, above⟩, by rw [Tree.bare, if_neg hkind], rfl, rfl⟩

namespace Syntax.Tree

mutual

theorem exists_place_of_filling? {field : Field} {filler : Tree} {above : List Tree} :
    ∀ {node : Tree}, node.filling? field = some filler →
      ∃ place ∈ node.placesUnder above, place.node = filler
  | .node id fields kind span children, h => by
    rw [filling?] at h
    rw [placesUnder]
    split at h
    · cases h
      exact ⟨_, List.mem_cons_self, rfl⟩
    · split at h
      · obtain ⟨place, hplace, hnode⟩ := exists_place_of_fillerAmong h
        exact ⟨place, List.mem_cons_of_mem _ hplace, hnode⟩
      · cases h

theorem exists_place_of_fillerAmong {field : Field} {filler : Tree} {above : List Tree} :
    ∀ {trees : List Tree}, fillerAmong field trees = some filler →
      ∃ place ∈ placesUnderAll above trees, place.node = filler
  | [], h => by cases h
  | tree :: others, h => by
    rw [fillerAmong, Option.or_eq_some_iff] at h
    rw [placesUnderAll]
    rcases h with h | ⟨-, h⟩
    · obtain ⟨place, hplace, hnode⟩ := exists_place_of_filling? h
      exact ⟨place, List.mem_append_left _ hplace, hnode⟩
    · obtain ⟨place, hplace, hnode⟩ := exists_place_of_fillerAmong h
      exact ⟨place, List.mem_append_right _ hplace, hnode⟩

end

theorem exists_place_of_bare_filler {tree filler : Tree} {place : Place} {field : Field}
    (hplace : place ∈ tree.places) (h : place.node.filler? field = some filler) :
    ∃ found ∈ tree.places, found.node = filler.bare := by
  obtain ⟨outer, houter, rfl⟩ := exists_place_of_fillerAmong h
  have hbelow : outer ∈ place.below := by
    rw [Place.below, placesUnder_eq, ← placesUnderAll_eq]
    exact List.mem_cons_of_mem _ houter
  have houterPlace := (below_sublist_places hplace).subset hbelow
  obtain ⟨found, hfound, hnode, -⟩ := outer.node.exists_bare_below outer.above
  exact ⟨found, (below_sublist_places houterPlace).subset hfound, hnode⟩

end Syntax.Tree

theorem trigger?_of_access {parent : Tree} (h : parent.IsAccess) (child : Tree) :
    trigger? parent child = none := by
  rcases h with hmember | ⟨hsubscript, -⟩
  · simp [trigger?, Tree.isTagName, hmember, tagKinds]
  · simp [trigger?, Tree.isTagName, hsubscript, tagKinds]

namespace Place

/-- The position that a place is visited in. -/
def position (place : Place) : Position := positionAfter (firstTrigger? place.path)

theorem position_eq_expression_iff {place : Place} :
    place.position = .expression ↔ firstTrigger? place.path = none := by
  unfold position
  rcases firstTrigger? place.path with _ | _ | _ <;> simp [positionAfter]

theorem position_eq_tagName_iff {place : Place} :
    place.position = .tagName ↔ firstTrigger? place.path = some .tagName := by
  unfold position
  rcases firstTrigger? place.path with _ | _ | _ <;> simp [positionAfter]

end Place

end FocusLint
