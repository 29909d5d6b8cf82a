import FocusLint.Proofs.LoweredTree
import FocusLint.Proofs.RuleRun

/-!
What the rule against focus modifiers reports on a lowered tree.

Main statement: `focus_reports_exactly`. The reports are told by the concrete tree alone: a name is
reported when it is a focus modifier that hangs off a live access whose object goes by a blocked name
(`Blames`). There is one report for every such name, in document order.

The proof follows the rule. Around a live access parentheses and fields lead to places that stand among
expressions too (`exists_place_of_filler`), so the links of the lowered access name them
(`link?_cases`), and asking for what is linked never fails. The rule then asks for the name of the object
(`linkedName_lower`) or for the two names of an object that is an access itself (`dottedName_lower`).
-/

namespace FocusLint

open Syntax (Tree Field)

/-! ## The pattern -/

/-- Whether a place is at or below the name of a tag. -/
def Place.InTagName (place : Place) : Prop :=
  ∃ below name tag above, place.path = below ++ name :: tag :: above ∧ tag.isTagName name = true

/-- A live access: one that is neither below a type query nor part of the name of a tag. -/
structure Place.IsLive (place : Place) : Prop where
  access : place.node.IsAccess
  noQuery : ∀ ancestor ∈ place.above, ancestor.kind ≠ "type_query"
  noTagName : ¬ place.InTagName

/-- The name that the object of a live access goes by: its own, or the names of its object and its
property joined with a dot. Parentheses do not count. -/
inductive GoesBy (source : List Char) : Tree → String → Prop
  | plain {node : Tree} (isName : node.kind ∈ identifierKinds) : GoesBy source node (node.text source)
  | dotted {node object property : Tree} {field : Field} (access : node.propertyField? = some field)
      (hasObject : node.filler? .object = some object)
      (hasProperty : node.filler? field = some property)
      (objectName : object.bare.kind ∈ identifierKinds)
      (propertyName : property.bare.kind ∈ identifierKinds) :
      GoesBy source node (object.bare.text source ++ "." ++ property.bare.text source)

/-- Whether a place is a focus modifier used on a blocked receiver: a name that is a focus modifier,
hanging off a live access whose object, without its parentheses, goes by a blocked name. -/
structure Blames (options : RuleOptions) (source : List Char) (place : Place) (receiver : String) :
    Prop where
  isName : place.node.kind ∈ identifierKinds
  focus : place.node.text source ∈ options.focusNames
  live : ∃ access object, place.parent? = some access ∧ access.IsLive ∧
    access.node.filler? .object = some object ∧ GoesBy source object.bare receiver
  blocked : receiver ∈ options.blockNames

/-! ## Paths without triggers -/

theorem trigger?_eq_none_iff {parent child : Tree} :
    trigger? parent child = none ↔ parent.kind ≠ "type_query" ∧ parent.isTagName child = false := by
  unfold trigger?
  split
  · simp [*]
  · split <;> simp [*]

theorem exists_tagName_cons {child parent : Tree} {above : List Tree} :
    (∃ below name tag rest, child :: parent :: above = below ++ name :: tag :: rest ∧
      tag.isTagName name = true) ↔
    parent.isTagName child = true ∨
      ∃ below name tag rest, parent :: above = below ++ name :: tag :: rest ∧
        tag.isTagName name = true := by
  constructor
  · intro hgiven
    obtain ⟨below, name, tag, rest, heq, htag⟩ := hgiven
    cases below with
    | nil =>
      cases heq
      exact Or.inl htag
    | cons _ below =>
      rw [List.cons_append, List.cons.injEq] at heq
      exact Or.inr ⟨below, name, tag, rest, heq.2, htag⟩
  · intro hgiven
    rcases hgiven with htag | ⟨below, name, tag, rest, heq, htag⟩
    · exact ⟨[], child, parent, above, rfl, htag⟩
    · exact ⟨child :: below, name, tag, rest, by rw [heq, List.cons_append], htag⟩

theorem firstTrigger?_eq_none_iff {path : List Tree} :
    firstTrigger? path = none ↔ (∀ ancestor ∈ path.tail, ancestor.kind ≠ "type_query") ∧
      ¬ ∃ below name tag above, path = below ++ name :: tag :: above ∧ tag.isTagName name = true := by
  induction path with
  | nil => simp [firstTrigger?]
  | cons child path ih =>
    cases path with
    | nil =>
      simp only [firstTrigger?, List.tail_cons, true_iff]
      refine ⟨by simp, ?_⟩
      intro hgiven
      obtain ⟨below, name, tag, above, heq, -⟩ := hgiven
      have := congrArg List.length heq
      simp only [List.length_append, List.length_cons, List.length_nil] at this
      omega
    | cons parent above =>
      rw [firstTrigger?, Option.or_eq_none_iff, ih, trigger?_eq_none_iff, exists_tagName_cons]
      simp only [List.tail_cons, List.forall_mem_cons, not_or, Bool.not_eq_true]
      constructor
      · intro hgiven
        obtain ⟨⟨hqueries, htags⟩, hquery, htag⟩ := hgiven
        exact ⟨⟨hquery, hqueries⟩, htag, htags⟩
      · intro hgiven
        obtain ⟨⟨hquery, hqueries⟩, htag, htags⟩ := hgiven
        exact ⟨⟨hqueries, htags⟩, hquery, htag⟩

namespace Place

theorem isLive_iff {place : Place} :
    place.IsLive ↔ firstTrigger? place.path = none ∧ place.node.IsAccess := by
  rw [firstTrigger?_eq_none_iff]
  constructor
  · intro hgiven
    obtain ⟨haccess, hqueries, htags⟩ := hgiven
    exact ⟨⟨hqueries, htags⟩, haccess⟩
  · intro hgiven
    obtain ⟨⟨hqueries, htags⟩, haccess⟩ := hgiven
    exact ⟨haccess, hqueries, htags⟩

theorem firstTrigger?_of_parent {place access : Place} (hparent : place.parent? = some access)
    (hlive : access.IsLive) : firstTrigger? place.path = none := by
  obtain ⟨node, above⟩ := place
  rw [isLive_iff] at hlive
  unfold parent? at hparent
  simp only [path] at hparent ⊢
  -- Up the path: parentheses hand the question on, and the access that ends them answers it.
  induction above generalizing node with
  | nil => cases hparent
  | cons ancestor rest ih =>
    rw [firstTrigger?, Option.or_eq_none_iff]
    by_cases hkind : ancestor.kind = parenthesesKind
    · rw [nearest?, if_pos hkind] at hparent
      exact ⟨ih ancestor hparent, trigger?_of_parentheses hkind node⟩
    · rw [nearest?, if_neg hkind, Option.some.injEq] at hparent
      subst hparent
      exact ⟨hlive.1, trigger?_of_access hlive.2 node⟩

end Place

/-! ## What fills a field -/

namespace Syntax.Tree

theorem filling?_of_not_shared {field : Field} {tree : Tree} (h : Field.sharedProperty ∉ tree.fields) :
    tree.filling? field = if tree.fields.contains field then some tree else none := by
  cases tree with
  | node id fields kind span children =>
    rw [Tree.fields] at h
    simp [filling?, Tree.fields, h]

theorem mem_of_fillerAmong {field : Field} {filler : Tree} {trees : List Tree}
    (hown : ∀ tree ∈ trees, Field.sharedProperty ∉ tree.fields)
    (h : fillerAmong field trees = some filler) : filler ∈ trees := by
  induction trees with
  | nil => simp [fillerAmong] at h
  | cons tree others ih =>
    obtain ⟨htree, hothers⟩ := List.forall_mem_cons.mp hown
    rw [fillerAmong, filling?_of_not_shared htree] at h
    split at h
    · rw [Option.some_or, Option.some.injEq] at h
      exact h ▸ List.mem_cons_self
    · rw [Option.none_or] at h
      exact List.mem_cons_of_mem _ (ih hothers h)

end Syntax.Tree

variable {source : List Char} {tree : Tree} {place : Place} {field : Field} {filler : Tree}

theorem filler_mem_children (fieldsNameChildren : tree.FieldsNameChildren) (hplace : place ∈ tree.places)
    (h : place.node.filler? field = some filler) : filler ∈ place.node.children := by
  -- No child hands its own property on, so that the search does not go below the children.
  have hown : ∀ child ∈ place.node.children, Field.sharedProperty ∉ child.fields := by
    intro child hchild
    exact fieldsNameChildren ⟨child, place.path⟩
      (Tree.mem_places_of_child hplace (List.mem_map_of_mem hchild))
  exact Tree.mem_of_fillerAmong hown h

/-- What fills a field of a live access stands, without its parentheses, among expressions. -/
theorem exists_place_of_filler (fieldsNameChildren : tree.FieldsNameChildren)
    (hplace : place ∈ tree.places) (hlive : place.IsLive) (h : place.node.filler? field = some filler) :
    ∃ found ∈ tree.places, found.node = filler.bare ∧ firstTrigger? found.path = none := by
  rw [Place.isLive_iff] at hlive
  have hchild := filler_mem_children fieldsNameChildren hplace h
  obtain ⟨found, hfound, hnode, -, htrigger⟩ := filler.exists_bare_below place.path
  have hbelow := Tree.below_sublist_places (Tree.mem_places_of_child hplace (List.mem_map_of_mem hchild))
  refine ⟨found, hbelow.subset hfound, hnode, ?_⟩
  rw [htrigger, Place.path, firstTrigger?]
  have hpath := hlive.1
  rw [Place.path] at hpath
  rw [hpath, trigger?_of_access hlive.2, Option.none_or]

/-! ## Names along links -/

namespace Syntax.Tree

/-- The name of a node that stands among expressions. -/
def plainName? (source : List Char) (node : Tree) : Option String :=
  if node.kind ∈ identifierKinds then some (node.text source) else none

/-- The name of what fills a field of a node, without its parentheses. -/
def filledName? (source : List Char) (node : Tree) (field : Field) : Option String :=
  (node.filler? field).bind fun filler => filler.bare.plainName? source

/-- The names of the object and the property of an access, joined with a dot. -/
def pairName? (source : List Char) (node : Tree) : Option String :=
  node.propertyField?.bind fun field => (node.filledName? source field).bind fun property =>
    (node.filledName? source .object).map fun object => object ++ "." ++ property

theorem plainName?_eq_some {node : Tree} {name : String} :
    node.plainName? source = some name ↔ node.kind ∈ identifierKinds ∧ node.text source = name := by
  simp [plainName?]

theorem filledName?_eq_some {node : Tree} {name : String} :
    node.filledName? source field = some name ↔ ∃ filler, node.filler? field = some filler ∧
      filler.bare.kind ∈ identifierKinds ∧ filler.bare.text source = name := by
  simp [filledName?, Option.bind_eq_some_iff, plainName?_eq_some]

theorem pairName?_eq_some {node : Tree} {name : String} :
    node.pairName? source = some name ↔ ∃ field property object, node.propertyField? = some field ∧
      node.filledName? source field = some property ∧
      node.filledName? source .object = some object ∧ object ++ "." ++ property = name := by
  simp only [pairName?, Option.bind_eq_some_iff, Option.map_eq_some_iff]
  constructor
  · intro hgiven
    obtain ⟨field, hfield, property, hproperty, object, hobject, heq⟩ := hgiven
    exact ⟨field, property, object, hfield, hproperty, hobject, heq⟩
  · intro hgiven
    obtain ⟨field, property, object, hfield, hproperty, hobject, heq⟩ := hgiven
    exact ⟨field, hfield, property, hproperty, object, hobject, heq⟩

theorem goesBy_iff {node : Tree} {name : String} :
    GoesBy source node name ↔
      node.plainName? source = some name ∨ node.pairName? source = some name := by
  constructor
  · intro hgiven
    rcases hgiven with hname | ⟨haccess, hobject, hproperty, hobjectName, hpropertyName⟩
    · exact Or.inl (plainName?_eq_some.mpr ⟨hname, rfl⟩)
    · exact Or.inr (pairName?_eq_some.mpr ⟨_, _, _, haccess,
        filledName?_eq_some.mpr ⟨_, hproperty, hpropertyName, rfl⟩,
        filledName?_eq_some.mpr ⟨_, hobject, hobjectName, rfl⟩, rfl⟩)
  · intro hgiven
    rcases hgiven with h | h
    · obtain ⟨hname, rfl⟩ := plainName?_eq_some.mp h
      exact GoesBy.plain hname
    · obtain ⟨field, _, _, haccess, hproperty, hobject, rfl⟩ := pairName?_eq_some.mp h
      obtain ⟨property, hfiller, hpropertyName, rfl⟩ := filledName?_eq_some.mp hproperty
      obtain ⟨object, hobjectFiller, hobjectName, rfl⟩ := filledName?_eq_some.mp hobject
      exact GoesBy.dotted haccess hobjectFiller hfiller hobjectName hpropertyName

theorem not_goesBy_of_parentheses {node : Tree} {name : String} (h : node.kind = parenthesesKind) :
    ¬ GoesBy source node name := by
  intro hgiven
  rcases hgiven with hname | ⟨haccess, -⟩
  · rw [h] at hname
    exact absurd hname (by decide)
  · rw [propertyField?, h] at haccess
    exact absurd haccess (by simp [parenthesesKind])

theorem pairName?_of_mem_identifierKinds {node : Tree} (h : node.kind ∈ identifierKinds) :
    node.pairName? source = none := by
  have hnone : node.propertyField? = none := by
    rw [Option.eq_none_iff_forall_ne_some]
    intro field hfield
    exact (isAccess_iff.mpr ⟨field, hfield⟩).not_mem_identifierKinds h
  rw [pairName?, hnone, Option.bind_none]

theorem filter_plainName?_of_focused {focus : List String} {node : Tree}
    (h : node.kind ∈ identifierKinds ∧ node.text source ∈ focus) :
    (node.plainName? source).toList.filter focus.contains = [node.text source] := by
  simp [plainName?, h.1, h.2]

theorem filter_plainName?_of_not_focused {focus : List String} {node : Tree}
    (h : ¬ (node.kind ∈ identifierKinds ∧ node.text source ∈ focus)) :
    (node.plainName? source).toList.filter focus.contains = [] := by
  rw [not_and] at h
  by_cases hkind : node.kind ∈ identifierKinds
  · simp [plainName?, hkind, h hkind]
  · simp [plainName?, hkind]

/-- The blocked ones among the names that a node goes by. -/
def blockedNames (source : List Char) (block : List String) (node : Tree) : List String :=
  ((node.plainName? source).toList ++ (node.pairName? source).toList).filter block.contains

theorem mem_blockedNames {block : List String} {node : Tree} {name : String} :
    name ∈ node.blockedNames source block ↔ GoesBy source node name ∧ name ∈ block := by
  rw [goesBy_iff, blockedNames, List.mem_filter, List.mem_append, Option.mem_toList, Option.mem_toList]
  simp

theorem length_blockedNames {block : List String} {node : Tree} :
    (node.blockedNames source block).length ≤ 1 := by
  refine Nat.le_trans (List.length_filter_le _ _) ?_
  by_cases hkind : node.kind ∈ identifierKinds
  · rw [pairName?_of_mem_identifierKinds hkind, plainName?, if_pos hkind]
    simp
  · rw [plainName?, if_neg hkind]
    cases node.pairName? source <;> simp

end Syntax.Tree

theorem Place.name_lowered_of_expression (h : firstTrigger? place.path = none) :
    (place.lowered source tree).name = place.node.plainName? source := by
  rw [name_lowered, Tree.plainName?]
  simp only [kind_lowered_eq_identifier, h]
  simp

/-- A link of a live access leads to the place of what fills the field, without its parentheses. There
is none if nothing fills the field or if there is nothing between the parentheses. -/
theorem link?_cases (unique : tree.ids.Nodup) (fieldsNameChildren : tree.FieldsNameChildren)
    (hplace : place ∈ tree.places) (hlive : place.IsLive) (field : Field) :
    (∃ filler number found, place.node.filler? field = some filler ∧
      place.link? tree field = some number ∧ tree.visited[number]? = some found ∧
      found.node = filler.bare ∧ firstTrigger? found.path = none) ∨
    (place.link? tree field = none ∧
      ∀ filler, place.node.filler? field = some filler → filler.bare.kind = parenthesesKind) := by
  cases hfiller : place.node.filler? field with
  | none => exact Or.inr ⟨by simp [Place.link?, hfiller], by simp⟩
  | some filler =>
    obtain ⟨found, hfound, hnode, htrigger⟩ :=
      exists_place_of_filler fieldsNameChildren hplace hlive hfiller
    have hlink : place.link? tree field = tree.number? found.node.id := by
      rw [Place.link?, hfiller, Option.bind_some, hnode]
    by_cases hkind : found.node.kind = parenthesesKind
    · right
      refine ⟨?_, ?_⟩
      · rw [hlink]
        exact Tree.number?_of_parentheses unique hfound hkind
      · rintro _ ⟨⟩
        rw [← hnode, hkind]
    · left
      obtain ⟨number, hnumber, hget⟩ :=
        Tree.number?_of_mem unique (Tree.mem_visited.mpr ⟨hfound, hkind⟩)
      exact ⟨filler, number, found, rfl, hlink.trans hnumber, hget, hnode, htrigger⟩

theorem linkedName_lower (source : List Char) (unique : tree.ids.Nodup)
    (fieldsNameChildren : tree.FieldsNameChildren) (hplace : place ∈ tree.places) (hlive : place.IsLive)
    (field : Field) :
    linkedName (lower source tree) (place.link? tree field) =
      .ok (place.node.filledName? source field) := by
  rcases link?_cases unique fieldsNameChildren hplace hlive field with
    ⟨filler, number, found, hfiller, hlink, hget, hnode, htrigger⟩ | ⟨hlink, hfillers⟩
  · rw [hlink, linkedName_some (node_lower source unique hget),
      Place.name_lowered_of_expression htrigger, hnode, Tree.filledName?, hfiller, Option.bind_some]
  · rw [hlink, linkedName_none, Tree.filledName?]
    cases hfiller : place.node.filler? field with
    | none => rfl
    | some filler =>
      have hnot : filler.bare.kind ∉ identifierKinds := by
        rw [hfillers filler hfiller]
        decide
      rw [Option.bind_some, Tree.plainName?, if_neg hnot]

theorem dottedName_lower (source : List Char) (unique : tree.ids.Nodup)
    (fieldsNameChildren : tree.FieldsNameChildren) (hplace : place ∈ tree.places)
    (htrigger : firstTrigger? place.path = none) :
    dottedName (lower source tree) (place.lowered source tree) = .ok (place.node.pairName? source) := by
  have hfield : (place.pending tree).accessField? = place.node.propertyField? := by
    rw [Place.accessField?_pending, if_pos (Place.position_eq_expression_iff.mpr htrigger)]
  cases haccess : place.node.propertyField? with
  | none =>
    rw [haccess] at hfield
    have hobject : linkedName (lower source tree) (place.lowered source tree).object = .ok none := by
      rw [(Place.links_lowered_of_none hfield).1, linkedName_none]
    have hproperty : linkedName (lower source tree) (place.lowered source tree).property = .ok none := by
      rw [(Place.links_lowered_of_none hfield).2, linkedName_none]
    rw [Tree.pairName?, haccess]
    exact dottedName_of_names hobject hproperty
  | some field =>
    rw [haccess] at hfield
    have hlive : place.IsLive :=
      Place.isLive_iff.mpr ⟨htrigger, Tree.isAccess_iff.mpr ⟨field, haccess⟩⟩
    rw [Place.lowered_of_access hfield, Tree.pairName?, haccess]
    exact dottedName_of_names (linkedName_lower source unique fieldsNameChildren hplace hlive .object)
      (linkedName_lower source unique fieldsNameChildren hplace hlive field)

/-! ## The rule at one node -/

theorem related_parent_lower (source : List Char) (unique : tree.ids.Nodup)
    (hplace : place ∈ tree.places) :
    (lower source tree).related (place.lowered source tree).parent =
      .ok (place.parent?.map (Place.lowered source tree)) := by
  rw [Place.parent_lowered]
  cases hparent : place.parent? with
  | none => rfl
  | some parent =>
    obtain ⟨number, hnumber, hget⟩ :=
      Tree.number?_of_mem unique (Tree.parent_mem_visited hplace hparent)
    rw [Option.bind_some, hnumber, Arena.related, node_lower source unique hget]
    rfl

/-- The object that the rule looks at from a place: it stands among expressions, and it is there only if
the place hangs off a live access. -/
theorem parentObject_cases (source : List Char) (unique : tree.ids.Nodup)
    (fieldsNameChildren : tree.FieldsNameChildren) (hplace : place ∈ tree.places) :
    (∃ access object number found, place.parent? = some access ∧ access.IsLive ∧
      access.node.filler? .object = some object ∧
      (place.parent?.map (Place.lowered source tree)).bind Node.object = some number ∧
      tree.visited[number]? = some found ∧ found.node = object.bare ∧
      firstTrigger? found.path = none) ∨
    ((place.parent?.map (Place.lowered source tree)).bind Node.object = none ∧
      ∀ options receiver, ¬ Blames options source place receiver) := by
  cases hparent : place.parent? with
  | none =>
    refine Or.inr ⟨rfl, ?_⟩
    intro options receiver hgiven
    obtain ⟨-, -, ⟨access, object, haccess, -⟩, -⟩ := hgiven
    rw [hparent] at haccess
    cases haccess
  | some access =>
    rw [Option.map_some, Option.bind_some]
    by_cases hlive : access.IsLive
    · have haccess := (Tree.mem_visited.mp (Tree.parent_mem_visited hplace hparent)).1
      obtain ⟨field, hfield⟩ : ∃ field, (access.pending tree).accessField? = some field :=
        Place.exists_accessField?_iff.mpr (Place.isLive_iff.mp hlive)
      have hobject : (access.lowered source tree).object = access.link? tree .object := by
        rw [Place.lowered_of_access hfield]
      -- Without a link there is nothing between the parentheses, which no name can be got from.
      rw [hobject]
      rcases link?_cases unique fieldsNameChildren haccess hlive .object with
        ⟨object, number, found, hfiller, hlink, hget, hnode, htrigger⟩ | ⟨hlink, hfillers⟩
      · exact Or.inl ⟨access, object, number, found, rfl, hlive, hfiller, hlink, hget, hnode, htrigger⟩
      · refine Or.inr ⟨hlink, ?_⟩
        intro options receiver hgiven
        obtain ⟨-, -, ⟨other, object, hother, -, hfiller, hgoes⟩, -⟩ := hgiven
        rw [hparent, Option.some.injEq] at hother
        subst hother
        exact Tree.not_goesBy_of_parentheses (hfillers object hfiller) hgoes
    · have hfield : (access.pending tree).accessField? = none := by
        rw [Place.accessField?_eq_none_iff, ← Place.isLive_iff]
        exact hlive
      refine Or.inr ⟨(Place.links_lowered_of_none hfield).1, ?_⟩
      intro options receiver hgiven
      obtain ⟨-, -, ⟨other, object, hother, hothers, -⟩, -⟩ := hgiven
      rw [hparent, Option.some.injEq] at hother
      exact hlive (hother ▸ hothers)

/-- Off a live access with an object, all that is left to ask is for the name and for what the object goes
by. -/
theorem blames_iff {options : RuleOptions} {access : Place} {object : Tree} {receiver : String}
    (hparent : place.parent? = some access) (hlive : access.IsLive)
    (hfiller : access.node.filler? .object = some object) :
    Blames options source place receiver ↔
      (place.node.kind ∈ identifierKinds ∧ place.node.text source ∈ options.focusNames) ∧
        GoesBy source object.bare receiver ∧ receiver ∈ options.blockNames := by
  constructor
  · intro hgiven
    obtain ⟨hkind, hfocus, ⟨other, filler, hother, -, hfills, hgoes⟩, hblocked⟩ := hgiven
    rw [hparent, Option.some.injEq] at hother
    subst hother
    rw [hfiller, Option.some.injEq] at hfills
    subst hfills
    exact ⟨⟨hkind, hfocus⟩, hgoes, hblocked⟩
  · intro hgiven
    obtain ⟨⟨hkind, hfocus⟩, hgoes, hblocked⟩ := hgiven
    exact ⟨hkind, hfocus, ⟨access, object, hparent, hlive, hfiller, hgoes⟩, hblocked⟩

theorem Blames.kind_lowered {options : RuleOptions} {receiver : String}
    (h : Blames options source place receiver) : (place.lowered source tree).kind = .identifier := by
  obtain ⟨access, object, hparent, hlive, -⟩ := h.live
  have htrigger := Place.firstTrigger?_of_parent hparent hlive
  exact Place.kind_lowered_eq_identifier.mpr ⟨h.isName, by simp [htrigger]⟩

/-- At a place the rule finds the receivers that the place is blamed for, of which there is at most
one. -/
theorem violationsAt_lower (source : List Char) (options : RuleOptions) (unique : tree.ids.Nodup)
    (fieldsNameChildren : tree.FieldsNameChildren) {number : NodeId}
    (hget : tree.visited[number]? = some place) :
    ∃ receivers : List String,
      violationsAt options.blockNames options.focusNames (lower source tree) number =
        .ok (receivers.map fun receiver =>
          violationOf receiver (place.node.text source) (place.lowered source tree)) ∧
      receivers.length ≤ 1 ∧
      ∀ receiver, receiver ∈ receivers ↔ Blames options source place receiver := by
  have hplace := (Tree.mem_visited.mp (List.mem_of_getElem? hget)).1
  have hnode := node_lower source unique hget
  have hrelated := related_parent_lower source unique hplace
  rcases parentObject_cases source unique fieldsNameChildren hplace with
    ⟨access, object, link, found, hparent, hlive, hfiller, hlink, hfound, hbare, htrigger⟩ | ⟨hlink, hnot⟩
  · have hname : (place.lowered source tree).name = place.node.plainName? source :=
      Place.name_lowered_of_expression (Place.firstTrigger?_of_parent hparent hlive)
    have hreceiver : (found.lowered source tree).name = found.node.plainName? source :=
      Place.name_lowered_of_expression htrigger
    have hdotted := dottedName_lower source unique fieldsNameChildren
      (Tree.mem_visited.mp (List.mem_of_getElem? hfound)).1 htrigger
    rw [violationsAt_of_object hnode hrelated hlink (node_lower source unique hfound) hdotted, hname,
      hreceiver]
    by_cases hfocused : place.node.kind ∈ identifierKinds ∧ place.node.text source ∈ options.focusNames
    · refine ⟨found.node.blockedNames source options.blockNames, ?_, Tree.length_blockedNames, ?_⟩
      · rw [Tree.filter_plainName?_of_focused hfocused, List.flatMap_singleton]
        rfl
      · intro receiver
        rw [blames_iff hparent hlive hfiller, Tree.mem_blockedNames, hbare]
        exact ⟨fun h => ⟨hfocused, h⟩, fun h => h.2⟩
    · refine ⟨[], ?_, by simp, ?_⟩
      · rw [Tree.filter_plainName?_of_not_focused hfocused, List.flatMap_nil, List.map_nil]
      · intro receiver
        rw [blames_iff hparent hlive hfiller]
        exact ⟨fun h => absurd h (List.not_mem_nil), fun h => absurd h.1 hfocused⟩
  · refine ⟨[], violationsAt_of_no_object hnode hrelated hlink, by simp, ?_⟩
    intro receiver
    exact ⟨fun h => absurd h (List.not_mem_nil), fun h => absurd h (hnot options receiver)⟩

/-! ## All reports -/

/-- The report of a blamed place that has some number: it takes away the name and the byte before it. -/
def Place.blame (source : List Char) (place : Place) (number : NodeId) (receiver : String) : Report where
  rule := focusRuleMeta.name
  node := number
  span := place.node.span
  message := receiver ++ "." ++ place.node.text source ++ " not permitted"
  fix := some ⟨place.node.span.start - 1, place.node.span.stop⟩

/-- At every number the rule reports what the place there is blamed for, once at most. -/
theorem reportsAt_lower (source : List Char) (options : RuleOptions) (unique : tree.ids.Nodup)
    (fieldsNameChildren : tree.FieldsNameChildren) (number : NodeId) :
    ∃ reports, (number < (lower source tree).size →
        (focusRule options).reportsAt (lower source tree) number = .ok reports) ∧
      reports.length ≤ 1 ∧
      ∀ report, report ∈ reports ↔ ∃ place receiver, tree.visited[number]? = some place ∧
        Blames options source place receiver ∧ report = place.blame source number receiver := by
  cases hget : tree.visited[number]? with
  | none =>
    rw [List.getElem?_eq_none_iff, ← size_lower source unique] at hget
    exact ⟨[], fun hlt => absurd hlt (Nat.not_lt.mpr hget), by simp, by simp⟩
  | some place =>
    obtain ⟨receivers, hviolations, hone, hreceivers⟩ :=
      violationsAt_lower source options unique fieldsNameChildren hget
    refine ⟨receivers.map (place.blame source number), fun _ => ?_, by simpa using hone, ?_⟩
    · rw [focusRule_reportsAt (node_lower source unique hget) hviolations]
      split
      · rw [List.map_map]
        refine congrArg Except.ok (List.map_congr_left ?_)
        intro receiver _
        simp [violationOf, removalSpan, Place.blame]
      · next hkind =>
        -- The rule is not shown this node, and it would have found nothing there.
        have hempty : receivers = [] := by
          rw [List.eq_nil_iff_forall_not_mem]
          intro receiver hreceiver
          exact hkind ((hreceivers receiver).mp hreceiver).kind_lowered
        rw [hempty]
        rfl
    · intro report
      rw [List.mem_map]
      constructor
      · intro hgiven
        obtain ⟨receiver, hreceiver, rfl⟩ := hgiven
        exact ⟨place, receiver, rfl, (hreceivers receiver).mp hreceiver, rfl⟩
      · intro hgiven
        obtain ⟨other, receiver, hother, hblames, rfl⟩ := hgiven
        rw [Option.some.injEq] at hother
        subst hother
        exact ⟨receiver, (hreceivers receiver).mpr hblames, rfl⟩

/-- For any concrete tree without repeated numbers, whose fields name children, any source text and any
options, a run of the rule on the lowered tree ends without asking for a missing node. It reports exactly
the places that are focus modifiers used on a blocked receiver, each with that receiver, one report a
place and in document order. -/
theorem focus_reports_exactly (source : List Char) (tree : Tree) (options : RuleOptions)
    (unique : tree.ids.Nodup) (fieldsNameChildren : tree.FieldsNameChildren) :
    ∃ reports, Linter.run [focusRule options] (lower source tree) = .ok reports ∧
      (reports.Pairwise fun first second => first.node < second.node) ∧
      ∀ report, report ∈ reports ↔ ∃ place receiver, tree.visited[report.node]? = some place ∧
        Blames options source place receiver ∧
        report = place.blame source report.node receiver := by
  choose reports hrun hone hreports using reportsAt_lower source options unique fieldsNameChildren
  have hnode : ∀ number, ∀ report ∈ reports number, report.node = number := by
    intro number report hreport
    obtain ⟨place, receiver, -, -, rfl⟩ := (hreports number report).mp hreport
    rfl
  refine ⟨(lower source tree).ids.flatMap reports, ?_, Linter.pairwise_node_lt hnode hone, ?_⟩
  · apply Linter.run_eq_flatMap
    intro number hnumber
    rw [Linter.reportsAt_singleton, hrun number hnumber]
  · intro report
    rw [List.mem_flatMap]
    constructor
    · intro hgiven
      obtain ⟨number, -, hreport⟩ := hgiven
      obtain rfl := hnode number report hreport
      exact (hreports _ report).mp hreport
    · intro hgiven
      obtain ⟨place, receiver, hget, hblames, hreport⟩ := hgiven
      have hnumber : report.node < (lower source tree).size := by
        rw [size_lower source unique]
        exact (List.getElem?_eq_some_iff.mp hget).1
      exact ⟨report.node, List.mem_range.mpr hnumber,
        (hreports _ report).mpr ⟨place, receiver, hget, hblames, hreport⟩⟩

/-- The concrete tree of `(it).only`. -/
def bracketedFocus : Tree :=
  .node 0 [] "program" ⟨0, 9⟩
    [.node 1 [] "member_expression" ⟨0, 9⟩
      [.node 2 [.object] parenthesesKind ⟨0, 4⟩ [.node 3 [] "identifier" ⟨1, 3⟩ []],
        .node 4 [.property] "property_identifier" ⟨5, 9⟩ []]]

/-- In that tree the modifier is blamed for the name between the parentheses. -/
theorem focus_reports_exactly_bracketedFocus :
    bracketedFocus.ids.Nodup ∧ bracketedFocus.FieldsNameChildren ∧
    ∃ reports,
      Linter.run [focusRule ⟨none, none⟩] (lower "(it).only".toList bracketedFocus) = .ok reports ∧
      ⟨"no-only-tests", 3, ⟨5, 9⟩, "it.only not permitted", some ⟨4, 9⟩⟩ ∈ reports := by
  have unique : bracketedFocus.ids.Nodup := by decide
  have fieldsNameChildren : bracketedFocus.FieldsNameChildren := by decide
  obtain ⟨reports, hrun, -, hreports⟩ :=
    focus_reports_exactly "(it).only".toList bracketedFocus ⟨none, none⟩ unique fieldsNameChildren
  refine ⟨unique, fieldsNameChildren, reports, hrun, (hreports _).mpr ⟨_, "it", rfl, ?_, rfl⟩⟩
  refine ⟨by decide, by decide, ⟨_, _, rfl, ?_, rfl, GoesBy.plain (by decide)⟩, by decide⟩
  exact Place.isLive_iff.mpr ⟨by decide, Or.inl rfl⟩

end FocusLint
