import FocusLint.Proofs.RuleSimulation
import FocusLint.Proofs.WellLinked

/-!
What comments do to the reports on a concrete tree.

Main statement: `comments_only_hide`. A tree with comments put in, anywhere and as many as one likes, is
reported for nothing that it is not reported for without them, and for the same if no comment stands in for
the object or the index of an access. A comment does so as the first child of parentheses, which it then
stands for (`comment_hides_report`).

The places of the longer tree are those of the shorter one with those of the comments in between
(`interleaved_visited`). What is asked on the way to a node of the lowered tree is answered alike on related
paths. Only links may differ: the fields of related nodes are filled by related nodes (`filler?_commented`),
but taking parentheses away can end at a comment on one side (`bare_commented`).
-/

namespace FocusLint

open Syntax (Tree Field)

def commentKind : String := "comment"

structure Syntax.Tree.IsComment (tree : Tree) : Prop where
  kind : tree.kind = commentKind
  fields : tree.fields = []
  children : tree.children = []

/-- A tree of one source and a tree of another one that has comments put in among the children of its
nodes: every other node is of the same kind and fills the same fields, and names have the same text. The
nodes of the second tree are numbered anew. -/
inductive Commented (rename : Nat → Nat) (source source' : List Char) : Tree → Tree → Prop
  | node {id : Nat} {fields : List Field} {kind : String} {span span' : Span}
      {children children' : List Tree}
      (sameText : kind ∈ identifierKinds → span'.cover source' = span.cover source)
      (below : Interleaved (Commented rename source source') Tree.IsComment children children') :
      Commented rename source source' (.node id fields kind span children)
        (.node (rename id) fields kind span' children')

/-- No comment is what is found between the parentheses of the object, the property or the index of a
node. -/
def Syntax.Tree.NoCommentStandsIn (tree : Tree) : Prop :=
  ∀ place ∈ tree.places, ∀ field ∈ [Field.object, .property, .index],
    ∀ filler ∈ place.node.filler? field, filler.bare.kind ≠ commentKind

instance (tree : Tree) : Decidable tree.NoCommentStandsIn :=
  inferInstanceAs (Decidable (∀ place ∈ tree.places, ∀ field ∈ [Field.object, .property, .index],
    ∀ filler ∈ place.node.filler? field, filler.bare.kind ≠ commentKind))

variable {rename : Nat → Nat} {source source' : List Char} {tree tree' : Tree} {field : Field}

/-! ## Related nodes -/

theorem Commented.kind_eq (h : Commented rename source source' tree tree') : tree'.kind = tree.kind := by
  cases h
  rfl

theorem Commented.id_eq (h : Commented rename source source' tree tree') : tree'.id = rename tree.id := by
  cases h
  rfl

theorem Commented.text_eq (h : Commented rename source source' tree tree')
    (hkind : tree.kind ∈ identifierKinds) : tree'.text source' = tree.text source := by
  cases h with
  | node sameText below => exact congrArg String.ofList (sameText hkind)

theorem rel_or {α β : Type} {r : α → β → Prop} {a b : Option α} {a' b' : Option β}
    (h : Option.Rel r a a') (hothers : Option.Rel r b b') : Option.Rel r (a.or b) (a'.or b') := by
  cases h with
  | some hsame => exact .some hsame
  | none => exact hothers

theorem exists_left_of_rel {α β : Type} {r : α → β → Prop} {a : Option α} {b : β}
    (h : Option.Rel r a (some b)) : ∃ first, a = some first ∧ r first b := by
  cases h with
  | some hsame => exact ⟨_, rfl, hsame⟩

theorem exists_right_of_rel {α β : Type} {r : α → β → Prop} {a : α} {b : Option β}
    (h : Option.Rel r (some a) b) : ∃ second, b = some second ∧ r a second := by
  cases h with
  | some hsame => exact ⟨_, rfl, hsame⟩

namespace Syntax.Tree

theorem IsComment.filling?_eq (h : tree.IsComment) : tree.filling? field = none := by
  cases tree with
  | node id fields kind span children =>
    have hfields : fields = [] := h.fields
    simp [filling?, hfields]

theorem IsComment.bare_eq (h : tree.IsComment) : tree.bare = tree := by
  cases tree with
  | node id fields kind span children =>
    have hchildren : children = [] := h.children
    subst hchildren
    rw [bare]

theorem bare_of_ne (h : tree.kind ≠ parenthesesKind) : tree.bare = tree := by
  cases tree with
  | node id fields kind span children =>
    cases children with
    | nil => rw [bare]
    | cons first others =>
      rw [bare]
      exact if_neg h

-- The recursion is on the second tree, whose children are those of the first one and comments.
mutual

theorem filling?_commented : ∀ {tree' tree : Tree}, Commented rename source source' tree tree' →
    Option.Rel (Commented rename source source') (tree.filling? field) (tree'.filling? field)
  | .node _ fields kind span' children', _, .node sameText below => by
    rw [filling?, filling?]
    split
    · exact .some (.node sameText below)
    · split
      · exact fillerAmong_commented below
      · exact .none

theorem fillerAmong_commented : ∀ {trees' trees : List Tree},
    Interleaved (Commented rename source source') IsComment trees trees' →
      Option.Rel (Commented rename source source') (fillerAmong field trees) (fillerAmong field trees')
  | [], _, .nil => .none
  | _ :: _, _, .extra isComment others => by
    rw [fillerAmong, isComment.filling?_eq, Option.none_or]
    exact fillerAmong_commented others
  | _ :: _, _, .same isSame others => by
    rw [fillerAmong, fillerAmong]
    exact rel_or (filling?_commented isSame) (fillerAmong_commented others)

end

theorem filler?_commented (h : Commented rename source source' tree tree') :
    Option.Rel (Commented rename source source') (tree.filler? field) (tree'.filler? field) := by
  cases h with
  | node sameText below => exact fillerAmong_commented below

/-- Taking parentheses away from related nodes leaves related nodes, unless it leaves a comment. -/
theorem bare_commented (h : Commented rename source source' tree tree') :
    tree'.bare.IsComment ∨ Commented rename source source' tree.bare tree'.bare := by
  -- Down the parentheses of the second tree: a comment that comes first ends the way.
  induction tree' using Tree.bare.induct generalizing tree with
  | case1 id' fields kind span' =>
    cases h with
    | node sameText below =>
      cases below
      rw [bare, bare]
      exact Or.inr (.node sameText .nil)
  | case2 id' fields span' first' others' ih =>
    rw [bare, if_pos rfl]
    cases h with
    | node _ below =>
      cases below with
      | extra isComment _ =>
        left
        rw [isComment.bare_eq]
        exact isComment
      | same isSame _ =>
        rw [bare, if_pos rfl]
        exact ih isSame
  | case3 id' fields kind span' first' others' hkind =>
    have hbare : tree.bare = tree := bare_of_ne (h.kind_eq ▸ hkind)
    rw [hbare, bare_of_ne (by exact hkind)]
    exact Or.inr h

theorem propertyField?_of_commented (h : Commented rename source source' tree tree')
    (hfield : tree'.propertyField? = some field) : tree.propertyField? = some field := by
  rw [propertyField?_eq_some, h.kind_eq] at hfield
  rw [propertyField?_eq_some]
  refine hfield.imp_right fun hgiven => ?_
  obtain ⟨hsubscript, hindexField, index', hindex', hname⟩ := hgiven
  obtain ⟨index, hindex, hsame⟩ := exists_left_of_rel (hindex' ▸ filler?_commented h)
  refine ⟨hsubscript, hindexField, index, hindex, ?_⟩
  rcases bare_commented hsame with hcomment | hbare
  · rw [hcomment.kind] at hname
    exact absurd hname (by decide)
  · rw [← hbare.kind_eq, hname]

theorem propertyField?_commented (h : Commented rename source source' tree tree')
    (clear : ∀ filler', tree'.filler? .index = some filler' → filler'.bare.kind ≠ commentKind)
    (hfield : tree.propertyField? = some field) : tree'.propertyField? = some field := by
  rw [propertyField?_eq_some] at hfield
  rw [propertyField?_eq_some, h.kind_eq]
  refine hfield.imp_right fun hgiven => ?_
  obtain ⟨hsubscript, hindexField, index, hindex, hname⟩ := hgiven
  obtain ⟨index', hindex', hsame⟩ := exists_right_of_rel (hindex ▸ filler?_commented h)
  refine ⟨hsubscript, hindexField, index', hindex', ?_⟩
  have hbare := (bare_commented hsame).resolve_left fun hcomment => clear index' hindex' hcomment.kind
  rw [hbare.kind_eq, hname]

end Syntax.Tree

/-! ## Related places -/

/-- A place and the same place with comments put in. -/
structure SamePlace (rename : Nat → Nat) (source source' : List Char) (place place' : Place) : Prop where
  node : Commented rename source source' place.node place'.node
  above : List.Forall₂ (Commented rename source source') place.above place'.above

variable {place place' : Place} {above above' : List Tree}

namespace Syntax.Tree

mutual

theorem interleaved_placesUnder : ∀ {tree' tree : Tree} {above above' : List Tree},
    Commented rename source source' tree tree' →
    List.Forall₂ (Commented rename source source') above above' →
      Interleaved (SamePlace rename source source') (fun place' => place'.node.IsComment)
        (tree.placesUnder above) (tree'.placesUnder above')
  | .node _ _ _ _ _, _, _, _, .node sameText below, habove => by
    rw [placesUnder, placesUnder]
    exact .same ⟨.node sameText below, habove⟩
      (interleaved_placesUnderAll below (.cons (.node sameText below) habove))

theorem interleaved_placesUnderAll : ∀ {trees' trees above above' : List Tree},
    Interleaved (Commented rename source source') IsComment trees trees' →
    List.Forall₂ (Commented rename source source') above above' →
      Interleaved (SamePlace rename source source') (fun place' => place'.node.IsComment)
        (placesUnderAll above trees) (placesUnderAll above' trees')
  | [], _, _, _, .nil, _ => .nil
  | _ :: _, _, _, _, .extra isComment others, habove => by
    rw [placesUnderAll, placesUnder_eq, isComment.children, List.flatMap_nil, List.singleton_append]
    exact .extra isComment (interleaved_placesUnderAll others habove)
  | _ :: _, _, _, _, .same isSame others, habove => by
    rw [placesUnderAll, placesUnderAll]
    exact (interleaved_placesUnder isSame habove).append (interleaved_placesUnderAll others habove)

end

theorem interleaved_visited (h : Commented rename source source' tree tree') :
    Interleaved (SamePlace rename source source') (fun place' => place'.node.IsComment)
      tree.visited tree'.visited := by
  refine (interleaved_placesUnder h .nil).filter fun place place' hsame => ?_
  rw [Place.isVisited, Place.isVisited, hsame.node.kind_eq]

theorem trigger?_commented (injective : Function.Injective rename) {parent parent' : Tree}
    (hparent : Commented rename source source' parent parent')
    (hchild : Commented rename source source' tree tree') :
    trigger? parent' tree' = trigger? parent tree := by
  -- The name of a tag is known by its number, and renaming makes no two numbers one.
  have htag : parent'.isTagName tree' = parent.isTagName tree := by
    rw [isTagName, isTagName, hparent.kind_eq, hchild.id_eq]
    have hfillers : Option.Rel _ (parent.filler? .name) (parent'.filler? .name) := filler?_commented hparent
    generalize parent.filler? .name = filler, parent'.filler? .name = filler' at hfillers
    cases hfillers with
    | none => rfl
    | @some filler filler' hfiller =>
      have hids : (rename filler.id == rename tree.id) = (filler.id == tree.id) := by
        rw [Bool.eq_iff_iff, beq_iff_eq, beq_iff_eq, injective.eq_iff]
      simp [hfiller.id_eq, hids]
  rw [trigger?, trigger?, hparent.kind_eq, htag]

/-- The first trigger on a path does not depend on comments. -/
theorem firstTrigger?_commented (injective : Function.Injective rename) {path path' : List Tree}
    (h : List.Forall₂ (Commented rename source source') path path') :
    firstTrigger? path' = firstTrigger? path := by
  induction h with
  | nil => rfl
  | cons hchild hpath ih =>
    cases hpath with
    | nil => rfl
    | cons hparent hrest =>
      rw [firstTrigger?, firstTrigger?, ih, trigger?_commented injective hparent hchild]

end Syntax.Tree

theorem nearest?_commented (h : List.Forall₂ (Commented rename source source') above above') :
    Option.Rel (SamePlace rename source source') (Place.nearest? above) (Place.nearest? above') := by
  induction h with
  | nil => exact .none
  | cons hancestor hrest ih =>
    rw [Place.nearest?, Place.nearest?, hancestor.kind_eq]
    split
    · exact ih
    · exact .some ⟨hancestor, hrest⟩

namespace SamePlace

theorem parent? (h : SamePlace rename source source' place place') :
    Option.Rel (SamePlace rename source source') place.parent? place'.parent? :=
  nearest?_commented h.above

theorem firstTrigger?_eq (injective : Function.Injective rename)
    (h : SamePlace rename source source' place place') :
    firstTrigger? place'.path = firstTrigger? place.path :=
  Tree.firstTrigger?_commented injective (.cons h.node h.above)

theorem position_eq (injective : Function.Injective rename)
    (h : SamePlace rename source source' place place') : place'.position = place.position :=
  congrArg positionAfter (h.firstTrigger?_eq injective)

theorem accessField?_of_commented (injective : Function.Injective rename)
    (h : SamePlace rename source source' place place')
    (hfield : (place'.pending tree').accessField? = some field) :
    (place.pending tree).accessField? = some field := by
  obtain ⟨hposition, hproperty⟩ := Place.accessField?_eq_some.mp hfield
  rw [h.position_eq injective] at hposition
  exact Place.accessField?_eq_some.mpr ⟨hposition, Tree.propertyField?_of_commented h.node hproperty⟩

theorem accessField?_commented (injective : Function.Injective rename)
    (h : SamePlace rename source source' place place')
    (clear : ∀ filler', place'.node.filler? .index = some filler' → filler'.bare.kind ≠ commentKind)
    (hfield : (place.pending tree).accessField? = some field) :
    (place'.pending tree').accessField? = some field := by
  obtain ⟨hposition, hproperty⟩ := Place.accessField?_eq_some.mp hfield
  rw [← h.position_eq injective] at hposition
  exact Place.accessField?_eq_some.mpr ⟨hposition, Tree.propertyField?_commented h.node clear hproperty⟩

end SamePlace

/-! ## Counterparts -/

/-- Two numbers that belong to the same place of two trees. -/
def Counterpart (rename : Nat → Nat) (source source' : List Char) (tree tree' : Tree)
    (id id' : NodeId) : Prop :=
  ∃ place place', tree.visited[id]? = some place ∧ tree'.visited[id']? = some place' ∧
    SamePlace rename source source' place place'

/-- Places whose nodes have the same number up to renaming are the same. -/
theorem samePlace_of_id_eq (unique' : tree'.ids.Nodup)
    (commented : Commented rename source source' tree tree')
    (hplace : place ∈ tree.visited) (hplace' : place' ∈ tree'.visited)
    (hid : place'.node.id = rename place.node.id) : SamePlace rename source source' place place' := by
  -- The place is the same as some place of the second tree, and no other one there has its number.
  obtain ⟨other, hother, hsame⟩ := (Tree.interleaved_visited commented).exists_second hplace
  have heq : other.node.id = place'.node.id := by rw [hsame.node.id_eq, hid]
  rwa [List.inj_on_of_nodup_map (Tree.nodup_visited unique') hother hplace' heq] at hsame

theorem counterpart_of_bare (unique' : tree'.ids.Nodup)
    (commented : Commented rename source source' tree tree')
    {filler filler' : Tree} {found found' : Place} {id id' : NodeId}
    (hbare : Commented rename source source' filler.bare filler'.bare)
    (hget : tree.visited[id]? = some found) (hnode : found.node = filler.bare)
    (hget' : tree'.visited[id']? = some found') (hnode' : found'.node = filler'.bare) :
    Counterpart rename source source' tree tree' id id' := by
  refine ⟨found, found', hget, hget', ?_⟩
  refine samePlace_of_id_eq unique' commented (List.mem_of_getElem? hget) (List.mem_of_getElem? hget') ?_
  rw [hnode, hnode', hbare.id_eq]

theorem mute_lowered_of_comment (h : place'.node.IsComment) : (place'.lowered source' tree').Mute := by
  have hname : (place'.lowered source' tree').kind ≠ .identifier := by
    intro hkind
    have hidentifier := (Place.kind_lowered_eq_identifier.mp hkind).1
    rw [h.kind] at hidentifier
    exact absurd hidentifier (by decide)
  have haccess : (place'.pending tree').accessField? = none := by
    rw [Place.accessField?_eq_none_iff]
    intro hgiven
    obtain ⟨-, hmember | ⟨hsubscript, -⟩⟩ := hgiven
    · rw [h.kind] at hmember
      exact absurd hmember (by decide)
    · rw [h.kind] at hsubscript
      exact absurd hsubscript (by decide)
  have hlinks : (place'.lowered source' tree').object = none ∧
      (place'.lowered source' tree').property = none :=
    Place.links_lowered_of_none haccess
  exact ⟨by rw [Place.name_lowered, if_neg hname], hlinks.1, hlinks.2⟩

namespace SamePlace

theorem kind_lowered_iff (injective : Function.Injective rename)
    (h : SamePlace rename source source' place place') :
    (place'.lowered source' tree').kind = .identifier ↔ (place.lowered source tree).kind = .identifier := by
  rw [Place.kind_lowered_eq_identifier, Place.kind_lowered_eq_identifier, h.node.kind_eq,
    h.firstTrigger?_eq injective]

theorem name_lowered_eq (injective : Function.Injective rename)
    (h : SamePlace rename source source' place place') :
    (place'.lowered source' tree').name = (place.lowered source tree).name := by
  rw [Place.name_lowered, Place.name_lowered]
  by_cases hkind : (place.lowered source tree).kind = .identifier
  · rw [if_pos hkind, if_pos ((h.kind_lowered_iff injective).mpr hkind),
      h.node.text_eq (Place.kind_lowered_eq_identifier.mp hkind).1]
  · rw [if_neg hkind, if_neg (mt (h.kind_lowered_iff injective).mp hkind)]

end SamePlace

/-! ## Simulations between lowered trees -/

theorem namedBy_lower (source : List Char) (unique : tree.ids.Nodup) :
    (lower source tree).NamedBy source := by
  intro id node name hnode hname
  obtain ⟨place, -, rfl⟩ := exists_place_of_node source unique hnode
  rw [Place.name_lowered] at hname
  split at hname
  · rw [Place.span_lowered]
    exact Option.some.inj hname
  · cases hname

/-- A link with comments put in leads to a comment or to where it leads without them. -/
theorem keepsLink_of_commented (unique : tree.ids.Nodup) (unique' : tree'.ids.Nodup)
    (commented : Commented rename source source' tree tree') (hplace : place ∈ tree.places)
    (hplace' : place' ∈ tree'.places) (hsame : SamePlace rename source source' place place') (field : Field) :
    (lower source' tree').KeepsLink (fun id' id => Counterpart rename source source' tree tree' id id')
      (place'.link? tree' field) (place.link? tree field) := by
  intro id' hlink'
  obtain ⟨filler', found', hfiller', hget', hnode'⟩ := exists_filler_of_link unique' hplace' hlink'
  obtain ⟨filler, hfiller, hsameFiller⟩ := exists_left_of_rel (hfiller' ▸ Tree.filler?_commented hsame.node)
  rcases Tree.bare_commented hsameFiller with hcomment | hbare
  · -- A comment stands in, and the rule gets nothing from it.
    left
    rw [← hnode'] at hcomment
    exact ⟨_, node_lower source' unique' hget', mute_lowered_of_comment hcomment⟩
  · right
    have hkind : filler.bare.kind ≠ parenthesesKind := by
      rw [← hbare.kind_eq, ← hnode']
      exact (Tree.mem_visited.mp (List.mem_of_getElem? hget')).2
    obtain ⟨id, found, hlink, hget, hnode⟩ := exists_link_of_filler unique hplace hfiller hkind
    exact ⟨id, hlink, counterpart_of_bare unique' commented hbare hget hnode hget' hnode'⟩

theorem keepsLink_commented (unique : tree.ids.Nodup) (unique' : tree'.ids.Nodup)
    (commented : Commented rename source source' tree tree') (hplace : place ∈ tree.places)
    (hplace' : place' ∈ tree'.places) (hsame : SamePlace rename source source' place place')
    (clear : ∀ filler', place'.node.filler? field = some filler' → filler'.bare.kind ≠ commentKind) :
    (lower source tree).KeepsLink (Counterpart rename source source' tree tree')
      (place.link? tree field) (place'.link? tree' field) := by
  intro id hlink
  right
  obtain ⟨filler, found, hfiller, hget, hnode⟩ := exists_filler_of_link unique hplace hlink
  obtain ⟨filler', hfiller', hsameFiller⟩ := exists_right_of_rel (hfiller ▸ Tree.filler?_commented hsame.node)
  have hbare := (Tree.bare_commented hsameFiller).resolve_left fun hcomment =>
    clear filler' hfiller' hcomment.kind
  have hkind : filler'.bare.kind ≠ parenthesesKind := by
    rw [hbare.kind_eq, ← hnode]
    exact (Tree.mem_visited.mp (List.mem_of_getElem? hget)).2
  obtain ⟨id', found', hlink', hget', hnode'⟩ := exists_link_of_filler unique' hplace' hfiller' hkind
  exact ⟨id', hlink', counterpart_of_bare unique' commented hbare hget hnode hget' hnode'⟩

/-- What a lowered node shows depends on its kind, its name, its parent and the links of its fields. -/
theorem shows_lowered {arena : Arena} {Same : NodeId → NodeId → Prop}
    (kind : (place.lowered source tree).kind = .identifier →
      (place'.lowered source' tree').kind = .identifier)
    (name : (place'.lowered source' tree').name = (place.lowered source tree).name)
    (parent : ∀ above, (place.lowered source tree).parent = some above →
      ∃ above', (place'.lowered source' tree').parent = some above' ∧ Same above above')
    (links : ∀ field, (place.pending tree).accessField? = some field →
      (place'.pending tree').accessField? = some field ∧ ∀ used, used = .object ∨ used = field →
        arena.KeepsLink Same (place.link? tree used) (place'.link? tree' used)) :
    (place.lowered source tree).Shows arena Same (place'.lowered source' tree') := by
  have hlinks :
      arena.KeepsLink Same (place.lowered source tree).object (place'.lowered source' tree').object ∧
      arena.KeepsLink Same (place.lowered source tree).property (place'.lowered source' tree').property := by
    cases hfield : (place.pending tree).accessField? with
    | none =>
      have hnone : (place.lowered source tree).object = none ∧ (place.lowered source tree).property = none :=
        Place.links_lowered_of_none hfield
      rw [hnone.1, hnone.2]
      exact ⟨arena.keepsLink_none Same _, arena.keepsLink_none Same _⟩
    | some field =>
      obtain ⟨hfield', hkeeps⟩ := links field hfield
      rw [Place.lowered_of_access hfield, Place.lowered_of_access hfield']
      exact ⟨hkeeps .object (Or.inl rfl), hkeeps field (Or.inr rfl)⟩
  exact ⟨kind, name, parent, hlinks.1, hlinks.2⟩

/-- With comments put in, a node shows the rule no more than without them. -/
theorem simulatedBy_of_commented (injective : Function.Injective rename) (unique : tree.ids.Nodup)
    (unique' : tree'.ids.Nodup) (commented : Commented rename source source' tree tree') :
    (lower source' tree').SimulatedBy (lower source tree) fun id' id =>
      Counterpart rename source source' tree tree' id id' := by
  intro id' id node' hcounterpart hnode'
  obtain ⟨place, place', hget, hget', hsame⟩ := hcounterpart
  have hplace := (Tree.mem_visited.mp (List.mem_of_getElem? hget)).1
  have hplace' := (Tree.mem_visited.mp (List.mem_of_getElem? hget')).1
  rw [node_lower source' unique' hget', Except.ok.injEq] at hnode'
  subst hnode'
  refine ⟨_, node_lower source unique hget, shows_lowered (hsame.kind_lowered_iff injective).mp
    (hsame.name_lowered_eq injective).symm (fun above' habove' => ?_) (fun field hfield => ?_)⟩
  · obtain ⟨parent', hparent', hgetParent'⟩ := (parent_lowered_eq_some unique' hplace').mp habove'
    obtain ⟨parent, hparent, hsameParent⟩ := exists_left_of_rel (hparent' ▸ hsame.parent?)
    obtain ⟨above, hgetParent⟩ := List.mem_iff_getElem?.mp (Tree.parent_mem_visited hplace hparent)
    exact ⟨above, (parent_lowered_eq_some unique hplace).mpr ⟨parent, hparent, hgetParent⟩,
      parent, parent', hgetParent, hgetParent', hsameParent⟩
  · refine ⟨hsame.accessField?_of_commented injective hfield, fun used _ => ?_⟩
    exact keepsLink_of_commented unique unique' commented hplace hplace' hsame used

theorem simulatedBy_commented (injective : Function.Injective rename) (unique : tree.ids.Nodup)
    (unique' : tree'.ids.Nodup) (commented : Commented rename source source' tree tree')
    (clear : tree'.NoCommentStandsIn) :
    (lower source tree).SimulatedBy (lower source' tree') (Counterpart rename source source' tree tree') := by
  intro id id' node hcounterpart hnode
  obtain ⟨place, place', hget, hget', hsame⟩ := hcounterpart
  have hplace := (Tree.mem_visited.mp (List.mem_of_getElem? hget)).1
  have hplace' := (Tree.mem_visited.mp (List.mem_of_getElem? hget')).1
  rw [node_lower source unique hget, Except.ok.injEq] at hnode
  subst hnode
  refine ⟨_, node_lower source' unique' hget', shows_lowered (hsame.kind_lowered_iff injective).mpr
    (hsame.name_lowered_eq injective) (fun above habove => ?_) (fun field hfield => ?_)⟩
  · obtain ⟨parent, hparent, hgetParent⟩ := (parent_lowered_eq_some unique hplace).mp habove
    obtain ⟨parent', hparent', hsameParent⟩ := exists_right_of_rel (hparent ▸ hsame.parent?)
    obtain ⟨above', hgetParent'⟩ := List.mem_iff_getElem?.mp (Tree.parent_mem_visited hplace' hparent')
    exact ⟨above', (parent_lowered_eq_some unique' hplace').mpr ⟨parent', hparent', hgetParent'⟩,
      parent, parent', hgetParent, hgetParent', hsameParent⟩
  · have hused : ∀ used, used = .object ∨ used = field → used ∈ [Field.object, .property, .index] := by
      have hproperty := Tree.propertyField?_eq_some.mp (Place.accessField?_eq_some.mp hfield).2
      rintro used (rfl | rfl)
      · simp
      · rcases hproperty with ⟨-, rfl⟩ | ⟨-, rfl, -⟩ <;> simp
    refine ⟨hsame.accessField?_commented injective (clear place' hplace' .index (by simp)) hfield,
      fun used h => ?_⟩
    exact keepsLink_commented unique unique' commented hplace hplace' hsame
      (clear place' hplace' used (hused used h))

/-! ## Reports -/

/-- For any concrete tree, any way of putting comments in, anywhere in it and as many as one likes, and any
options, a run of the rule ends with the comments and without them. What is said with the comments, by the
texts of the anchors and the messages, is a part of what is said without them, in the same order. It is all
of it if no comment stands in for the object, the property or the index of a node. -/
theorem comments_only_hide (source source' : List Char) (tree tree' : Tree) (options : RuleOptions)
    (rename : Nat → Nat) (injective : Function.Injective rename) (unique : tree.ids.Nodup)
    (unique' : tree'.ids.Nodup) (commented : Commented rename source source' tree tree') :
    ∃ reports reports', Linter.run [focusRule options] (lower source tree) = .ok reports ∧
      Linter.run [focusRule options] (lower source' tree') = .ok reports' ∧
      (reports'.map (Report.said source')).Sublist (reports.map (Report.said source)) ∧
      (tree'.NoCommentStandsIn →
        reports'.map (Report.said source') = reports.map (Report.said source)) := by
  have interleaved : Interleaved (Counterpart rename source source' tree tree')
      (fun id' => ∃ node', (lower source' tree').node id' = .ok node' ∧ node'.Mute)
      (lower source tree).ids (lower source' tree').ids := by
    have hids := (Tree.interleaved_visited commented).range
    rw [← size_lower source unique, ← size_lower source' unique'] at hids
    refine hids.imp fun id' hgiven => ?_
    obtain ⟨place', hget', hcomment⟩ := hgiven
    exact ⟨_, node_lower source' unique' hget', mute_lowered_of_comment hcomment⟩
  obtain ⟨reports, reports', hrun, hrun', hless, hsame⟩ := exists_runs_of_interleaved
    (wellLinked_lower source unique) (wellLinked_lower source' unique')
    (namesAreNoAccesses_lower source unique) (namesAreNoAccesses_lower source' unique')
    (namedBy_lower source unique) (namedBy_lower source' unique') interleaved
    (simulatedBy_of_commented injective unique unique' commented) options
  refine ⟨reports, reports', hrun, hrun', hless, fun clear => ?_⟩
  exact hsame (simulatedBy_commented injective unique unique' commented clear)

/-- The concrete tree of `(it).only`. -/
def bracketedReceiver : Tree :=
  .node 0 [] "program" ⟨0, 9⟩
    [.node 1 [] "member_expression" ⟨0, 9⟩
      [.node 2 [.object] parenthesesKind ⟨0, 4⟩ [.node 3 [] "identifier" ⟨1, 3⟩ []],
        .node 4 [.property] "property_identifier" ⟨5, 9⟩ []]]

/-- The concrete tree of `(it/**/).only`. -/
def commentBehindReceiver : Tree :=
  .node 0 [] "program" ⟨0, 13⟩
    [.node 1 [] "member_expression" ⟨0, 13⟩
      [.node 2 [.object] parenthesesKind ⟨0, 8⟩
        [.node 3 [] "identifier" ⟨1, 3⟩ [], .node 4 [] commentKind ⟨3, 7⟩ []],
        .node 5 [.property] "property_identifier" ⟨9, 13⟩ []]]

/-- The concrete tree of `(/**/it).only`. -/
def commentBeforeReceiver : Tree :=
  .node 0 [] "program" ⟨0, 13⟩
    [.node 1 [] "member_expression" ⟨0, 13⟩
      [.node 2 [.object] parenthesesKind ⟨0, 8⟩
        [.node 3 [] commentKind ⟨1, 5⟩ [], .node 4 [] "identifier" ⟨5, 7⟩ []],
        .node 5 [.property] "property_identifier" ⟨9, 13⟩ []]]

/-- The numbers of a tree in which one more node got a number. -/
def numbersAround (added : Nat) (id : Nat) : Nat := if id < added then id else id + 1

theorem numbersAround_injective (added : Nat) : Function.Injective (numbersAround added) := by
  intro a b h
  unfold numbersAround at h
  split at h <;> split at h <;> omega

theorem commented_behindReceiver : Commented (numbersAround 4) "(it).only".toList "(it/**/).only".toList
    bracketedReceiver commentBehindReceiver := by
  refine .node (by decide) (.same (.node (by decide) (.same (.node (by decide) ?_) (.same ?_ .nil))) .nil)
  · exact .same (.node (by decide) .nil) (.extra ⟨rfl, rfl, rfl⟩ .nil)
  · exact .node (by decide) .nil

theorem commented_beforeReceiver : Commented (numbersAround 3) "(it).only".toList "(/**/it).only".toList
    bracketedReceiver commentBeforeReceiver := by
  refine .node (by decide) (.same (.node (by decide) (.same (.node (by decide) ?_) (.same ?_ .nil))) .nil)
  · exact .extra ⟨rfl, rfl, rfl⟩ (.same (.node (by decide) .nil) .nil)
  · exact .node (by decide) .nil

theorem run_bracketedReceiver :
    Linter.run [focusRule ⟨none, none⟩] (lower "(it).only".toList bracketedReceiver) =
      .ok [⟨"no-only-tests", 3, ⟨5, 9⟩, "it.only not permitted", some ⟨4, 9⟩⟩] := by
  rw [lower_eq _ (by decide)]
  decide

/-- A comment behind the receiver between its parentheses changes nothing. -/
theorem comments_only_hide_behindReceiver :
    bracketedReceiver.ids.Nodup ∧ commentBehindReceiver.ids.Nodup ∧
    commentBehindReceiver.NoCommentStandsIn ∧
    Commented (numbersAround 4) "(it).only".toList "(it/**/).only".toList bracketedReceiver
      commentBehindReceiver ∧
    ∃ reports', Linter.run [focusRule ⟨none, none⟩]
        (lower "(it/**/).only".toList commentBehindReceiver) = .ok reports' ∧
      reports'.map (Report.said "(it/**/).only".toList) = [("only", "it.only not permitted")] := by
  have unique : bracketedReceiver.ids.Nodup := by decide
  have unique' : commentBehindReceiver.ids.Nodup := by decide
  have clear : commentBehindReceiver.NoCommentStandsIn := by decide
  obtain ⟨reports, reports', hrun, hrun', -, hsame⟩ := comments_only_hide "(it).only".toList
    "(it/**/).only".toList bracketedReceiver commentBehindReceiver ⟨none, none⟩ (numbersAround 4)
    (numbersAround_injective 4) unique unique' commented_behindReceiver
  rw [run_bracketedReceiver] at hrun
  cases hrun
  exact ⟨unique, unique', clear, commented_behindReceiver, reports', hrun', (hsame clear).trans (by decide)⟩

/-- A comment before the receiver between its parentheses stands in for it, and the report is lost. -/
theorem comment_hides_report :
    bracketedReceiver.ids.Nodup ∧ commentBeforeReceiver.ids.Nodup ∧
    Commented (numbersAround 3) "(it).only".toList "(/**/it).only".toList bracketedReceiver
      commentBeforeReceiver ∧
    ∃ reports reports', Linter.run [focusRule ⟨none, none⟩]
        (lower "(it).only".toList bracketedReceiver) = .ok reports ∧
      Linter.run [focusRule ⟨none, none⟩] (lower "(/**/it).only".toList commentBeforeReceiver) =
        .ok reports' ∧
      reports.map (Report.said "(it).only".toList) = [("only", "it.only not permitted")] ∧
      reports'.map (Report.said "(/**/it).only".toList) = [] := by
  have unique' : commentBeforeReceiver.ids.Nodup := by decide
  have hrun' : Linter.run [focusRule ⟨none, none⟩] (lower "(/**/it).only".toList commentBeforeReceiver) =
      .ok [] := by
    rw [lower_eq _ unique']
    decide
  exact ⟨by decide, unique', commented_beforeReceiver, _, _, run_bracketedReceiver, hrun', by decide, rfl⟩

end FocusLint
