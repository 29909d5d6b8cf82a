import FocusLint.Arena
import FocusLint.Syntax.Tree
import Std.Data.HashMap

/-!
Lowering: from the concrete tree of a source to the tree that is linted.

Nodes are visited in document order, with a stack of those that are still to come. Parentheses have no
node of their own: what stands between them hangs off the node around them. Names that are part of the
name of a tag are no identifiers, and neither there nor below a type query is there an access to a
member. What is the object and what is the property of an access is known only when both have been
added, so these links are set in a second loop, over the accesses that the first one met.
-/

namespace FocusLint

open Syntax (Tree Field)

/-- Where a node stands: among expressions, below the query for the type of an expression, or in the
name of a tag. -/
inductive Position where
  | expression
  | typeQuery
  | tagName
  deriving DecidableEq, Repr

def identifierKinds : List String :=
  ["identifier", "property_identifier", "shorthand_property_identifier",
    "shorthand_property_identifier_pattern", "statement_identifier", "type_identifier"]

def tagKinds : List String :=
  ["jsx_opening_element", "jsx_closing_element", "jsx_self_closing_element"]

def parenthesesKind : String := "parenthesized_expression"

namespace Syntax.Tree

/-- What is left of a node when parentheses are taken away: their first child stands for them. -/
def bare : Tree → Tree
  | .node id fields kind span [] => .node id fields kind span []
  | .node id fields kind span (first :: others) =>
    if kind = parenthesesKind then first.bare else .node id fields kind span (first :: others)

/-- The field that holds the property of an access. A value between brackets is the property only if it
is a plain name. -/
def propertyField? (tree : Tree) : Option Field :=
  if tree.kind = "member_expression" then some .property
  else if tree.kind = "subscript_expression" then
    match tree.filler? .index with
    | some index => if index.bare.kind = "identifier" then some .index else none
    | none => none
  else none

def isTagName (tag child : Tree) : Bool :=
  tagKinds.contains tag.kind && (tag.filler? .name).map id == some child.id

end Syntax.Tree

/-- A node that is still to be visited, with its parent and its position. -/
structure Pending where
  tree : Tree
  parent : Option NodeId
  position : Position

namespace Pending

def childPosition (pending : Pending) (child : Tree) : Position :=
  match pending.position with
  | .expression =>
    if pending.tree.kind = "type_query" then .typeQuery
    else if pending.tree.isTagName child then .tagName
    else .expression
  | position => position

/-- The children of parentheses, which take their place. -/
def unwrapped (pending : Pending) : List Pending :=
  pending.tree.children.map fun child => ⟨child, pending.parent, pending.position⟩

def below (pending : Pending) (id : NodeId) : List Pending :=
  pending.tree.children.map fun child => ⟨child, some id, pending.childPosition child⟩

/-- The field of the property, if a node is lowered to an access. -/
def accessField? (pending : Pending) : Option Field :=
  if pending.position = .expression then pending.tree.propertyField? else none

/-- The node that a concrete node, which is no parentheses, is lowered to. -/
def lowered (source : List Char) (pending : Pending) : Node :=
  let tree := pending.tree
  if pending.accessField?.isSome then
    ⟨.memberExpression, none, pending.parent, none, none, tree.span⟩
  else if identifierKinds.contains tree.kind && pending.position ≠ .tagName then
    ⟨.identifier, some (String.ofList (tree.span.cover source)), pending.parent, none, none, tree.span⟩
  else ⟨.other tree.kind, none, pending.parent, none, none, tree.span⟩

/-- Puts nodes on a stack, the last one first, so that the first one is visited next. -/
def push (stack children : List Pending) : List Pending :=
  children.reverse.foldl (fun stack child => child :: stack) stack

@[simp] theorem push_eq (stack children : List Pending) : push stack children = children ++ stack := by
  simp [push]

/-- The number of concrete nodes that are still to be visited. -/
def work : List Pending → Nat
  | [] => 0
  | pending :: others => pending.tree.count + work others

theorem work_append (a b : List Pending) : work (a ++ b) = work a + work b := by
  induction a with
  | nil => simp [work]
  | cons p a ih => simp [work, ih, Nat.add_assoc]

theorem work_map (f : Tree → Pending) (hf : ∀ tree, (f tree).tree = tree) (trees : List Tree) :
    work (trees.map f) = Tree.countAll trees := by
  induction trees with
  | nil => rfl
  | cons tree others ih => simp [work, Tree.countAll, hf, ih]

theorem count_eq (pending : Pending) : pending.tree.count = Tree.countAll pending.tree.children + 1 := by
  cases pending.tree with
  | node id fields kind span children => simp [Tree.count, Tree.children]

theorem work_unwrapped (pending : Pending) : work pending.unwrapped + 1 = pending.tree.count := by
  rw [unwrapped, work_map _ (fun _ => rfl), count_eq]

theorem work_below (pending : Pending) (id : NodeId) :
    work (pending.below id) + 1 = pending.tree.count := by
  rw [below, work_map _ (fun _ => rfl), count_eq]

end Pending

/-- An access that was added and whose object and property are not known yet: its number, the concrete
node and the field of the property. -/
structure Access where
  id : NodeId
  tree : Tree
  property : Field

/-- How far lowering has come: the nodes that are still to be visited, the one that is next first, the
nodes that were added, their numbers by the number of the concrete node, and the accesses among them. -/
structure Lowering where
  stack : List Pending
  arena : Arena
  numbers : Std.HashMap Nat NodeId
  accesses : Array Access

namespace Lowering

def start (tree : Tree) : Lowering := ⟨[⟨tree, none, .expression⟩], .empty, ∅, #[]⟩

def visit (source : List Char) (lowering : Lowering) (pending : Pending) (others : List Pending) :
    Lowering :=
  if pending.tree.kind = parenthesesKind then
    { lowering with stack := Pending.push others pending.unwrapped }
  else
    let (id, arena) := lowering.arena.add (pending.lowered source)
    { stack := Pending.push others (pending.below id)
      arena
      numbers := lowering.numbers.insert pending.tree.id id
      accesses := match pending.accessField? with
        | some field => lowering.accesses.push ⟨id, pending.tree, field⟩
        | none => lowering.accesses }

/-- Visits the next node, if there is one. -/
def step (source : List Char) (lowering : Lowering) : Option Lowering :=
  match lowering.stack with
  | [] => none
  | pending :: others => some (lowering.visit source pending others)

/-- Every step visits one concrete node. -/
theorem work_step {source : List Char} {lowering next : Lowering}
    (h : lowering.step source = some next) :
    Pending.work next.stack + 1 = Pending.work lowering.stack := by
  unfold step at h
  split at h
  · cases h
  · next pending others heq =>
    cases h
    rw [heq]
    simp only [visit, Arena.add, Pending.push_eq]
    split
    · have := pending.work_unwrapped
      simp only [Pending.work_append, Pending.work]
      omega
    · have := pending.work_below lowering.arena.size
      simp only [Pending.work_append, Pending.work]
      omega

def loop (source : List Char) (lowering : Lowering) : Lowering :=
  match _next : lowering.step source with
  | none => lowering
  | some next => loop source next
termination_by Pending.work lowering.stack
decreasing_by
  have := work_step _next
  omega

/-- The number of what fills a field of a node, without its parentheses. Parentheses around nothing
have none. -/
def link? (lowering : Lowering) (tree : Tree) (field : Field) : Option NodeId :=
  (tree.filler? field).bind fun filler => lowering.numbers[filler.bare.id]?

def setLinks (lowering : Lowering) (arena : Arena) (access : Access) : Except MissingNode Arena :=
  arena.setMemberParts access.id (lowering.link? access.tree .object)
    (lowering.link? access.tree access.property)

/-- The arena with the object and the property of every access. -/
def linked (lowering : Lowering) : Except MissingNode Arena :=
  lowering.accesses.toList.foldlM lowering.setLinks lowering.arena

end Lowering

/-- Lowers a concrete tree. Links are set only on nodes that were added, which does not fail. -/
def lower (source : List Char) (tree : Tree) : Arena :=
  let lowering := Lowering.loop source (.start tree)
  match lowering.linked with
  | .ok arena => arena
  | .error _ => lowering.arena

end FocusLint
