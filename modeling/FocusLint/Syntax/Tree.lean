import FocusLint.Span

/-!
Concrete trees.

A concrete tree is what reading a source yields: every named piece of the grammar with its kind, the
span it takes and its children in source order. Comments are children like any other. A child may
fill a field of its parent; only the fields that later stages ask for are recorded. A node is known by
its number, which no other node of the tree has.
-/

namespace FocusLint.Syntax

/-- The fields of a node that a child can fill. -/
inductive Field where
  /-- What a member access or a subscript is applied to. -/
  | object
  /-- The name after the dot of a member access. -/
  | property
  /-- What stands between the brackets of a subscript. -/
  | index
  /-- The tag name of an element. -/
  | name
  /-- A child that fills this hands its own property on: it is the property of the parent too. -/
  | sharedProperty
  deriving DecidableEq, Repr

/-- A node: its number in the tree, the fields of its parent that it fills, its kind, its span and its
children. -/
inductive Tree where
  | node (id : Nat) (fields : List Field) (kind : String) (span : Span) (children : List Tree)
  deriving Repr, Inhabited

namespace Tree

/-- The number of a node, by which it is told from all others of a tree. -/
def id : Tree → Nat
  | .node id _ _ _ _ => id

def fields : Tree → List Field
  | .node _ fields _ _ _ => fields

def kind : Tree → String
  | .node _ _ kind _ _ => kind

def span : Tree → Span
  | .node _ _ _ span _ => span

def children : Tree → List Tree
  | .node _ _ _ _ children => children

def filling (field : Field) : Tree → Tree
  | .node id fields kind span children => .node id (field :: fields) kind span children

mutual

/-- What a node fills a field of its parent with: itself, or what fills the property among its own
children if it hands that on. -/
def filling? (field : Field) : Tree → Option Tree
  | .node id fields kind span children =>
    if fields.contains field then some (.node id fields kind span children)
    else if field = .property && fields.contains .sharedProperty then fillerAmong field children
    else none

/-- What the first of some children that fills a field fills it with. -/
def fillerAmong (field : Field) : List Tree → Option Tree
  | [] => none
  | child :: others => (child.filling? field).or (fillerAmong field others)

end

/-- The node that fills a field of a node. -/
def filler? (tree : Tree) (field : Field) : Option Tree := fillerAmong field tree.children

/-! ## Numbers

While a source is read its nodes are not numbered yet. When the tree is complete they are, in document
order.
-/

/-- A node that has no number yet and fills no field. -/
def unnumbered (kind : String) (span : Span) (children : List Tree) : Tree :=
  .node 0 [] kind span children

mutual

def count : Tree → Nat
  | .node _ _ _ _ children => countAll children + 1

def countAll : List Tree → Nat
  | [] => 0
  | tree :: others => tree.count + countAll others

end

mutual

/-- Numbers the nodes of a tree from some number on; yields the number behind the last one too. -/
def numberFrom (next : Nat) : Tree → Tree × Nat
  | .node _ fields kind span children =>
    let (children, behind) := numberAllFrom (next + 1) children
    (.node next fields kind span children, behind)

/-- Numbers the nodes of several trees from some number on. -/
def numberAllFrom (next : Nat) : List Tree → List Tree × Nat
  | [] => ([], next)
  | tree :: others =>
    let (tree, next) := tree.numberFrom next
    let (others, behind) := numberAllFrom next others
    (tree :: others, behind)

end

/-- The same tree with its nodes numbered. -/
def numbered (tree : Tree) : Tree := (tree.numberFrom 0).1

end Tree

end FocusLint.Syntax
