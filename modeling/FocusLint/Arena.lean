import FocusLint.Span
import FocusLint.Text.Quoted

/-!
The tree that is linted.

Its nodes are numbered in the order in which they are added, which is document order, and a node names
its parent, its object and its property by number. Such a number may name a node that does not exist,
or not yet; only asking for that node fails. Nodes are added at the end and never taken away, and all
that changes later are the object and the property of a node.
-/

namespace FocusLint

/-- What a node is: a name, an access to a member, or a piece of the grammar that is of no concern. -/
inductive NodeKind where
  | identifier
  | memberExpression
  | other (kind : String)
  deriving DecidableEq, Repr

abbrev NodeId := Nat

/-- A node of the linted tree. -/
structure Node where
  kind : NodeKind
  name : Option String
  parent : Option NodeId
  object : Option NodeId
  property : Option NodeId
  span : Span
  deriving DecidableEq, Repr

/-- A node was asked for that does not exist: how many there are, and which one was meant. -/
structure MissingNode where
  size : Nat
  id : NodeId
  deriving DecidableEq, Repr

def MissingNode.message (missing : MissingNode) : String :=
  "index out of bounds: the len is " ++ toString missing.size ++ " but the index is " ++
    toString missing.id

/-- The tree that is linted. -/
structure Arena where
  nodes : Array Node

namespace Arena

def empty : Arena := ⟨#[]⟩

def size (arena : Arena) : Nat := arena.nodes.size

def node (arena : Arena) (id : NodeId) : Except MissingNode Node :=
  match arena.nodes[id]? with
  | some node => .ok node
  | none => .error ⟨arena.size, id⟩

/-- The numbers of all nodes, in document order. -/
def ids (arena : Arena) : List NodeId := List.range arena.size

def push (arena : Arena) (node : Node) : Arena := ⟨arena.nodes.push node⟩

/-- Adds a node and tells its number, which is the number of nodes before. -/
def add (arena : Arena) (node : Node) : NodeId × Arena := (arena.size, arena.push node)

def addIdentifier (arena : Arena) (parent : Option NodeId) (name : String) (span : Span) :
    NodeId × Arena :=
  arena.add ⟨.identifier, some name, parent, none, none, span⟩

/-- Adds an access to a member, whose object and property are set once they have been added. -/
def addMember (arena : Arena) (parent : Option NodeId) (span : Span) : NodeId × Arena :=
  arena.add ⟨.memberExpression, none, parent, none, none, span⟩

def addOther (arena : Arena) (parent : Option NodeId) (kind : String) (span : Span) :
    NodeId × Arena :=
  arena.add ⟨.other kind, none, parent, none, none, span⟩

/-- Sets the object and the property of a node, whatever its kind. -/
def setMemberParts (arena : Arena) (member : NodeId) (object property : Option NodeId) :
    Except MissingNode Arena :=
  match arena.nodes[member]? with
  | some node => .ok ⟨arena.nodes.setIfInBounds member { node with object, property }⟩
  | none => .error ⟨arena.size, member⟩

/-- The node that another one names, if it names one. -/
def related (arena : Arena) (id : Option NodeId) : Except MissingNode (Option Node) :=
  match id with
  | none => .ok none
  | some id => (arena.node id).map some

end Arena

/-! ## Descriptions -/

def NodeKind.describe : NodeKind → String
  | .identifier => "Identifier"
  | .memberExpression => "MemberExpression"
  | .other kind => "Other(" ++ Text.quoted kind ++ ")"

def describeName : Option String → String
  | none => "None"
  | some name => "Some(" ++ Text.quoted name ++ ")"

def Span.describe (span : Span) : String := toString span.start ++ ".." ++ toString span.stop

def Arena.describe (arena : Arena) (id : NodeId) : Except MissingNode String := do
  let node ← arena.node id
  return "NodeRef \x7b id: NodeId(" ++ toString id ++ "), kind: " ++ node.kind.describe ++
    ", name: " ++ describeName node.name ++ ", range: " ++ node.span.describe ++ " \x7d"

end FocusLint
