import FocusLint.Syntax.Statement

/-!
Programs: the reading of a whole source.

The productions are tied together by handing each of them readings one step closer to running out of
depth. Every step inwards takes a character or goes on to a goal further down, and there are only some
goals, so that a depth proportional to the length of the source is never used up.

Comments are put into the tree when it is complete: a comment belongs to the innermost node that has
something of its own on both sides of it.
-/

namespace FocusLint.Syntax

open Reading

def Grammar.production (g : Grammar) : Goal → Reading Tree
  | .statement => g.wholeStatement
  | .expression => g.wholeExpression
  | .operand level => g.binary level
  | .unary => g.operandWithSigns
  | .chain => g.chained
  | .constructed => g.constructed
  | .parent => g.extended
  | .pattern => g.target
  | .element inner => g.element inner
  | .type => g.wholeType
  | .typeOperand level => g.typeOperand level

/-- The grammar whose readings go down at most so many steps. -/
def Grammar.upTo (dialect : Dialect) : Nat → Grammar
  | 0 => ⟨dialect, fun _ => failure⟩
  | depth + 1 => ⟨dialect, fun goal => (Grammar.upTo dialect depth).production goal⟩

def Grammar.ofSource (dialect : Dialect) (source : List Char) : Grammar :=
  .upTo dialect (16 * source.length + 64)

/-! ## Comments -/

mutual

/-- Puts comments that lie inside a node among its children. -/
def Tree.withComments (comments : List Tree) : Tree → Tree
  | .node id fields kind span children => .node id fields kind span (placeComments comments children)

/-- Puts comments among the children of a node, or into the child that they lie inside of. -/
def placeComments (comments : List Tree) : List Tree → List Tree
  | [] => comments
  | child :: rest =>
    let before := comments.takeWhile fun c => c.span.stop ≤ child.span.start
    let others := comments.dropWhile fun c => c.span.stop ≤ child.span.start
    let inside := others.takeWhile fun c => c.span.start < child.span.stop
    let behind := others.dropWhile fun c => c.span.start < child.span.stop
    before ++ child.withComments inside :: placeComments behind rest

end

/-! ## Programs -/

/-- The line that tells which program runs the source. -/
def hashBangLine : Reading Tree := do
  let cursor ← here
  check (cursor.offset == 0 && cursor.startsWith "#!")
  leafOf "hash_bang_line" (cursor.rest.takeWhile fun c => c != '\n').length

/-- A piece of a source that makes no statement: an expression, or else a single token. -/
def Grammar.damage (g : Grammar) : Reading Tree :=
  node "ERROR" (do return [← g.expression]) <|> do
    let cursor ← here
    check !cursor.rest.isEmpty
    leafOf "ERROR" (max 1 (max cursor.word.length cursor.operator.length))

/-- The statements of a source. What makes no statement is passed over, so that a source is always read
to its end. -/
def Grammar.program (g : Grammar) : Reading (List Tree) := do
  let _ ← many pageComment
  let line ← ifAny hashBangLine
  let parts ← many (do
    let _ ← many pageComment
    g.statement <|> g.damage)
  let _ ← many pageComment
  return line ++ parts

/-- The tree of a source, which starts at the first token or comment. -/
def programTree (source : List Char) (children comments : List Tree) : Tree :=
  let stop := Text.size source
  let children := placeComments comments children
  let start := (children.head?.map fun child => child.span.start).getD stop
  (Tree.unnumbered "program" ⟨start, stop⟩ children).numbered

def readSource (dialect : Dialect) (source : List Char) : Tree :=
  match (Grammar.ofSource dialect source).program (.atStart source) with
  | some (children, behind) => programTree source children behind.comments.reverse
  | none => programTree source [] []

theorem nodup_ids_readSource (dialect : Dialect) (source : List Char) : (readSource dialect source).ids.Nodup := by
  unfold readSource
  split
  · exact Tree.nodup_ids_numbered _
  · exact Tree.nodup_ids_numbered _

def grammarReader : Reader := ⟨readSource, nodup_ids_readSource⟩

end FocusLint.Syntax
