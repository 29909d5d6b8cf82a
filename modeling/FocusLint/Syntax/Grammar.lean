import FocusLint.Syntax.Reader
import FocusLint.Syntax.Lookahead

/-!
The shape of the grammar.

Every production is a function that is given readings for the parts it is made of and does not call
itself. The parts are named by goals; the grammar that ties the productions together hands each of
them a `Grammar`, in which reading a goal is one step closer to running out of depth.
-/

namespace FocusLint.Syntax

/-- The parts of the grammar that occur inside one another. -/
inductive Goal where
  | statement
  /-- An expression without commas at its top. -/
  | expression
  /-- Operands joined by binary operators that bind at least as tightly as a level. -/
  | operand (level : Nat)
  /-- An operand with the operators before and after it. -/
  | unary
  /-- A primary expression with the accesses and calls behind it. -/
  | chain
  /-- What `new` is applied to. -/
  | constructed
  /-- What a class extends. -/
  | parent
  /-- The target of an assignment or a binding. -/
  | pattern
  /-- An element between angle brackets, inside another one or not. -/
  | element (inner : Bool)
  | type
  /-- Types joined by operators that bind at least as tightly as a level. -/
  | typeOperand (level : Nat)
  deriving DecidableEq, Repr

/-- What a production is given: the dialect and a reading for every goal. -/
structure Grammar where
  dialect : Dialect
  read : Goal → Reading Tree

open Reading

/-- A comment in the style of a page: it runs to the end of its line and stands where a statement could. -/
def pageComment : Reading Unit := fun cursor =>
  if cursor.startsWith "<!--" || cursor.startsWith "-->" then
    let text := cursor.rest.takeWhile fun c => !isLineFeed c
    let behind := cursor.skip text.length
    let node := comment "html_comment" cursor.offset behind.offset
    some ((), { behind with comments := node :: cursor.comments, last := cursor.last }.pass)
  else none

namespace Grammar

variable (g : Grammar)

def typed : Bool := g.dialect.typed

def statement : Reading Tree := g.read .statement
def expression : Reading Tree := g.read .expression
def unary : Reading Tree := g.read .unary
def chain : Reading Tree := g.read .chain
def pattern : Reading Tree := g.read .pattern
def type : Reading Tree := g.read .type

/-- As many statements as there are. -/
def statements : Reading (List Tree) := do
  let statements ← many g.statement
  let _ ← many pageComment
  return statements

/-- One expression, or several between commas. -/
def expressions : Reading Tree := do
  let first ← g.expression
  if ← atMark ',' then
    nodeFrom "sequence_expression" first (many (do
      mark ','
      g.expression))
  else return first

end Grammar

/-- Ends a statement: at a semicolon, or without one where a block or the source ends or a line has
ended. -/
def semicolon : Reading Unit := fun cursor =>
  match cursor.rest with
  | [] => some ((), cursor)
  | c :: _ =>
    if c == ';' then some ((), cursor.token 1)
    else if c == '}' || cursor.lineBreak then some ((), cursor)
    else none

/-- Whether a statement may end here without a semicolon, so that an optional operand is not read from
the next line: a line has ended and what follows cannot go on with the statement. -/
def endsHere : Reading Bool := look fun cursor =>
  match cursor.rest with
  | [] => true
  | c :: rest =>
    c == ';' || c == '}' || c == ')' || c == ']' || c == ':' || c == ',' ||
      (cursor.lineBreak &&
        !(c == backQuote || ['*', '%', '>', '<', '=', '[', '(', '?', '^', '|', '&', '/'].contains c ||
          (c == '.' && !((rest.head?.map Char.isDigit).getD false)) ||
          ((c == '+' || c == '-') && rest.head? != some c)))

end FocusLint.Syntax
