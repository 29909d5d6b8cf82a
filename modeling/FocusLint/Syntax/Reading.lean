import FocusLint.Syntax.Character
import FocusLint.Syntax.Tree

/-!
Readings: functions that read a piece of source.

A reading starts at a cursor and either fails or yields a value and the cursor behind what it read.
Between two tokens the cursor always stands at the start of the next one: every token absorbs the gap
behind it, so that a node ends where its last token ended and not where the gap does. The comments of
a gap are kept aside, in reverse order, until the tree is complete.
-/

namespace FocusLint.Syntax

/-- A place in the source: what is left to read, its position, where the last token ended, whether a
line ended since then, and the comments met so far, last one first. -/
structure Cursor where
  rest : List Char
  offset : Nat
  last : Nat
  lineBreak : Bool
  comments : List Tree

/-! ## Gaps -/

/-- Where the passing of a gap stands: between comments, in a line comment or in a block comment. -/
inductive Gap where
  | blank
  | line (start : Nat)
  | block (start : Nat)

def comment (kind : String) (start stop : Nat) : Tree :=
  .unnumbered kind ⟨start, stop⟩ []

/-- Passes blanks and comments. -/
def passGap (gap : Gap) (rest : List Char) (cursor : Cursor) : Cursor :=
  match gap, rest with
  | .blank, [] => { cursor with rest := [] }
  | .blank, '/' :: '/' :: rest =>
    passGap (.line cursor.offset) rest { cursor with offset := cursor.offset + 2 }
  | .blank, '/' :: '*' :: rest =>
    passGap (.block cursor.offset) rest { cursor with offset := cursor.offset + 2 }
  | .blank, c :: rest =>
    if isBlank c then
      passGap .blank rest { cursor with
        offset := cursor.offset + c.utf8Size, lineBreak := cursor.lineBreak || isLineFeed c }
    else { cursor with rest := c :: rest }
  | .line start, [] =>
    { cursor with rest := [], comments := comment "comment" start cursor.offset :: cursor.comments }
  | .line start, c :: rest =>
    if isLineEnd c then
      passGap .blank rest { cursor with
        offset := cursor.offset + c.utf8Size
        lineBreak := cursor.lineBreak || isLineFeed c
        comments := comment "comment" start cursor.offset :: cursor.comments }
    else passGap (.line start) rest { cursor with offset := cursor.offset + c.utf8Size }
  | .block _, [] => { cursor with rest := [] }
  | .block start, '*' :: '/' :: rest =>
    passGap .blank rest { cursor with
      offset := cursor.offset + 2
      comments := comment "comment" start (cursor.offset + 2) :: cursor.comments }
  | .block start, c :: rest =>
    passGap (.block start) rest { cursor with
      offset := cursor.offset + c.utf8Size, lineBreak := cursor.lineBreak || isLineFeed c }

namespace Cursor

/-- The cursor at the first token of a source. -/
def atStart (source : List Char) : Cursor :=
  passGap .blank source ⟨source, 0, 0, false, []⟩

/-- The cursor behind the next `n` characters, with no gap passed. -/
def skip (n : Nat) (cursor : Cursor) : Cursor :=
  let stop := cursor.offset + Text.size (cursor.rest.take n)
  { cursor with rest := cursor.rest.drop n, offset := stop, last := stop, lineBreak := false }

/-- The cursor behind the gap that starts here. -/
def pass (cursor : Cursor) : Cursor :=
  passGap .blank cursor.rest cursor

/-- The cursor behind a token of `n` characters. -/
def token (n : Nat) (cursor : Cursor) : Cursor :=
  (cursor.skip n).pass

def startsWith (cursor : Cursor) (text : String) : Bool :=
  text.toList.isPrefixOf cursor.rest

end Cursor

/-! ## Words and operators -/

/-- The word at the head of a text: the longest run of name characters, in which a character may be
written as a Unicode escape. The flag tells whether the run stands inside the braces of an escape. -/
def wordOf (inBraces : Bool) : List Char → List Char
  | [] => []
  | c :: rest =>
    if inBraces then c :: wordOf (c != '}') rest
    else if c == '\\' then
      match rest with
      | 'u' :: '{' :: more => c :: 'u' :: '{' :: wordOf true more
      | 'u' :: more => c :: 'u' :: wordOf false more
      | _ => []
    else if isNameRest c then c :: wordOf false rest
    else []

/-- The operators and brackets made of several characters, longer ones first. -/
def operatorTexts : List String :=
  [">>>=", "...", "===", "!==", "**=", "<<=", ">>=", ">>>", "&&=", "||=", "??=", "=>", "==", "!=", "<=",
    ">=", "&&", "||", "??", "?.", "++", "--", "+=", "-=", "*=", "/=", "%=", "&=", "|=", "^=", "<<", ">>",
    "**"]

/-- Each operator beside its characters. -/
def operators : List (String × List Char) :=
  operatorTexts.map fun text => (text, text.toList)

namespace Cursor

/-- The word at the cursor; it is empty where no name can start. -/
def word (cursor : Cursor) : List Char :=
  match cursor.rest with
  | [] => []
  | c :: _ => if c.isDigit then [] else wordOf false cursor.rest

/-- The longest operator at the cursor, or the one character there; a question mark and a point before
a digit are two tokens. -/
def operator (cursor : Cursor) : String :=
  match operators.find? fun entry => entry.2.isPrefixOf cursor.rest with
  | some (text, _) =>
    if text == "?." && ((cursor.rest.drop 2).head?.map Char.isDigit).getD false then "?" else text
  | none => match cursor.rest with
    | [] => ""
    | c :: _ => c.toString

end Cursor

/-! ## Readings -/

def Reading (α : Type) : Type := Cursor → Option (α × Cursor)

namespace Reading

variable {α β : Type}

@[always_inline, inline] instance : Monad Reading where
  pure a := fun cursor => some (a, cursor)
  bind first next := fun cursor =>
    match first cursor with
    | none => none
    | some (a, behind) => next a behind

@[always_inline, inline] instance : Alternative Reading where
  failure := fun _ => none
  orElse first second := fun cursor =>
    match first cursor with
    | none => second () cursor
    | some found => some found

/-- Goes on only if a condition holds. -/
def check (condition : Bool) : Reading Unit := fun cursor =>
  if condition then some ((), cursor) else none

def here : Reading Cursor := fun cursor => some (cursor, cursor)

/-- What the source goes on with, as told by a function of the cursor. -/
def look (view : Cursor → α) : Reading α := fun cursor => some (view cursor, cursor)

def move (step : Cursor → Cursor) : Reading Unit := fun cursor => some ((), step cursor)

def maybe (piece : Reading α) : Reading (Option α) := fun cursor =>
  match piece cursor with
  | none => some (none, cursor)
  | some (a, behind) => some (some a, behind)

/-- Whether a piece can be read here; nothing is read. -/
def ahead (piece : Reading α) : Reading Bool := fun cursor => some ((piece cursor).isSome, cursor)

/-- Reads one character and no gap behind it. -/
def raw (c : Char) : Reading Unit := fun cursor =>
  if cursor.rest.head? == some c then some ((), cursor.skip 1) else none

def mark (c : Char) : Reading Unit := fun cursor =>
  if cursor.rest.head? == some c then some ((), cursor.token 1) else none

def atMark (c : Char) : Reading Bool := look fun cursor => cursor.rest.head? == some c

/-- Reads the token that a text spells, whatever follows it. -/
def symbol (text : String) : Reading Unit := fun cursor =>
  if cursor.startsWith text then some ((), cursor.token text.length) else none

/-- Reads an operator; a longer operator that begins alike is not taken for it. -/
def exactly (text : String) : Reading Unit := fun cursor =>
  if cursor.operator == text then some ((), cursor.token text.length) else none

def atOperator (text : String) : Reading Bool := look fun cursor => cursor.operator == text

def keyword (text : String) : Reading Unit := fun cursor =>
  if cursor.word == text.toList then some ((), cursor.token text.length) else none

def atWord (text : String) : Reading Bool := look fun cursor => cursor.word == text.toList

/-- Repeats a piece as long as it can be read and takes something; the number bounds the rounds. -/
def repeatUpTo : Nat → Reading α → Reading (List α)
  | 0, _ => pure []
  | rounds + 1, piece => fun cursor =>
    match piece cursor with
    | none => some ([], cursor)
    | some (a, behind) =>
      if behind.offset = cursor.offset then some ([], cursor)
      else match repeatUpTo rounds piece behind with
        | none => none
        | some (others, far) => some (a :: others, far)

/-- Repeats a piece as long as it can be read; no piece is empty, so what is left to read bounds the
rounds. -/
def many (piece : Reading α) : Reading (List α) := fun cursor =>
  repeatUpTo cursor.rest.length piece cursor

/-- Extends a value step by step as long as a step can be read; the number bounds the steps. -/
def extendUpTo : Nat → (α → Reading α) → α → Reading α
  | 0, _, a => pure a
  | rounds + 1, step, a => fun cursor =>
    match step a cursor with
    | none => some (a, cursor)
    | some (b, behind) => extendUpTo rounds step b behind

/-- Extends a value step by step as long as a step can be read. -/
def extend (step : α → Reading α) (a : α) : Reading α := fun cursor =>
  extendUpTo (cursor.rest.length + 1) step a cursor

def separated (separator : Reading Unit) (piece : Reading α) : Reading (List α) := do
  let first ← piece
  let others ← many (do separator; piece)
  return first :: others

/-- Pieces between commas, of which some may be missing and a last comma may be left over, up to a
closing token that is not read. -/
def commaList (piece : Reading (List α)) : Reading (List α) := do
  let first ← maybe piece
  let others ← many (do
    mark ','
    let next ← maybe piece
    return next.getD [])
  return first.getD [] ++ others.flatten

/-! ## Nodes -/

/-- A node around what a reading yields. -/
def node (kind : String) (piece : Reading (List Tree)) : Reading Tree := fun cursor =>
  match piece cursor with
  | none => none
  | some (children, behind) =>
    some (.unnumbered kind ⟨cursor.offset, behind.last⟩ children, behind)

/-- A node whose kind is known only after its contents. -/
def nodeOf (piece : Reading (String × List Tree)) : Reading Tree := fun cursor =>
  match piece cursor with
  | none => none
  | some ((kind, children), behind) =>
    some (.unnumbered kind ⟨cursor.offset, behind.last⟩ children, behind)

/-- A node that starts where its first child does. -/
def nodeFrom (kind : String) (first : Tree) (piece : Reading (List Tree)) : Reading Tree :=
  fun cursor =>
    match piece cursor with
    | none => none
    | some (children, behind) =>
      some (.unnumbered kind ⟨first.span.start, behind.last⟩ (first :: children), behind)

def leaf (kind : String) (piece : Reading Unit) : Reading Tree :=
  node kind (do piece; return [])

/-- A node that is left out where it cannot be read. -/
def ifAny (piece : Reading Tree) : Reading (List Tree) := do
  return (← maybe piece).toList

end Reading

end FocusLint.Syntax
