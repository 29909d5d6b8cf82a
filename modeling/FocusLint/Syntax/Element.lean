import FocusLint.Syntax.Signature

/-!
Elements between angle brackets.

An element is an opening tag, children and a closing tag, or a tag that closes itself. The name in a
tag fills the field `name`, since names of tags are read otherwise than names of variables.
-/

namespace FocusLint.Syntax

open Reading

def tagWord (kind : String) : Reading Tree := do
  let cursor ← here
  check !cursor.word.isEmpty
  let length := (cursor.rest.takeWhile fun c => isNameRest c || c == '-').length
  leafOf kind (max length cursor.word.length)

/-- The name of a tag: a word, a dotted name or a name in a name space. -/
def tagName : Reading Tree := do
  let first ← tagWord "identifier"
  let name ← if ← atMark ':' then
      nodeFrom "jsx_namespace_name" first (do
        mark ':'
        return [← tagWord "identifier"])
    else
      extend (fun object => nodeFrom "member_expression" (object.filling .object) (do
        exactly "."
        return [(← anyName "property_identifier").filling .property])) first
  return name.filling .name

def attributeName : Reading Tree := do
  let first ← tagWord "property_identifier"
  if ← atMark ':' then
    nodeFrom "jsx_namespace_name" (.unnumbered "identifier" first.span first.children) (do
      mark ':'
      return [← tagWord "identifier"])
  else return first

/-- Whether the text between two children counts: line breaks and the blanks behind them alone do not. -/
def hasText (text : List Char) : Bool :=
  go false text
where
  /-- The flag tells whether a line has ended and only blanks came since. -/
  go (afterBreak : Bool) : List Char → Bool
    | [] => false
    | c :: rest =>
      if c == '\n' then go true rest
      else if afterBreak && isBlank c then go true rest
      else true

/-- The text between two children. -/
def elementText : Reading Tree := do
  let rest ← look fun cursor => cursor.rest
  let special (c : Char) : Bool := ['{', '}', '<', '>', '&'].contains c
  let text := match rest with
    | '&' :: more => if (referenceLength? rest).isSome then [] else '&' :: more.takeWhile fun c => !special c
    | _ => rest.takeWhile fun c => !special c
  check (hasText text)
  leaf "jsx_text" (move (Cursor.skip text.length))

/-- A character reference in the text of an element. -/
def elementReference : Reading Tree := do
  let rest ← look fun cursor => cursor.rest
  match referenceLength? rest with
  | some n => leaf "html_character_reference" (move (Cursor.skip n))
  | none => failure

/-- Passes the blanks between two children. -/
def passBlanks : Reading Unit := fun cursor =>
  some ((), cursor.skip (cursor.rest.takeWhile isBlank).length)

namespace Grammar

variable (g : Grammar)

/-- An expression between braces: a value, a spread one or none. What follows the closing brace tells
how that is read. -/
def bracedExpression (close : Reading Unit) : Reading Tree :=
  node "jsx_expression" (do
    mark '{'
    let value ← ifAny (node "spread_element" (do
      exactly "..."
      return [← g.expression]) <|> g.expressions)
    close
    return value)

/-- An attribute: a name with or without a value, or an expression that is spread. -/
def tagAttribute : Reading Tree :=
  g.bracedExpression (mark '}')
    <|> node "jsx_attribute" (do
      let name ← attributeName
      let value ← ifAny (do
        mark '='
        attributeString <|> g.bracedExpression (mark '}') <|> g.read (.element false))
      return name :: value)

/-- The name and the attributes of a tag. -/
def tagHead : Reading (List Tree) := do
  let name ← tagName
  let types ← if g.typed then ifAny g.typeArguments else pure []
  return name :: types ++ (← many g.tagAttribute)

def elementChild : Reading Tree :=
  elementText <|> elementReference <|> (do
    passBlanks
    g.bracedExpression (raw '}') <|> g.read (.element true))

/-- An element. One that stands inside another is followed by text, so that no gap is passed behind it. A
tag without a name holds a fragment together. -/
def element (inner : Bool) : Reading Tree :=
  let close := if inner then raw '>' else mark '>'
  nodeOf (do
    let start ← look Cursor.offset
    mark '<'
    let head ← maybe g.tagHead
    if ← atMark '/' then
      mark '/'
      close
      match head with
      | some head => return ("jsx_self_closing_element", head)
      | none => failure
    else
      raw '>'
      let opening := Tree.unnumbered "jsx_opening_element" ⟨start, ← look Cursor.last⟩ (head.getD [])
      let children ← many g.elementChild
      passBlanks
      let closing ← node "jsx_closing_element" (do
        mark '<'
        mark '/'
        let name ← ifAny tagName
        close
        return name)
      return ("jsx_element", opening :: children ++ [closing]))

end Grammar

end FocusLint.Syntax
