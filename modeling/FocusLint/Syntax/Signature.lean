import FocusLint.Syntax.Literal

/-!
Signatures: type parameters and arguments, parameter lists and what a function returns.

The untyped dialect lists plain patterns; the typed ones wrap every parameter in a node of its own,
with its modifiers, its annotation and its default.
-/

namespace FocusLint.Syntax

open Reading

/-- The words that tell who may access a member. -/
def accessWords : List String := ["public", "private", "protected"]

/-- Whether a name, a string, a number or a bracket follows a word on which a modifier may stand. -/
def modifies (word : String) (allowed : List Char → Bool) : Reading Bool := do
  if ← atWord word then
    look fun cursor => allowed (cursor.token word.length).rest
  else return false

/-- Whether a pattern can start here. -/
def startsPattern : List Char → Bool
  | [] => false
  | c :: _ => isNameStart c || c == '[' || c == '{' || c == '\\'

/-- Whether the name of a member, or a further modifier, can start here. -/
def startsMember : List Char → Bool
  | [] => false
  | c :: _ => isNameRest c || c == '[' || c == '"' || c == '\'' || c == '#' || c == '*' || c == '\\'

/-- A modifier that has a node of its own. -/
def modifierNode (kind : String) (words : List String) (allowed : List Char → Bool) :
    Reading Tree := do
  let word ← look fun cursor => String.ofList cursor.word
  check (words.contains word)
  check (← modifies word allowed)
  wordAmong kind words

/-- A modifier without a node; yields whether it was there. -/
def modifierWord (word : String) (allowed : List Char → Bool) : Reading Bool := do
  if ← modifies word allowed then
    keyword word
    return true
  else return false

/-- What a predicate speaks of: a parameter or `this`. -/
def predicateSubject : Reading Tree := do
  if ← atWord "this" then anyName "this" else identifier

/-- The modifiers before the name of a method that have no node: they say whether it is asynchronous,
reads or sets a property, or generates values. -/
def methodWords : Reading Unit := do
  let _ ← modifierWord "async" startsMember
  let _ ← modifierWord "get" startsMember
  let _ ← modifierWord "set" startsMember
  let _ ← maybe (mark '*')

namespace Grammar

variable (g : Grammar)

/-! ## Types as parts of signatures -/

def typeArguments : Reading Tree :=
  node "type_arguments" (do
    mark '<'
    let types ← separated (mark ',') g.type
    let _ ← maybe (mark ',')
    mark '>'
    return types)

/-- A type parameter with its bound and its default. -/
def typeParameter : Reading Tree :=
  node "type_parameter" (do
    let _ ← modifierWord "const" startsPattern
    let name ← freeName "type_identifier"
    let bound ← ifAny (node "constraint" (do
      keyword "extends"
      return [← g.type]))
    let value ← ifAny (node "default_type" (do
      exactly "="
      return [← g.type]))
    return name :: bound ++ value)

def typeParameters : Reading Tree :=
  node "type_parameters" (do
    mark '<'
    let parameters ← separated (mark ',') g.typeParameter
    let _ ← maybe (mark ',')
    mark '>'
    return parameters)

/-- A type behind a colon. -/
def typeAnnotation : Reading Tree :=
  node "type_annotation" (do
    mark ':'
    return [← g.type])

/-- The annotation of a typed dialect, if there is one. -/
def annotation : Reading (List Tree) :=
  if g.typed then ifAny g.typeAnnotation else return []

/-- A predicate on a parameter: `x is T`. -/
def typePredicate : Reading Tree :=
  node "type_predicate" (do
    let subject ← predicateSubject
    check !(← look Cursor.lineBreak)
    keyword "is"
    return [subject, ← g.type])

/-- An assertion on a parameter: `asserts x` or `asserts x is T`. -/
def assertsClause : Reading Tree :=
  node "asserts" (do
    keyword "asserts"
    check !(← look Cursor.lineBreak)
    return [← g.typePredicate <|> predicateSubject])

/-- What a function returns, behind a colon. -/
def returnAnnotation : Reading Tree :=
  node "asserts_annotation" (do mark ':'; return [← g.assertsClause])
    <|> node "type_predicate_annotation" (do mark ':'; return [← g.typePredicate])
    <|> g.typeAnnotation

/-! ## Parameters -/

def initializer : Reading Tree := do
  exactly "="
  g.expression

/-- An expression, or one that is spread. -/
def spreadOrExpression : Reading Tree :=
  node "spread_element" (do
    exactly "..."
    return [← g.expression])
  <|> g.expression

def arguments : Reading Tree :=
  node "arguments" (do
    mark '('
    let values ← commaList (do return [← g.spreadOrExpression])
    mark ')'
    return values)

/-- A decorator: a name, an access, a call or a parenthesized expression behind an at sign. -/
def decorator : Reading Tree :=
  node "decorator" (do
    mark '@'
    if ← atMark '(' then
      return [← node "parenthesized_expression" (do
        mark '('
        let value ← g.expressions
        mark ')'
        return [value])]
    let name ← identifier
    let access ← extend (fun object => nodeFrom "member_expression" (object.filling .object) (do
      exactly "."
      return [(← anyName "property_identifier").filling .property])) name
    let types ← if g.typed then ifAny g.typeArguments else pure []
    let call ← maybe (nodeFrom "call_expression" access (do
      return types ++ [← g.arguments]))
    return [call.getD access])

/-- A pattern, or `this` as the name of a parameter. -/
def parameterTarget : Reading Tree := do
  if ← atWord "this" then anyName "this" else g.pattern

def typedParameter : Reading Tree :=
  nodeOf (do
    let decorators ← many g.decorator
    let access ← ifAny (modifierNode "accessibility_modifier" accessWords startsPattern)
    let override ← ifAny (modifierNode "override_modifier" ["override"] startsPattern)
    let _ ← modifierWord "readonly" startsPattern
    let target ← g.parameterTarget
    let query ← maybe (mark '?')
    let annotation ← g.annotation
    let value ← ifAny g.initializer
    let kind := if query.isSome then "optional_parameter" else "required_parameter"
    return (kind, decorators ++ access ++ override ++ [target] ++ annotation ++ value))

/-- A parameter of the untyped dialect: a pattern with or without a default. -/
def plainParameter : Reading Tree := do
  let target ← g.pattern
  if ← atOperator "=" then
    nodeFrom "assignment_pattern" target (do return [← g.initializer])
  else return target

def parameters : Reading Tree :=
  node "formal_parameters" (do
    mark '('
    let parameters ← commaList (do
      return [← if g.typed then g.typedParameter else g.plainParameter])
    mark ')'
    return parameters)

/-- The part of a function between its name and its body. -/
def signature : Reading (List Tree) := do
  let types ← if g.typed then ifAny g.typeParameters else pure []
  let parameters ← g.parameters
  let result ← if g.typed then ifAny g.returnAnnotation else pure []
  return types ++ [parameters] ++ result

/-! ## Bodies -/

/-- A statement list between braces. -/
def block : Reading Tree :=
  node "statement_block" (do
    mark '{'
    let statements ← g.statements
    mark '}'
    return statements)

end Grammar

end FocusLint.Syntax
