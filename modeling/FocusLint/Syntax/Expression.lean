import FocusLint.Syntax.Class
import FocusLint.Syntax.Element

/-!
Expressions.

From the inside out: primary expressions, the accesses and calls behind them, the operators before and
after an operand, binary operators by how tightly they bind, and last conditionals, assignments and
arrow functions, which take in everything up to a comma.
-/

namespace FocusLint.Syntax

open Reading

/-- How tightly each binary operator binds, from the loosest to the tightest. -/
def binaryLevels : List (List String) :=
  [["??"], ["||"], ["&&"], ["|"], ["^"], ["&"], ["==", "!=", "===", "!=="],
    ["<", ">", "<=", ">=", "instanceof", "in"], ["<<", ">>", ">>>"], ["+", "-"], ["*", "/", "%"], ["**"]]

def binaryLevel? (operator : String) : Option Nat :=
  binaryLevels.findIdx? fun level => level.contains operator

/-- The operators that combine a target with a value. -/
def augmentingOperators : List String :=
  ["+=", "-=", "*=", "/=", "%=", "^=", "&=", "|=", ">>=", ">>>=", "<<=", "**=", "&&=", "||=", "??="]

/-- The kinds of expressions that can be assigned to. -/
def assignableKinds : List String :=
  ["identifier", "undefined", "member_expression", "subscript_expression", "parenthesized_expression",
    "non_null_expression"]

/-- The binary operator at the cursor, which may be a word. -/
def Cursor.binaryOperator (cursor : Cursor) : String :=
  let word := String.ofList cursor.word
  if word == "in" || word == "instanceof" then word else cursor.operator

/-- Whether type arguments that end at a cursor can stand without a call: what follows is no operand. -/
def Cursor.endsOperand (cursor : Cursor) : Bool :=
  cursor.lineBreak ||
    ["", ")", "]", ":", ";", ",", ".", "?.", "\x7d", "=", "==", "===", "!=", "!==", "?", "??", "|", "||", "&",
      "&&", "*", "%", "^", "/"].contains cursor.operator

/-- Whether an arrow function may start at a cursor: a parameter or a parameter list is followed by an
arrow, or, where results have types, by a colon. -/
def Cursor.arrowAhead (typed : Bool) (cursor : Cursor) : Bool :=
  let followers := if typed then ["=>", ":"] else ["=>"]
  let list (cursor : Cursor) : Bool :=
    match cursor.rest.head? with
    | some '(' => cursor.bracketThen followers
    | some '<' => typed
    | _ => false
  let word := cursor.word
  if word.isEmpty then list cursor
  else
    let behind := cursor.token word.length
    behind.operator == "=>" ||
      (word == "async".toList && !behind.lineBreak &&
        (list behind ||
          (!behind.word.isEmpty && (behind.token behind.word.length).operator == "=>")))

/-- The name behind the dot of an access. -/
def accessedName : Reading Tree := do
  return (← privateName <|> anyName "property_identifier").filling .property

namespace Grammar

variable (g : Grammar)

/-! ## Functions -/

/-- A function, as a node whose kind depends on whether it generates values and has a body. A name may
be required, and a body may be missing where only the signature is declared. -/
def functionOf (plain generating : String) (named bodyless : Bool) : Reading Tree :=
  nodeOf (do
    let _ ← modifierWord "async" startsMember
    keyword "function"
    let star ← maybe (mark '*')
    let name ← if named then (do return [← identifier]) else ifAny identifier
    let head := name ++ (← g.signature)
    if bodyless && !(← atMark '{') then
      semicolon
      return ("function_signature", head)
    else
      return (if star.isSome then generating else plain, head ++ [← g.block]))

def arrowFunction : Reading Tree :=
  node "arrow_function" (do
    let _ ← maybe (do
      keyword "async"
      check !(← atOperator "=>"))
    let head ← if (← atMark '(') || (← atMark '<') then g.signature else (do return [← identifier])
    exactly "=>"
    let body ← if ← atMark '{' then g.block else g.expression
    return head ++ [body])

/-! ## Primary expressions -/

/-- An entry of an object: a spread value, a name that is its own value, a method or a pair. -/
def objectEntry : Reading Tree :=
  node "spread_element" (do
      exactly "..."
      return [← g.expression])
    <|> (do
      let name ← freeName "shorthand_property_identifier"
      check ((← atMark ',') || (← atMark '}'))
      return name)
    <|> nodeOf (do
      methodWords
      let name ← g.propertyName
      if (← atMark '(') || (g.typed && (← atMark '<')) then
        return ("method_definition", name :: (← g.signature) ++ [← g.block])
      else
        mark ':'
        return ("pair", [name, ← g.expression]))

def object : Reading Tree :=
  node "object" (do
    mark '{'
    let entries ← commaList (do return [← g.objectEntry])
    mark '}'
    return entries)

def parenthesized : Reading Tree :=
  node "parenthesized_expression" (do
    mark '('
    let value ← g.expressions
    let annotation ← g.annotation
    mark ')'
    return value :: annotation)

/-- A call of a constructor, or the target that `new` was applied to. -/
def construction : Reading Tree :=
  node "meta_property" (do
      keyword "new"
      exactly "."
      keyword "target"
      return [])
    <|> node "new_expression" (do
      keyword "new"
      let constructed ← g.read .constructed
      let types ← if g.typed then ifAny g.typeArguments else pure []
      return constructed :: types ++ (← ifAny g.arguments))

def wordExpression (word : String) : Reading Tree :=
  if word == "function" then g.functionOf "function_expression" "generator_function" false false
  else if word == "async" then
    g.functionOf "function_expression" "generator_function" false false <|> identifier
  else if word == "class" then g.classOf "class" false
  else if word == "new" then g.construction
  else if word == "import" then
    node "meta_property" (do
      keyword "import"
      exactly "."
      keyword "meta"
      return []) <|> anyName "import"
  else if ["this", "super", "null", "true", "false", "undefined"].contains word then anyName word
  else identifier

def primary : Reading Tree := do
  let cursor ← here
  match cursor.rest with
  | [] => failure
  | c :: _ =>
    if c == '(' then g.parenthesized
    else if c == '[' then node "array" (do
      mark '['
      let values ← commaList (do return [← g.spreadOrExpression])
      mark ']'
      return values)
    else if c == '{' then g.object
    else if c == '"' || c == '\'' then stringLiteral
    else if c == backQuote then g.template
    else if c == '/' then regexLiteral
    else if c == '<' then (do
      check g.dialect.elements
      g.read (.element false))
    else if c == '@' then g.classOf "class" false
    else if c == '#' then privateName
    else if c == '.' || c.isDigit then numberLiteral
    else g.wordExpression (String.ofList cursor.word)

/-! ## Accesses and calls -/

/-- A value between brackets behind an object. -/
def subscript : Reading Tree := do
  mark '['
  let index ← g.expressions
  mark ']'
  return index.filling .index

/-- A link of a chain that is neither optional nor a call: an access, a subscript, a template, or the
claim that a value is there. -/
def accessLink (left : Tree) : Reading Tree := do
  let cursor ← here
  match cursor.operator with
  | "." => nodeFrom "member_expression" (left.filling .object) (do
      mark '.'
      return [← accessedName])
  | "[" => nodeFrom "subscript_expression" (left.filling .object) (do return [← g.subscript])
  | "!" => do
    check (g.typed && !cursor.lineBreak)
    nodeFrom "non_null_expression" left (do
      mark '!'
      return [])
  | operator => do
    check (operator == backQuote.toString)
    nodeFrom "call_expression" left (do return [← g.template])

/-- A link of a chain behind a question mark. -/
def optionalLink (left : Tree) : Reading Tree := do
  let behind ← look fun cursor => (cursor.token 2).operator
  let sign := leaf "optional_chain" (exactly "?.")
  if behind == "(" || (g.typed && behind == "<") then
    nodeFrom "call_expression" left (do
      if g.typed then
        exactly "?."
        return (← ifAny g.typeArguments) ++ [← g.arguments]
      else
        return [← sign, ← g.arguments])
  else if behind == "[" then
    nodeFrom "subscript_expression" (left.filling .object) (do
      let sign ← sign
      return [sign, ← g.subscript])
  else
    nodeFrom "member_expression" (left.filling .object) (do
      let sign ← sign
      return [sign, ← accessedName])

/-- Type arguments behind an expression, with the call that they belong to or, if they may stand alone,
on their own. -/
def instantiation (alone : Bool) (left : Tree) : Reading Tree :=
  nodeFrom "call_expression" left (do
      let types ← g.typeArguments
      return [types, ← g.arguments])
    <|> nodeFrom "instantiation_expression" left (do
      check alone
      let types ← g.typeArguments
      check (← look Cursor.endsOperand)
      return [types])

/-- A link of a chain. The flag tells whether type arguments may stand alone. -/
def link (alone : Bool) (left : Tree) : Reading Tree := do
  let operator ← look Cursor.operator
  if operator == "(" then nodeFrom "call_expression" left (do return [← g.arguments])
  else if operator == "?." then g.optionalLink left
  else if g.typed && (operator == "<" || operator == "<<") then g.instantiation alone left
  else g.accessLink left

/-- A primary expression with the accesses and calls behind it. -/
def chained : Reading Tree := do
  extend (g.link true) (← g.primary)

/-- What a class extends: type arguments behind it are no part of the expression. -/
def extended : Reading Tree := do
  extend (g.link false) (← g.primary)

/-- What `new` is applied to: an expression with accesses, in which no call is made. -/
def constructed : Reading Tree := do
  extend g.accessLink (← g.primary)

/-! ## Operators -/

/-- A type behind a value: what it is taken for, or what it is checked against. -/
def typeLink (left : Tree) : Reading Tree :=
  nodeFrom "as_expression" left (do
      keyword "as"
      if ← atWord "const" then
        keyword "const"
        return []
      else return [← g.type])
    <|> nodeFrom "satisfies_expression" left (do
      keyword "satisfies"
      return [← g.type])

/-- An operand with the operators before and after it. -/
def operandWithSigns : Reading Tree := do
  let cursor ← here
  let operator := cursor.operator
  let word := String.ofList cursor.word
  if ["!", "~", "-", "+"].contains operator then
    node "unary_expression" (do
      exactly operator
      return [← g.unary])
  else if operator == "++" || operator == "--" then
    node "update_expression" (do
      exactly operator
      return [← g.unary])
  else if ["typeof", "void", "delete"].contains word then
    node "unary_expression" (do
      keyword word
      return [← g.unary])
  else if word == "await" then
    node "await_expression" (do
      keyword "await"
      let value ← g.unary
      return [← if g.typed then extend g.typeLink value else pure value])
  else if operator == "<" && g.dialect == .typeScript then
    node "type_assertion" (do
      let types ← g.typeArguments
      return [types, ← g.unary])
  else
    let value ← g.chain
    let behind ← here
    if !behind.lineBreak && (behind.operator == "++" || behind.operator == "--") then
      nodeFrom "update_expression" value (do
        exactly behind.operator
        return [])
    else return value

/-- One more operator of a level, or a tighter one, with its right operand. All but the tightest group
from the left. -/
def binaryLink (level : Nat) (left : Tree) : Reading Tree := do
  let operator ← look Cursor.binaryOperator
  match binaryLevel? operator with
  | some found => do
    check (level ≤ found)
    nodeFrom "binary_expression" left (do
      move (Cursor.token operator.length)
      return [← g.read (.operand (if operator == "**" then found else found + 1))])
  | none => do
    check (g.typed && level == 0)
    g.typeLink left

/-- Operands joined by binary operators that bind at least as tightly as a level. -/
def binary (level : Nat) : Reading Tree := do
  extend (g.binaryLink level) (← g.unary)

/-! ## Whole expressions -/

/-- The value of a generator that is handed out. -/
def yielding : Reading Tree :=
  node "yield_expression" (do
    keyword "yield"
    if ← endsHere then return []
    else if ← atOperator "*" then
      mark '*'
      return [← g.expression]
    else ifAny g.expression)

def branches : Reading (List Tree) :=
  (do
    let yes ← g.expression
    mark ':'
    return [yes, ← g.expression])
  <|> (do
    let yes ← g.read (.operand 0)
    mark ':'
    return [yes, ← g.expression])

/-- An expression that is no arrow function: operands, a conditional or an assignment. -/
def operation : Reading Tree := do
  let left ← g.read (.operand 0)
  let operator ← look Cursor.operator
  if operator == "?" then
    nodeFrom "ternary_expression" left (do
      mark '?'
      g.branches)
  else if operator == "=" && assignableKinds.contains left.kind then
    nodeFrom "assignment_expression" left (do return [← g.initializer])
  else if augmentingOperators.contains operator && assignableKinds.contains left.kind then
    nodeFrom "augmented_assignment_expression" left (do
      exactly operator
      return [← g.expression])
  else return left

/-- An assignment that takes a value apart. -/
def destructuringAssignment : Reading Tree := do
  nodeFrom "assignment_expression" (← g.destructuring) (do return [← g.initializer])

/-- An expression without commas at its top. -/
def wholeExpression : Reading Tree := do
  let cursor ← here
  if String.ofList cursor.word == "yield" then g.yielding
  else if cursor.arrowAhead g.typed then g.arrowFunction <|> g.operation
  else if (cursor.rest.head? == some '[' || cursor.rest.head? == some '{') && cursor.bracketThen ["="] then
    g.destructuringAssignment <|> g.operation
  else g.operation

end Grammar

end FocusLint.Syntax
