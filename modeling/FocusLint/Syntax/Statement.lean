import FocusLint.Syntax.Module

/-!
Statements and declarations.
-/

namespace FocusLint.Syntax

open Reading

/-- The label that a jump names, if it stands on the same line. -/
def jumpLabel : Reading (List Tree) := do
  if (← endsHere) || (← look Cursor.lineBreak) then return []
  else ifAny (freeName "statement_identifier")

/-- The name of a module: a string or a dotted name. -/
def moduleName : Reading Tree := stringLiteral <|> qualifiedName "nested_identifier"

/-- A semicolon as a statement of its own. -/
def emptyStatement : Reading Tree := leaf "empty_statement" (mark ';')

/-- A jump to the end or the start of a loop. -/
def jump (kind word : String) : Reading Tree :=
  node kind (do
    keyword word
    let label ← jumpLabel
    semicolon
    return label)

namespace Grammar

variable (g : Grammar)

/-! ## Variables -/

/-- A variable with its annotation and its first value. -/
def declarator : Reading Tree :=
  node "variable_declarator" (do
    let name ← g.binding
    let _ ← if g.typed then maybe (exactly "!") else pure none
    let annotation ← g.annotation
    return name :: annotation ++ (← ifAny g.initializer))

/-- A declaration of variables, up to its semicolon. -/
def declarationOf (kind word : String) : Reading Tree :=
  node kind (do
    keyword word
    let declarators ← separated (mark ',') g.declarator
    semicolon
    return declarators)

def variableDeclaration : Reading Tree :=
  g.declarationOf "variable_declaration" "var" <|> g.declarationOf "lexical_declaration" "let"
    <|> g.declarationOf "lexical_declaration" "const"

/-! ## Declarations of the typed dialects -/

/-- A module, under one of the words that start it. -/
def moduleDeclaration (kind word : String) : Reading Tree :=
  node kind (do
    keyword word
    check !(← look Cursor.lineBreak)
    let name ← moduleName
    return name :: (← ifAny g.block))

def interfaceDeclaration : Reading Tree :=
  node "interface_declaration" (do
    keyword "interface"
    let name ← freeName "type_identifier"
    let types ← ifAny g.typeParameters
    let parents ← ifAny (node "extends_type_clause" (do
      keyword "extends"
      separated (mark ',') g.namedType))
    return name :: types ++ parents ++ [← g.objectTypeOf "interface_body"])

def typeAlias : Reading Tree :=
  node "type_alias_declaration" (do
    keyword "type"
    let name ← freeName "type_identifier"
    let types ← ifAny g.typeParameters
    exactly "="
    let value ← g.type
    semicolon
    return name :: types ++ [value])

def enumDeclaration : Reading Tree :=
  node "enum_declaration" (do
    let _ ← maybe (keyword "const")
    keyword "enum"
    let name ← identifier
    let body ← node "enum_body" (do
      mark '{'
      let members ← commaList (do
        let name ← g.propertyName
        if ← atOperator "=" then
          return [← nodeFrom "enum_assignment" name (do return [← g.initializer])]
        else return [name])
      mark '}'
      return members)
    return [name, body])

def typedDeclaration : Reading Tree := do
  check g.typed
  match String.ofList (← look Cursor.word) with
  | "interface" => g.interfaceDeclaration
  | "type" => g.typeAlias
  | "enum" | "const" => g.enumDeclaration
  | "namespace" => g.moduleDeclaration "internal_module" "namespace"
  | "module" => g.moduleDeclaration "module" "module"
  | "abstract" => g.classOf "abstract_class_declaration" true
  | _ => failure

/-- A declaration that is not ambient. -/
def plainDeclaration : Reading Tree :=
  g.typedDeclaration
    <|> g.functionOf "function_declaration" "generator_function_declaration" true g.typed
    <|> g.classOf "class_declaration" true
    <|> (do
      check g.typed
      g.classOf "abstract_class_declaration" true)
    <|> g.variableDeclaration
    <|> (do
      check (g.typed && (← atWord "import"))
      g.importStatement)

/-- A declaration of something that exists elsewhere. -/
def ambientDeclaration : Reading Tree :=
  node "ambient_declaration" (do
    check g.typed
    keyword "declare"
    (do
        keyword "global"
        return [← g.block])
      <|> (do
        let declaration ← g.plainDeclaration
        let _ ← maybe (do check (declaration.kind == "module"); mark ';')
        return [declaration])
      <|> (do
        keyword "module"
        mark '.'
        let name ← anyName "property_identifier"
        mark ':'
        let type ← g.type
        semicolon
        return [name, type]))

def declaration : Reading Tree := g.ambientDeclaration <|> g.plainDeclaration

/-! ## Control flow -/

def condition : Reading Tree := g.parenthesized

/-- A choice between two statements. -/
def ifStatement : Reading Tree :=
  node "if_statement" (do
    keyword "if"
    let condition ← g.condition
    let yes ← g.statement
    let no ← ifAny (node "else_clause" (do
      keyword "else"
      return [← g.statement]))
    return [condition, yes] ++ no)

/-- Expressions up to a semicolon, or nothing before it. -/
def headPart : Reading Tree :=
  emptyStatement <|> (do
    let value ← g.expressions
    mark ';'
    return value)

/-- A loop with a first step, a condition and a last step. -/
def forStatement : Reading Tree :=
  node "for_statement" (do
    keyword "for"
    mark '('
    let first ← g.variableDeclaration <|> g.headPart
    let condition ← g.headPart
    let last ← ifAny g.expressions
    mark ')'
    return [first, condition] ++ last ++ [← g.statement])

/-- What a loop over values binds: a declared or an existing variable. -/
def loopTarget : Reading (List Tree) :=
  (do
      keyword "var"
      let target ← g.binding
      return target :: (← ifAny g.initializer))
    <|> (do
      keyword "let" <|> keyword "const"
      return [← g.binding])
    <|> (do return [← g.pattern])

/-- A loop over keys or values. -/
def forInStatement : Reading Tree :=
  node "for_in_statement" (do
    keyword "for"
    let _ ← maybe (keyword "await")
    mark '('
    let target ← g.loopTarget
    keyword "in" <|> keyword "of"
    let values ← g.expressions
    mark ')'
    return target ++ [values, ← g.statement])

/-- A loop that tests first. -/
def whileStatement : Reading Tree :=
  node "while_statement" (do
    keyword "while"
    let condition ← g.condition
    return [condition, ← g.statement])

/-- A loop that tests last. -/
def doStatement : Reading Tree :=
  node "do_statement" (do
    keyword "do"
    let body ← g.statement
    keyword "while"
    let condition ← g.condition
    let _ ← maybe (mark ';')
    return [body, condition])

def caseBody : Reading (List Tree) := do
  mark ':'
  g.statements

def switchStatement : Reading Tree :=
  node "switch_statement" (do
    keyword "switch"
    let value ← g.condition
    let body ← node "switch_body" (do
      mark '{'
      let cases ← many (node "switch_case" (do
          keyword "case"
          let value ← g.expressions
          return value :: (← g.caseBody))
        <|> node "switch_default" (do
          keyword "default"
          g.caseBody))
      mark '}'
      return cases)
    return [value, body])

/-- A block with what is done when it fails and in any case. -/
def tryStatement : Reading Tree :=
  node "try_statement" (do
    keyword "try"
    let body ← g.block
    let handler ← ifAny (node "catch_clause" (do
      keyword "catch"
      let parameter ← maybe (do
        mark '('
        let name ← g.binding
        let annotation ← g.annotation
        mark ')'
        return name :: annotation)
      return parameter.getD [] ++ [← g.block]))
    let finalizer ← ifAny (node "finally_clause" (do
      keyword "finally"
      return [← g.block]))
    return body :: handler ++ finalizer)

/-- A block whose names are looked up in an object first. -/
def withStatement : Reading Tree :=
  node "with_statement" (do
    keyword "with"
    let object ← g.condition
    return [object, ← g.statement])

/-- The end of a function, with or without a value. -/
def returnStatement : Reading Tree :=
  node "return_statement" (do
    keyword "return"
    let value ← if ← endsHere then pure [] else ifAny g.expressions
    semicolon
    return value)

def throwStatement : Reading Tree :=
  node "throw_statement" (do
    keyword "throw"
    let value ← g.expressions
    semicolon
    return [value])

def labeledStatement : Reading Tree :=
  node "labeled_statement" (do
    let label ← freeName "statement_identifier"
    mark ':'
    return [label, ← g.statement])

def expressionStatement : Reading Tree :=
  node "expression_statement" (do
    let value ← g.expressions
    semicolon
    return [value])

/-- The statements that start with a reserved word of their own. -/
def reservedStatement? (word : String) : Option (Reading Tree) :=
  match word with
  | "if" => some g.ifStatement
  | "for" => some (g.forInStatement <|> g.forStatement)
  | "while" => some g.whileStatement
  | "do" => some g.doStatement
  | "switch" => some g.switchStatement
  | "try" => some g.tryStatement
  | "with" => some g.withStatement
  | "break" => some (jump "break_statement" "break")
  | "continue" => some (jump "continue_statement" "continue")
  | "return" => some g.returnStatement
  | "throw" => some g.throwStatement
  | "debugger" => some (jump "debugger_statement" "debugger")
  | "var" | "const" | "function" | "class" => some g.plainDeclaration
  | "export" => some (g.exportStatement g.declaration)
  | _ => none

/-- A statement that starts with a word that may as well be a name. -/
def contextualStatement (word : String) : Reading Tree :=
  match word with
  | "let" | "async" => g.plainDeclaration
  | "import" => g.importStatement
  | "declare" => g.ambientDeclaration
  | "interface" | "type" | "enum" | "namespace" | "module" | "abstract" => g.typedDeclaration
  | _ => failure

def wholeStatement : Reading Tree := do
  let _ ← many pageComment
  let cursor ← here
  match cursor.rest.head? with
  | none => failure
  | some c =>
    if c == '{' then g.block
    else if c == ';' then emptyStatement
    else if c == '@' then
      g.exportStatement g.declaration <|> g.plainDeclaration <|> g.expressionStatement
    else
      let word := cursor.word
      let statement := g.expressionStatement
      if word.isEmpty then statement
      else if (cursor.token word.length).operator == ":" then g.labeledStatement <|> statement
      else match g.reservedStatement? (String.ofList word) with
        | some statement => statement
        | none => g.contextualStatement (String.ofList word) <|> statement

end Grammar

end FocusLint.Syntax
