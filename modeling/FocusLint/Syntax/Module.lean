import FocusLint.Syntax.Expression

/-!
Imports and exports.
-/

namespace FocusLint.Syntax

open Reading

/-- The name under which something is exported: a word or a string. -/
def exportedName : Reading Tree := anyName "identifier" <|> stringLiteral

/-- The module that something comes from. -/
def fromClause : Reading Tree := do
  keyword "from"
  stringLiteral

/-- All that a module exports, under one name. -/
def namespaceImport : Reading Tree :=
  node "namespace_import" (do
    mark '*'
    keyword "as"
    return [← identifier])

/-- A word that is no name here: it says that only types are meant, and a name follows. -/
def typeOnly (words : List String) (allowed : Cursor → Bool) : Reading Unit := do
  let word ← look fun cursor => String.ofList cursor.word
  if words.contains word then
    if ← look fun cursor => allowed (cursor.token word.length) then keyword word

/-- Whether a name, under which something is imported or exported, stands at a cursor. -/
def Cursor.atSpecifier (cursor : Cursor) : Bool :=
  !cursor.word.isEmpty && cursor.word != "as".toList

/-- A name between the braces of an import. -/
def importSpecifier (typed : Bool) : Reading Tree :=
  node "import_specifier" (do
    if typed then typeOnly ["type", "typeof"] Cursor.atSpecifier
    let name ← exportedName
    let other ← ifAny (do
      keyword "as"
      identifier)
    return name :: other)

/-- A name between the braces of an export. -/
def exportSpecifier (typed : Bool) : Reading Tree :=
  node "export_specifier" (do
    if typed then typeOnly ["type", "typeof"] Cursor.atSpecifier
    let name ← exportedName
    let other ← ifAny (do
      keyword "as"
      exportedName)
    return name :: other)

def specifiers (kind : String) (specifier : Reading Tree) : Reading Tree :=
  node kind (do
    mark '{'
    let names ← commaList (do return [← specifier])
    mark '}'
    return names)

/-- What is imported: a default, a name space, single names, or a default with one of these. -/
def importClause (typed : Bool) : Reading Tree :=
  let names := namespaceImport <|> specifiers "named_imports" (importSpecifier typed)
  node "import_clause" ((do return [← names]) <|> (do
    let first ← identifier
    let others ← ifAny (do
      mark ','
      names)
    return first :: others))

/-- A module that is asked for by a call. -/
def importRequire : Reading Tree :=
  node "import_require_clause" (do
    let name ← identifier
    exactly "="
    keyword "require"
    mark '('
    let source ← stringLiteral
    mark ')'
    return [name, source])

namespace Grammar

variable (g : Grammar)

/-- What is said about a module besides its name. -/
def importAttribute : Reading Tree :=
  node "import_attribute" (do
    keyword "with" <|> keyword "assert"
    return [← g.object])

def importStatement : Reading Tree :=
  node "import_alias" (do
      check g.typed
      keyword "import"
      let name ← identifier
      exactly "="
      check !(← ahead (do keyword "require"; mark '('))
      let value ← qualifiedName "nested_identifier"
      semicolon
      return [name, value])
    <|> node "import_statement" (do
      keyword "import"
      if g.typed then
        typeOnly ["type", "typeof"] fun cursor =>
          cursor.rest.head? == some '{' || cursor.rest.head? == some '*' ||
            (!cursor.word.isEmpty && cursor.word != "from".toList) ||
            (cursor.word == "from".toList && (cursor.token 4).word == "from".toList)
      let parts ← (do
          check g.typed
          return [← importRequire])
        <|> (do
          let clause ← importClause g.typed
          return [clause, ← fromClause])
        <|> (do return [← stringLiteral])
      let attributes ← ifAny g.importAttribute
      semicolon
      return parts ++ attributes)

/-- What an export hands on from elsewhere or lists by name, behind the word `export`. -/
def exportList : Reading (List Tree) :=
  (do
      let space ← ifAny (node "namespace_export" (do
        mark '*'
        keyword "as"
        return [← exportedName]))
      if space.isEmpty then mark '*'
      return space ++ [← fromClause])
    <|> (do
      if g.typed then typeOnly ["type"] fun cursor => cursor.rest.head? == some '{'
      let names ← specifiers "export_clause" (exportSpecifier g.typed)
      return names :: (← ifAny fromClause))

/-- The exports of a typed dialect that hand out one value, or name the module. -/
def exportAssignment : Reading (List Tree) :=
  (do
      exactly "="
      return [← g.expression])
    <|> (do
      keyword "as"
      keyword "namespace"
      return [← identifier])

/-- An export, given the reading of the declarations that can be exported. -/
def exportStatement (declaration : Reading Tree) : Reading Tree :=
  node "export_statement" (do
    let decorators ← many g.decorator
    keyword "export"
    let parts ← (do
        let parts ← g.exportList
        semicolon
        return parts)
      <|> (do
        check g.typed
        let parts ← g.exportAssignment
        semicolon
        return parts)
      <|> (do
        keyword "default"
        return [← declaration])
      <|> (do
        keyword "default"
        let value ← g.expression
        semicolon
        return [value])
      <|> (do return [← declaration])
    return decorators ++ parts)

end Grammar

end FocusLint.Syntax
