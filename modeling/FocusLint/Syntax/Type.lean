import FocusLint.Syntax.Signature

/-!
Types of the typed dialects.

A type is a chain of intersections inside unions, which may be the subject of a conditional type.
Function types, `readonly` types and inferred names reach as far as they can.
-/

namespace FocusLint.Syntax

open Reading

/-- The types that have a word of their own. -/
def predefinedTypes : List String :=
  ["any", "number", "boolean", "string", "symbol", "void", "unknown", "never", "object"]

def literalType : Reading Tree :=
  node "literal_type" (do
    return [← stringLiteral <|> numberLiteral
      <|> node "unary_expression" (do
        mark '-' <|> mark '+'
        return [← numberLiteral])
      <|> wordAmong "true" ["true"] <|> wordAmong "false" ["false"] <|> wordAmong "null" ["null"]
      <|> wordAmong "undefined" ["undefined"]])

/-- A dotted name as the part before the last dot of a longer one: an access where it stands inside
another name. -/
def qualifiedName (outer : String) : Reading Tree := do
  let first ← identifier
  let names ← many (do
    exactly "."
    anyName "property_identifier")
  match names.reverse with
  | [] => return first
  | last :: earlier =>
    let object := earlier.reverse.foldl (dotted "member_expression") first
    return dotted outer object last
where
  /-- Two names joined by a dot. -/
  dotted (kind : String) (object property : Tree) : Tree :=
    .unnumbered kind ⟨object.span.start, property.span.stop⟩
      [object.filling .object, property.filling .property]

/-- An access to a member of what a type names. -/
def typeAccess (object : Tree) : Reading Tree :=
  nodeFrom "member_expression" (object.filling .object) (do
    exactly "." <|> exactly "?."
    return [(← privateName <|> anyName "property_identifier").filling .property])

namespace Grammar

variable (g : Grammar)

/-! ## Members of object types -/

/-- A mapped name: `K in T` or `K in T as U`. -/
def mappedName : Reading Tree :=
  node "mapped_type_clause" (do
    let name ← freeName "type_identifier"
    keyword "in"
    let source ← g.type
    let renamed ← ifAny (do
      keyword "as"
      g.type)
    return [name, source] ++ renamed)

/-- The annotation of an index signature, which may add or drop the optional mark. -/
def indexAnnotation : Reading Tree :=
  node "omitting_type_annotation" (do symbol "-?:"; return [← g.type])
    <|> node "adding_type_annotation" (do symbol "+?:"; return [← g.type])
    <|> node "opting_type_annotation" (do symbol "?:"; return [← g.type])
    <|> g.typeAnnotation

/-- An index signature: what any key of a type, or every key of a mapping, gives. -/
def indexSignature : Reading Tree :=
  node "index_signature" (do
    let _ ← maybe (do
      let _ ← maybe (mark '-' <|> mark '+')
      keyword "readonly")
    mark '['
    let key ← (do return [← g.mappedName]) <|> (do
      let name ← identifier
      mark ':'
      return [name, ← g.type])
    mark ']'
    return key ++ [← g.indexAnnotation])

def memberSignature : Reading Tree :=
  nodeOf (do
    let access ← ifAny (modifierNode "accessibility_modifier" accessWords startsMember)
    let _ ← modifierWord "static" startsMember
    let override ← ifAny (modifierNode "override_modifier" ["override"] startsMember)
    let _ ← modifierWord "readonly" startsMember
    methodWords
    let name ← g.propertyName
    let _ ← maybe (mark '?')
    let head := access ++ override ++ [name]
    if (← atMark '(') || (← atMark '<') then
      return ("method_signature", head ++ (← g.signature))
    else return ("property_signature", head ++ (← g.annotation)))

def objectTypeMember : Reading Tree :=
  g.indexSignature
    <|> (do
      check ((← atMark '(') || (← atMark '<'))
      node "call_signature" g.signature)
    <|> node "construct_signature" (do
      let _ ← modifierWord "abstract" startsMember
      keyword "new"
      let types ← ifAny g.typeParameters
      let parameters ← g.parameters
      return types ++ [parameters] ++ (← g.annotation))
    <|> g.memberSignature

/-- What stands between two members: a comma, a semicolon or the end of a line. -/
def memberEnd : Reading Unit := mark ',' <|> semicolon

/-- A type given by its members, as a node of the given kind. -/
def objectTypeOf (kind : String) : Reading Tree :=
  node kind (do
    mark '{'
    let _ ← maybe (mark ',' <|> mark ';')
    let members ← many (do
      let member ← g.objectTypeMember
      memberEnd
      return member)
    mark '}'
    return members)

/-! ## Names of types -/

/-- The name of a type, with the modules before it and the arguments behind it. -/
def namedType : Reading Tree := do
  let first ← freeName "type_identifier"
  let names ← many (do
    exactly "."
    anyName "type_identifier")
  let name := match names.reverse with
    | [] => first
    | last :: earlier =>
      let module := (Tree.unnumbered "identifier" first.span [] :: earlier.reverse)
      let path := match module with
        | [] => first
        | [only] => only
        | root :: middle => qualify root middle
      .unnumbered "nested_type_identifier" ⟨first.span.start, last.span.stop⟩ [path, last]
  if ← atMark '<' then
    (nodeFrom "generic_type" name (do return [← g.typeArguments])) <|> pure name
  else return name
where
  /-- The names before the last one, as a nested name around accesses. -/
  qualify (root : Tree) (middle : List Tree) : Tree :=
    let property (name : Tree) : Tree :=
      (Tree.unnumbered "property_identifier" name.span []).filling .property
    match middle.reverse with
    | [] => root
    | last :: earlier =>
      let object := earlier.reverse.foldl (fun object name =>
        .unnumbered "member_expression" ⟨object.span.start, name.span.stop⟩
          [object.filling .object, property name]) root
      .unnumbered "nested_identifier" ⟨object.span.start, last.span.stop⟩
        [object.filling .object, property last]

/-- A call of `import` as part of a type. -/
def importCall : Reading Tree := do
  let keyword ← (do
    check (← atWord "import")
    anyName "import")
  nodeFrom "call_expression" keyword (do return [← g.arguments])

/-- An imported module as part of a type: a call of `import` with the accesses behind it. All of these
share the property of the first one. -/
def importedType : Reading Tree := do
  extend (fun object => typeAccess (object.filling .sharedProperty)) (← g.importCall)

/-- The type of an expression: `typeof` and a name with its accesses. -/
def typeQuery : Reading Tree :=
  node "type_query" (do
    keyword "typeof"
    let root ← (do
      check (← atWord "this")
      anyName "this") <|> g.importCall <|> identifier
    let access ← extend typeAccess root
    let lineBreak ← look Cursor.lineBreak
    if !lineBreak && (← atMark '<') then
      return [← nodeFrom "instantiation_expression" access (do return [← g.typeArguments])
        <|> pure access]
    else return [access])

/-! ## Operands -/

/-- A member of a tuple, which may be named, optional or a rest. -/
def tupleMember : Reading Tree :=
  nodeOf (do
    let name ← (node "rest_pattern" (do
      exactly "..."
      return [← identifier])) <|> identifier
    let query ← maybe (mark '?')
    let annotation ← g.typeAnnotation
    let kind := if query.isSome then "optional_parameter" else "required_parameter"
    return (kind, [name, annotation]))
  <|> node "rest_type" (do
    exactly "..."
    return [← g.type])
  <|> (do
    let type ← g.type
    nodeFrom "optional_type" type (do
      mark '?'
      return []) <|> pure type)

/-- A type that is no operator's work: a name, a literal, or something between brackets. -/
def typeAtom : Reading Tree := do
  let rest ← look fun cursor => cursor.rest
  match rest.head? with
  | some '{' => g.objectTypeOf "object_type"
  | some '[' => node "tuple_type" (do
      mark '['
      let members ← commaList (do return [← g.tupleMember])
      mark ']'
      return members)
  | some '(' => node "parenthesized_type" (do
      mark '('
      let type ← g.type
      mark ')'
      return [type])
  | some '*' => leafOf "existential_type" 1
  | some '?' => node "flow_maybe_type" (do
      mark '?'
      return [← g.read (.typeOperand 2)])
  | some c =>
    if c == backQuote then
      templateOf "template_literal_type" (insertedOf "template_type" g.type)
    else if isNameStart c || c == '\\' then
      let word := String.ofList (wordOf false rest)
      if word == "typeof" then g.typeQuery
      else if word == "keyof" then node "index_type_query" (do
        keyword "keyof"
        return [← g.read (.typeOperand 2)])
      else if word == "this" then anyName "this_type"
      else if word == "import" then g.importedType
      else if word == "unique" then
        node "predefined_type" (do
          keyword "unique"
          keyword "symbol"
          return []) <|> g.namedType
      else if predefinedTypes.contains word then anyName "predefined_type"
      else literalType <|> g.namedType
    else literalType
  | none => failure

/-- A type with the brackets behind it: arrays and the types found under a key. -/
def postfixType : Reading Tree := do
  let atom ← g.typeAtom
  extend (fun type => do
    check !(← look Cursor.lineBreak)
    nodeFrom "array_type" type (do
        mark '['
        mark ']'
        return [])
      <|> nodeFrom "lookup_type" type (do
        mark '['
        let key ← g.type
        mark ']'
        return [key])) atom

/-- The result of a function type: a type, a predicate or an assertion. -/
def resultType : Reading Tree :=
  g.assertsClause <|> g.typePredicate <|> g.type

def functionType : Reading Tree :=
  node "function_type" (do
    let types ← ifAny g.typeParameters
    let parameters ← g.parameters
    exactly "=>"
    return types ++ [parameters, ← g.resultType])

def constructorType : Reading Tree :=
  node "constructor_type" (do
    let _ ← maybe (keyword "abstract")
    keyword "new"
    let types ← ifAny g.typeParameters
    let parameters ← g.parameters
    exactly "=>"
    return types ++ [parameters, ← g.type])

/-- An operand of a union or an intersection. The types that reach as far as they can are told by how
they start. -/
def typeUnary : Reading Tree := do
  let cursor ← here
  match cursor.rest.head? with
  | some '<' => g.functionType
  | some '(' =>
    if cursor.bracketThen ["=>"] then g.functionType else g.postfixType
  | _ =>
    let word := String.ofList cursor.word
    if word == "new" then g.constructorType
    else if word == "abstract" then g.constructorType <|> g.postfixType
    else if word == "readonly" then
      node "readonly_type" (do
        keyword "readonly"
        return [← g.type]) <|> g.postfixType
    else if word == "infer" then
      node "infer_type" (do
        keyword "infer"
        let name ← freeName "type_identifier"
        let bound ← ifAny (do
          keyword "extends"
          let bound ← g.read (.typeOperand 0)
          check !(← atMark '?')
          return bound)
        return name :: bound) <|> g.postfixType
    else g.postfixType

/-- Types joined by an operator; an operator before the first of them makes a node of its own. -/
def joinedTypes (kind operator : String) (operand : Reading Tree) : Reading Tree := do
  let start ← here
  let leading ← maybe (exactly operator)
  let first ← operand
  let first : Tree := if leading.isSome then
    .unnumbered kind ⟨start.offset, first.span.stop⟩ [first] else first
  extend (fun left => nodeFrom kind left (do
    exactly operator
    return [← operand])) first

/-- Types joined by operators of a level and above: unions at the lowest level, then intersections,
then single operands. -/
def typeOperand (level : Nat) : Reading Tree :=
  match level with
  | 0 => joinedTypes "union_type" "|" (g.read (.typeOperand 1))
  | 1 => joinedTypes "intersection_type" "&" (g.read (.typeOperand 2))
  | _ => g.typeUnary

def wholeType : Reading Tree := do
  let subject ← g.read (.typeOperand 0)
  if (← atWord "extends") && !(← look Cursor.lineBreak) then
    nodeFrom "conditional_type" subject (do
      keyword "extends"
      let bound ← g.type
      mark '?'
      let yes ← g.type
      mark ':'
      return [bound, yes, ← g.type]) <|> pure subject
  else return subject

end Grammar

end FocusLint.Syntax
