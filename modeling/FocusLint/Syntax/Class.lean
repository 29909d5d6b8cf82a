import FocusLint.Syntax.Pattern
import FocusLint.Syntax.Type

/-!
Classes and methods.

The members of a class are methods, fields, static blocks and, in the typed dialects, signatures
without a body. Words such as `static` and `get` are modifiers only where the name of a member
follows.
-/

namespace FocusLint.Syntax

open Reading

namespace Grammar

variable (g : Grammar)

/-- The end of a field: a semicolon, or none where a line or the class ends. -/
def fieldEnd : Reading Unit := semicolon <|> (do check g.typed; mark ',')

/-! ## Members -/

/-- A block that runs when the class is made. -/
def staticBlock : Reading Tree :=
  node "class_static_block" (do
    keyword "static"
    return [← g.block])

def plainMember : Reading (List Tree) := do
  let member ← nodeOf (do
    let decorators ← many g.decorator
    let _ ← modifierWord "static" startsMember
    methodWords
    let name ← g.propertyName
    if ← atMark '(' then
      return ("method_definition", decorators ++ [name] ++ (← g.signature) ++ [← g.block])
    else return ("field_definition", decorators ++ [name] ++ (← ifAny g.initializer)))
  if member.kind == "field_definition" then g.fieldEnd
  return [member]

/-- A member of a class of a typed dialect, behind its decorators. -/
def typedMemberBody : Reading (String × List Tree) := do
  let _ ← modifierWord "declare" startsMember
  let access ← ifAny (modifierNode "accessibility_modifier" accessWords startsMember)
  let _ ← modifierWord "declare" startsMember
  let _ ← modifierWord "static" startsMember
  let override ← ifAny (modifierNode "override_modifier" ["override"] startsMember)
  let _ ← modifierWord "readonly" startsMember
  let isAbstract ← modifierWord "abstract" startsMember
  let lateOverride ← ifAny (modifierNode "override_modifier" ["override"] startsMember)
  let _ ← modifierWord "readonly" startsMember
  let _ ← modifierWord "accessor" startsMember
  methodWords
  let name ← g.propertyName
  let head := access ++ override ++ lateOverride ++ [name]
  let _ ← maybe (mark '?')
  if (← atMark '(') || (← atMark '<') then
    let head := head ++ (← g.signature)
    if ← atMark '{' then return ("method_definition", head ++ [← g.block])
    else if isAbstract then return ("abstract_method_signature", head)
    else return ("method_signature", head)
  else
    let _ ← maybe (exactly "!")
    return ("public_field_definition", head ++ (← g.annotation) ++ (← ifAny g.initializer))

/-- A member of a class of a typed dialect. The decorators of a method stand before it, those of a
field within it. -/
def typedMember : Reading (List Tree) := do
  let start ← look Cursor.offset
  let decorators ← many g.decorator
  let member ← nodeOf g.typedMemberBody
  if member.kind == "method_definition" then
    return decorators ++ [member]
  else
    g.fieldEnd
    return [.unnumbered member.kind ⟨start, member.span.stop⟩ (decorators ++ member.children)]

def classMember : Reading (List Tree) :=
  (do mark ';'; return [])
    <|> (do return [← g.staticBlock])
    <|> (if g.typed then
        (do
          let signature ← g.indexSignature
          g.fieldEnd
          return [signature]) <|> g.typedMember
      else g.plainMember)

def classBody : Reading Tree :=
  node "class_body" (do
    mark '{'
    let members ← many g.classMember
    mark '}'
    return members.flatten)

/-! ## Heads -/

def extendsClause : Reading Tree :=
  node "extends_clause" (do
    keyword "extends"
    let parents ← separated (mark ',') (do
      let value ← g.read .parent
      return value :: (← ifAny g.typeArguments))
    return parents.flatten)

def implementsClause : Reading Tree :=
  node "implements_clause" (do
    keyword "implements"
    separated (mark ',') g.type)

def classHeritage : Reading Tree :=
  if g.typed then
    node "class_heritage" ((do
      let parent ← g.extendsClause
      return parent :: (← ifAny g.implementsClause)) <|> (do return [← g.implementsClause]))
  else
    node "class_heritage" (do
      keyword "extends"
      return [← g.read .parent])

/-- A class with decorators, as a node of the given kind. -/
def classOf (kind : String) (named : Bool) : Reading Tree :=
  node kind (do
    let decorators ← many g.decorator
    if kind == "abstract_class_declaration" then keyword "abstract"
    keyword "class"
    let nameKind := if g.typed then "type_identifier" else "identifier"
    let name ← if named then (do return [← freeName nameKind])
      else ifAny (do
        check !(← atWord "implements")
        freeName nameKind)
    let types ← if g.typed then ifAny g.typeParameters else pure []
    let heritage ← ifAny g.classHeritage
    return decorators ++ name ++ types ++ heritage ++ [← g.classBody])

end Grammar

end FocusLint.Syntax
