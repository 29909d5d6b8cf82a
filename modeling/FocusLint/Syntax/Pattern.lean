import FocusLint.Syntax.Signature

/-!
Patterns: what is assigned to or bound. An array or object pattern takes a value apart; any other
target is a name or an access.
-/

namespace FocusLint.Syntax

open Reading

namespace Grammar

variable (g : Grammar)

/-- A pattern with or without a default. -/
def patternWithDefault : Reading Tree := do
  let target ← g.pattern
  if ← atOperator "=" then
    nodeFrom "assignment_pattern" target (do return [← g.initializer])
  else return target

/-- A pattern for the values of a list. -/
def arrayPattern : Reading Tree :=
  node "array_pattern" (do
    mark '['
    let targets ← commaList (do return [← g.patternWithDefault])
    mark ']'
    return targets)

/-- A pattern for what is left. -/
def restPattern : Reading Tree :=
  node "rest_pattern" (do
    exactly "..."
    return [← g.pattern])

/-- An entry of an object pattern: what is left, a key with a pattern, or a name that is its own key. -/
def objectPatternEntry : Reading Tree :=
  g.restPattern
    <|> node "pair_pattern" (do
      let key ← g.propertyName
      mark ':'
      return [key, ← g.patternWithDefault])
    <|> (do
      let name ← freeName "shorthand_property_identifier_pattern"
      if ← atOperator "=" then
        nodeFrom "object_assignment_pattern" name (do return [← g.initializer])
      else return name)

/-- A pattern for the properties of an object. -/
def objectPattern : Reading Tree :=
  node "object_pattern" (do
    mark '{'
    let entries ← commaList (do return [← g.objectPatternEntry])
    mark '}'
    return entries)

def destructuring : Reading Tree := g.arrayPattern <|> g.objectPattern

/-- What a declaration binds: a name or a pattern that takes a value apart. -/
def binding : Reading Tree := identifier <|> g.destructuring

/-- Any target of an assignment or a binding. -/
def target : Reading Tree := g.destructuring <|> g.restPattern <|> g.chain

end Grammar

end FocusLint.Syntax
