import FocusLint.Linter
import FocusLint.Options

/-!
The rule against focus modifiers.

A focus modifier is a member of a suite or a test that makes all others be left out, such as
`describe.only`. It is found at the name of the modifier: when the access that this name hangs off has
an object that is blocked, by its own name or by two names joined with a dot.
-/

namespace FocusLint

structure RuleMeta where
  name : String
  description : String
  category : String
  recommended : Bool
  url : String
  fixable : Bool
  deriving DecidableEq, Repr

def focusRuleMeta : RuleMeta where
  name := "no-only-tests"
  description := "disallow .only blocks in tests"
  category := "Possible Errors"
  recommended := true
  url := "https://github.com/levibuzolic/eslint-plugin-no-only-tests"
  fixable := true

/-- A use of a focus modifier, with the span to remove. -/
structure Violation where
  message : String
  fix : Span
  deriving DecidableEq, Repr

/-- The span of a name and of the one byte before it, which is taken to be the dot. -/
def removalSpan (span : Span) : Span := ⟨span.start - 1, span.stop⟩

def violationOf (receiver modifier : String) (node : Node) : Violation :=
  ⟨receiver ++ "." ++ modifier ++ " not permitted", removalSpan node.span⟩

/-- The name of a node that is named by a link: none if there is no link or no name. -/
def linkedName (arena : Arena) (link : Option NodeId) : Except MissingNode (Option String) := do
  let node ← arena.related link
  return node.bind Node.name

/-- Two names joined with a dot, for an access whose object and property both have a name. The object is
only asked for if the property has a name. -/
def dottedName (arena : Arena) (access : Node) : Except MissingNode (Option String) := do
  match ← linkedName arena access.property with
  | none => return none
  | some property =>
    let object ← linkedName arena access.object
    return object.map fun object => object ++ "." ++ property

/-- The uses of a focus modifier at a node: one if the receiver is blocked by its name, and one if it is
blocked by its two names joined with a dot. -/
def violationsAt (block focus : List String) (arena : Arena) (id : NodeId) :
    Except MissingNode (List Violation) := do
  let node ← arena.node id
  let parent ← arena.related node.parent
  match parent.bind Node.object, node.name with
  | some object, some name =>
    if focus.contains name then
      let receiver ← arena.node object
      let dotted ← dottedName arena receiver
      let blocked (names : Option String) : List Violation :=
        (names.toList.filter block.contains).map fun receiver => violationOf receiver name node
      return blocked receiver.name ++ blocked dotted
    else return []
  | _, _ => return []

/-- The rule against focus modifiers, under some options. -/
def focusRule (options : RuleOptions) : Rule where
  name := focusRuleMeta.name
  kinds := [.identifier]
  check arena id := do
    let violations ← violationsAt options.blockNames options.focusNames arena id
    return violations.map fun violation => ⟨id, violation.message, some violation.fix⟩

end FocusLint
