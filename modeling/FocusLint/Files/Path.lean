/-!
Paths.

A path is a text in which slashes stand between names. What it names depends on its components only: a
leading slash is the root, a point at the very start is the current directory, two points are the parent
directory, and empty pieces and all other points stand for nothing. Paths are compared and put in order
by their components, and keep their text for display.

A file system may also hold names whose bytes are no text. There is no path to those here.
-/

namespace FocusLint

structure Path where
  chars : List Char
  deriving DecidableEq, Repr, Inhabited

inductive Component where
  | root
  | current
  | parent
  | normal (name : String)
  deriving DecidableEq, Repr

/-- The order of components: kinds in the order given, names by their characters. -/
def Component.le : Component → Component → Bool
  | .root, _ => true
  | .current, other => other ≠ .root
  | .parent, .root | .parent, .current => false
  | .parent, _ => true
  | .normal a, .normal b => decide (a ≤ b)
  | .normal _, _ => false

namespace Path

def ofString (text : String) : Path := ⟨text.toList⟩

def text (path : Path) : String := String.ofList path.chars

/-! ## Components -/

/-- The pieces of a text between slashes. -/
def pieces : List Char → List (List Char)
  | [] => [[]]
  | c :: rest =>
    if c = '/' then [] :: pieces rest
    else match pieces rest with
      | [] => [[c]]
      | piece :: others => (c :: piece) :: others

/-- The component that a piece stands for, if it stands for one wherever it is. -/
def componentOf? : List Char → Option Component
  | [] => none
  | ['.'] => none
  | ['.', '.'] => some .parent
  | piece => some (.normal (String.ofList piece))

def isAbsolute (path : Path) : Bool := path.chars.head? == some '/'

def components (path : Path) : List Component :=
  let pieces := pieces path.chars
  let named := pieces.filterMap componentOf?
  if path.isAbsolute then .root :: named
  else if pieces.head? == some ['.'] then .current :: named
  else named

def same (a b : Path) : Bool := a.components == b.components

def componentsLe : List Component → List Component → Bool
  | [], _ => true
  | _ :: _, [] => false
  | a :: as, b :: bs => if a = b then componentsLe as bs else a.le b

def le (a b : Path) : Bool := componentsLe a.components b.components

/-! ## Names -/

/-- The name at the end of a path, if a name stands there. -/
def fileName? (path : Path) : Option String :=
  match path.components.getLast? with
  | some (.normal name) => some name
  | _ => none

/-- What stands before and behind the last point of a name that does not start with it. -/
def splitName? (name : List Char) : Option (List Char × List Char) :=
  let reversed := name.reverse
  match reversed.dropWhile (· ≠ '.') with
  | [] | [_] => none
  | _ :: stem => some (stem.reverse, (reversed.takeWhile (· ≠ '.')).reverse)

def extension? (path : Path) : Option String := do
  let name ← path.fileName?
  let parts ← splitName? name.toList
  return String.ofList parts.2

def join (path : Path) (name : String) : Path :=
  match path.chars.getLast? with
  | none | some '/' => ⟨path.chars ++ name.toList⟩
  | some _ => ⟨path.chars ++ '/' :: name.toList⟩

/-! ## Relative paths -/

/-- A text without the pieces at its start that stand for nothing. -/
def trimStart : List Char → List Char
  | '/' :: rest => trimStart rest
  | '.' :: '/' :: rest => trimStart rest
  | ['.'] => []
  | text => text

/-- A text without the pieces at its end that stand for nothing. -/
def trimEnd (text : List Char) : List Char := (trimBack text.reverse).reverse
where
  /-- The same for a reversed text, whose pieces are met last one first. -/
  trimBack : List Char → List Char
    | '/' :: rest => trimBack rest
    | '.' :: '/' :: rest => trimBack rest
    | ['.'] => []
    | text => text

/-- The first component behind the start of a path, and what is left behind it. -/
def takeComponent? (text : List Char) : Option (Component × List Char) :=
  let body := trimStart text
  let piece := body.takeWhile (· ≠ '/')
  (componentOf? piece).map fun component => (component, body.drop piece.length)

/-- The component that a path starts with, and what is left behind it. -/
def takeFirst? (text : List Char) : Option (Component × List Char) :=
  match text with
  | '/' :: rest => some (.root, rest)
  | ['.'] => some (.current, [])
  | '.' :: '/' :: rest => some (.current, '/' :: rest)
  | text => takeComponent? text

/-- What is left of a text when components are taken from it one by one. -/
def dropComponents? : List Component → List Char → Option (List Char)
  | [], text => some (trimEnd (trimStart text))
  | component :: others, text =>
    match takeComponent? text with
    | some (first, rest) => if first = component then dropComponents? others rest else none
    | none => none

/-- A path without what stands for nothing at its end. -/
def trimmed (path : Path) : Path :=
  match path.chars with
  | '/' :: rest => ⟨'/' :: trimEnd rest⟩
  | ['.'] => ⟨['.']⟩
  | '.' :: '/' :: rest => ⟨'.' :: trimEnd ('/' :: rest)⟩
  | text => ⟨trimEnd text⟩

/-- A path as seen from a directory, if the directory's components are the first ones of the path. -/
def relativeTo? (path base : Path) : Option Path :=
  match base.components with
  | [] => some path.trimmed
  | component :: others =>
    match takeFirst? path.chars with
    | some (first, rest) =>
      if first = component then (dropComponents? others rest).map Path.mk else none
    | none => none

end Path

end FocusLint
