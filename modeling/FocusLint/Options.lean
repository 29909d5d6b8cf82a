/-!
Options: which names count as suites and tests, and which members of theirs are focus modifiers.

A list that is not given stands for the defaults; one that is given stands for itself, even if it is
empty. A list that is given names nothing twice. What is proved about single definitions here: an item
found twice is in the list.
-/

namespace FocusLint

/-- The names that are blocked if no list is given. -/
def blockDefaults : List String :=
  ["describe", "it", "context", "test", "tape", "fixture", "serial"]

/-- The focus modifiers if no list is given. -/
def focusDefaults : List String := ["only"]

/-- The lists that were given, if any. -/
structure RuleOptions where
  block : Option (List String)
  focus : Option (List String)
  deriving DecidableEq, Repr

/-- Which of the two lists something is about. -/
inductive OptionKey where
  | block
  | focus
  deriving DecidableEq, Repr

def OptionKey.text : OptionKey → String
  | .block => "block"
  | .focus => "focus"

/-- A list names an item twice. -/
structure DuplicateItem where
  key : OptionKey
  item : String
  deriving DecidableEq, Repr

def DuplicateItem.message (duplicate : DuplicateItem) : String :=
  "invalid rule options: \"" ++ duplicate.key.text ++ "\" lists \"" ++ duplicate.item ++
    "\" more than once"

/-- The first item of a list that is among those before it, where some were seen before the list. -/
def firstRepeat (seen : List String) : List String → Option String
  | [] => none
  | item :: others => if seen.contains item then some item else firstRepeat (item :: seen) others

/-- Whether a list that may not be given names nothing twice. -/
def checkUnique (key : OptionKey) (items : Option (List String)) : Except DuplicateItem Unit :=
  match items.bind (firstRepeat []) with
  | some item => .error ⟨key, item⟩
  | none => .ok ()

/-- The elements of a list without those that are the same as the last one kept. -/
def dropRepeatsAfter {α : Type} (same : α → α → Bool) (last : α) : List α → List α
  | [] => []
  | a :: others =>
    if same last a then dropRepeatsAfter same last others else a :: dropRepeatsAfter same a others

/-- The elements of a list, each run of the same ones reduced to its first. -/
def dropRepeats {α : Type} (same : α → α → Bool) : List α → List α
  | [] => []
  | a :: others => a :: dropRepeatsAfter same a others

def sortedNames (names : List String) : List String :=
  dropRepeats (· == ·) (names.mergeSort fun a b => decide (a ≤ b))

namespace RuleOptions

def unset : RuleOptions := ⟨none, none⟩

def blockNames (options : RuleOptions) : List String := options.block.getD blockDefaults

def focusNames (options : RuleOptions) : List String := options.focus.getD focusDefaults

/-- Neither list names anything twice; the block list is looked at first. -/
def validate (options : RuleOptions) : Except DuplicateItem Unit := do
  checkUnique .block options.block
  checkUnique .focus options.focus

end RuleOptions

end FocusLint
