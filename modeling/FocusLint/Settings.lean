import FocusLint.Files.Walk
import FocusLint.OptionFile

/-!
Settings: the root directory, the options of the rule, and whether only test files are linted.

The root is given, or it is the nearest directory on the way up that holds a repository. Options are
loaded from a file that is given, which then has to exist, or from a file in the root, which may be
missing.
-/

namespace FocusLint

def optionFileName : String := ".no-only-tests.json"

/-- The name of the entry by which the root of a repository is known. -/
def repositoryMark : String := ".git"

/-- The root directory, the options of the rule, and whether only test files are linted. -/
structure Settings where
  root : Path
  options : RuleOptions
  testsOnly : Bool
  deriving DecidableEq, Repr

inductive SettingsFault where
  | unreadable (path : Path) (fault : FileFault)
  | refused (path : Path) (text : List Char) (fault : OptionFault)
  deriving DecidableEq, Repr

namespace SettingsFault

def message : SettingsFault → String
  | .unreadable path fault => "failed to read " ++ path.text ++ ": " ++ fault.message
  | .refused path text fault => path.text ++ ": " ++ fault.message text

/-- The words for what caused the fault, outermost cause first. -/
def causes : SettingsFault → List String
  | .unreadable _ fault => [fault.message]
  | .refused _ text fault => fault.message text :: fault.causes text

end SettingsFault

namespace Settings

def ofRoot (root : Path) : Settings := ⟨root, .unset, false⟩

/-- The absolute path that some names make up. -/
def absolutePath (names : List String) : Path :=
  match names with
  | [] => ⟨['/']⟩
  | names => names.foldl Path.join ⟨['/']⟩

/-- The names that lead to the nearest repository, from a directory given by its names, innermost
first. -/
def findRepository (root : Entry) : List String → Option (List String)
  | [] => if (root.entryAt [repositoryMark]).isSome then some [] else none
  | name :: above =>
    if (root.entryAt ((name :: above).reverse ++ [repositoryMark])).isSome then
      some (name :: above).reverse
    else findRepository root above

/-- The settings for the nearest repository around the directory that relative paths start from. -/
def discover (store : Store) : Option Settings :=
  (findRepository store.root store.cwd.reverse).map fun names => ofRoot (absolutePath names)

/-- The file that options are loaded from, and whether it has to exist. -/
def optionFile (settings : Settings) : Option Path → Path × Bool
  | some path => (path, true)
  | none => (settings.root.join optionFileName, false)

def loadOptions (settings : Settings) (store : Store) (given : Option Path) :
    Except SettingsFault Settings :=
  let (path, required) := settings.optionFile given
  if !required && !store.contains path then .ok settings
  else match store.read path with
    | .error fault => .error (.unreadable path fault)
    | .ok text =>
      match OptionFile.read text with
      | .error fault => .error (.refused path text fault)
      | .ok options => .ok { settings with options }

/-- Loads the options of a file in place: the settings are a state, and the options are put there as the last
thing. -/
def loadFile (store : Store) (path : Path) : ExceptT SettingsFault (StateM Settings) Unit :=
  match store.read path with
  | .error fault => throw (.unreadable path fault)
  | .ok text =>
    match OptionFile.read text with
    | .error fault => throw (.refused path text fault)
    | .ok options => modify fun settings => { settings with options }

/-- Loads options in place, from the file that is given or else from the one in the root. -/
def load (store : Store) (given : Option Path) : ExceptT SettingsFault (StateM Settings) Unit := do
  let (path, required) := (← get).optionFile given
  if required || store.contains path then loadFile store path

end Settings

end FocusLint
