import FocusLint.Files.SourceFile
import FocusLint.Files.Store
import FocusLint.Options

/-!
Walks through directories.

A walk lists the source files below a directory in the order of their paths. It does not enter
directories with certain names, and it may leave out all files that are no test files. The directory in
which it starts is entered whatever its name is.
-/

namespace FocusLint

/-- The names of directories that are never entered. -/
def skippedDirectories : List String :=
  ["node_modules", ".git", "dist", "target", "build", "coverage", ".cache", ".next", ".turbo", "out"]

/-- What a walk leaves out: directories with some names, and perhaps all files that are no tests. -/
structure WalkOptions where
  skip : List String
  testsOnly : Bool
  deriving DecidableEq, Repr

/-- Whether a walk lists the file at a path. -/
def WalkOptions.lists (options : WalkOptions) (path : Path) : Bool :=
  path.isSourceFile && (!options.testsOnly || path.isTestFile)

namespace Entry

def isDirectory : Entry → Bool
  | .file _ => false
  | .directory _ => true

mutual

/-- The files that a walk lists at and below an entry, in the order of the entries. -/
def walk (options : WalkOptions) (path : Path) : Entry → List Path
  | .file _ => if options.lists path then [path] else []
  | .directory entries => walkEntries options path entries

/-- The files that a walk lists at and below the entries of a directory. -/
def walkEntries (options : WalkOptions) (path : Path) : List (String × Entry) → List Path
  | [] => []
  | (name, entry) :: others =>
    (if entry.isDirectory && options.skip.contains name then []
      else entry.walk options (path.join name)) ++ walkEntries options path others

end

end Entry

namespace Store

/-- The source files below the directory at a path, in order. -/
def collect (store : Store) (options : WalkOptions) (path : Path) : List Path :=
  match store.entry? path with
  | some (.directory entries) => (Entry.walkEntries options path entries).mergeSort Path.le
  | _ => []

/-- The files that some targets stand for: a directory for the source files below it, anything else for
itself. Of several equal paths in a row only the first one is kept. -/
def expand (store : Store) (options : WalkOptions) (targets : List Path) : List Path :=
  dropRepeats Path.same (targets.flatMap fun target =>
    if store.isDirectory target then store.collect options target else [target])

end Store

end FocusLint
