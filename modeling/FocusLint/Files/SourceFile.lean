import FocusLint.Files.Path
import FocusLint.Syntax.Reader

/-!
Source files and test files, told by their paths.

The extension of a path tells whether it is a source file and in which dialect. A test file has a name
such as `foo.test.ts` or `foo.spec.jsx`, or lies below a directory for tests.
-/

namespace FocusLint

open Syntax (Dialect)

def sourceExtensions : List String := ["js", "jsx", "mjs", "cjs", "ts", "tsx", "mts", "cts"]

def testDirectory : String := "__tests__"

def Syntax.Dialect.ofExtension? (extension : String) : Option Dialect :=
  if ["js", "jsx", "mjs", "cjs"].contains extension then some .javaScript
  else if ["ts", "mts", "cts"].contains extension then some .typeScript
  else if extension = "tsx" then some .tsx
  else none

/-- What the name of a test file ends with. -/
def testNameEnds : List String :=
  ["test", "spec"].flatMap fun word =>
    ["", "c", "m"].flatMap fun form =>
      ["j", "t"].flatMap fun language =>
        ["", "x"].map fun elements => "." ++ word ++ "." ++ form ++ language ++ "s" ++ elements

def isTestName (name : String) : Bool :=
  testNameEnds.any fun ending => ending.toList.isSuffixOf name.toList

namespace Path

def isSourceFile (path : Path) : Bool :=
  match path.extension? with
  | some extension => sourceExtensions.contains extension
  | none => false

def isTestFile (path : Path) : Bool :=
  (path.fileName?.map isTestName).getD false || path.components.contains (.normal testDirectory)

/-- The dialect of the source file at a path. -/
def dialect? (path : Path) : Option Dialect := path.extension?.bind Dialect.ofExtension?

end Path

end FocusLint
