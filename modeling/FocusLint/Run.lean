import FocusLint.Lint
import FocusLint.Settings

/-!
Runs: linting files one after the other.

Every file gives a result. A file that is missing, has no dialect or cannot be read gives a result with
an error. If files are to be mended, a file is rewritten as soon as something was removed from it, so
that a file linted later is read from the store as it is by then. A file that must not be rewritten gives a
result with an error too, and nothing else is told of it. A run can have an observer, who is shown
every result before the next file is linted.
-/

namespace FocusLint

open Syntax (Reader)

structure FileResult where
  path : String
  diagnostics : List Diagnostic
  fixesApplied : Nat
  error : Option String
  deriving DecidableEq, Repr

def FileResult.passed (result : FileResult) : Bool :=
  result.diagnostics.isEmpty && result.error.isNone

inductive LintFault where
  | missing
  | unsupported
  | unreadable (fault : FileFault)
  | unwritable (fault : FileFault)
  deriving DecidableEq, Repr

def LintFault.message : LintFault → String
  | .missing => "no such file or directory"
  | .unsupported => "unsupported file extension"
  | .unreadable fault => "failed to read file: " ++ fault.message
  | .unwritable fault => "failed to write fixes: " ++ fault.message

namespace Store

def readSource (store : Store) (path : Path) : Except LintFault (List Char × Syntax.Dialect) :=
  if !store.contains path then .error .missing
  else match path.dialect? with
    | none => .error .unsupported
    | some dialect =>
      match store.read path with
      | .error fault => .error (.unreadable fault)
      | .ok text => .ok (text, dialect)

end Store

namespace Settings

/-- A path as it is shown: as seen from the root, if it lies below it. -/
def displayed (settings : Settings) (path : Path) : String :=
  ((path.relativeTo? settings.root).getD path).text

def failed (settings : Settings) (path : Path) (fault : LintFault) : FileResult :=
  ⟨settings.displayed path, [], 0, some fault.message⟩

/-- The result of a file that was linted: what is reported on its text, and how much was removed before. -/
def linted (settings : Settings) (path : Path) (text : List Char) (reports : List Report) (fixesApplied : Nat) :
    FileResult :=
  ⟨settings.displayed path, diagnosticsOf text reports, fixesApplied, none⟩

/-- Lints the file at a path, and mends it if that is asked for. -/
def lintFile (settings : Settings) (reader : Reader) (mend : Bool) (store : Store) (path : Path) :
    FileResult × Store :=
  let rules := rulesOf settings.options
  match store.readSource path with
  | .error fault => (settings.failed path fault, store)
  | .ok (text, dialect) =>
    if mend then
      let fixed := lintAndFix reader rules dialect text
      let result := settings.linted path fixed.output fixed.remaining fixed.fixesApplied
      if fixed.fixesApplied = 0 then (result, store)
      else match store.write path fixed.output with
        | .error fault => (settings.failed path (.unwritable fault), store)
        | .ok store => (result, store)
    else (settings.linted path text (lintSource reader rules dialect text) 0, store)

def lintFiles (settings : Settings) (reader : Reader) (mend : Bool) (store : Store) :
    List Path → List FileResult × Store
  | [] => ([], store)
  | path :: others =>
    let (result, store) := settings.lintFile reader mend store path
    let (results, store) := settings.lintFiles reader mend store others
    (result :: results, store)

def walkOptions (settings : Settings) : WalkOptions := ⟨skippedDirectories, settings.testsOnly⟩

/-- The files that a run lints: those that the targets stand for, or all below the root if there are no
targets. -/
def files (settings : Settings) (store : Store) (targets : List Path) : List Path :=
  match targets with
  | [] => store.collect settings.walkOptions settings.root
  | targets => store.expand settings.walkOptions targets

def run (settings : Settings) (reader : Reader) (mend : Bool) (store : Store) (targets : List Path) :
    List FileResult × Store :=
  settings.lintFiles reader mend store (settings.files store targets)

section Observers

variable {σ : Type}

/-- Lints files one after the other, and shows every result to an observer as soon as it is there: the
results, the store and what the observer has seen. -/
def observeFiles (settings : Settings) (reader : Reader) (mend : Bool) (observe : σ → FileResult → σ)
    (store : Store) (seen : σ) : List Path → List FileResult × Store × σ
  | [] => ([], store, seen)
  | path :: others =>
    let (result, store) := settings.lintFile reader mend store path
    let (results, store, seen) :=
      settings.observeFiles reader mend observe store (observe seen result) others
    (result :: results, store, seen)

def runObserved (settings : Settings) (reader : Reader) (mend : Bool) (observe : σ → FileResult → σ)
    (store : Store) (seen : σ) (targets : List Path) : List FileResult × Store × σ :=
  settings.observeFiles reader mend observe store seen (settings.files store targets)

end Observers

end Settings

end FocusLint
