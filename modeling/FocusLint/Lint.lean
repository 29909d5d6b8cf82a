import FocusLint.Fix
import FocusLint.FocusRule
import FocusLint.LineIndex
import FocusLint.Lowering
import FocusLint.Syntax.Reader

/-!
Linting a source, mending it, and telling where the reports lie.

Mending repeats passes of linting and removing as long as a pass removes something, up to a limit, and
ends by linting what has come out.
-/

namespace FocusLint

open Syntax (Dialect Reader)

def rulesOf (options : RuleOptions) : List Rule := [focusRule options]

/-- The reports of some rules on a source, unless one of them asks for a node that does not exist. -/
def tryLint (reader : Reader) (rules : List Rule) (dialect : Dialect) (source : List Char) :
    Except MissingNode (List Report) :=
  Linter.run rules (lower source (reader.tree dialect source))

/-- The reports of some rules on a source. The tree of a source is well linked, so that a rule that
follows links asks for nodes that exist; a rule that asked for another one would report nothing. -/
def lintSource (reader : Reader) (rules : List Rule) (dialect : Dialect) (source : List Char) :
    List Report :=
  match tryLint reader rules dialect source with
  | .ok reports => reports
  | .error _ => []

/-- The spans whose removal mends some reports. -/
def fixesOf (reports : List Report) : List Span := reports.filterMap Report.fix

/-- The largest number of passes over one source. -/
def maxFixPasses : Nat := 10

/-- A source that was mended: the text, the number of spans removed from it in all passes, and what is
still reported on it. -/
structure FixedSource where
  output : List Char
  fixesApplied : Nat
  remaining : List Report
  deriving DecidableEq, Repr

section Mending

variable {ε : Type} (lint : List Char → Except ε (List Report))

/-- Mends a text, from which so many spans were removed before, by at most so many passes. Stops when
there is nothing to remove or nothing was removed. -/
def fixUpTo : Nat → List Char → Nat → Except ε (List Char × Nat)
  | 0, text, applied => return (text, applied)
  | passes + 1, text, applied => do
    let fixes := fixesOf (← lint text)
    if fixes.isEmpty then return (text, applied)
    else
      let outcome := Fix.apply text fixes
      if outcome.applied = 0 then return (text, applied)
      else fixUpTo passes outcome.output (applied + outcome.applied)

/-- Mends a text with the reports of some lint, and lints what has come out. -/
def mend (source : List Char) : Except ε FixedSource := do
  let (output, applied) ← fixUpTo lint maxFixPasses source 0
  return ⟨output, applied, ← lint output⟩

end Mending

/-- Lints and mends a source, unless a rule asks for a node that does not exist. -/
def tryLintAndFix (reader : Reader) (rules : List Rule) (dialect : Dialect) (source : List Char) :
    Except MissingNode FixedSource :=
  mend (tryLint reader rules dialect) source

/-- Lints and mends a source; one that could not be linted would be left as it is. -/
def lintAndFix (reader : Reader) (rules : List Rule) (dialect : Dialect) (source : List Char) :
    FixedSource :=
  match tryLintAndFix reader rules dialect source with
  | .ok fixed => fixed
  | .error _ => ⟨source, 0, []⟩

/-! ## Diagnostics -/

/-- A report as it is shown: by line and column, from the start of the span to its end. -/
structure Diagnostic where
  line : Nat
  column : Nat
  endLine : Nat
  endColumn : Nat
  rule : String
  message : String
  fixable : Bool
  deriving DecidableEq, Repr

def Diagnostic.ofReport (index : LineIndex) (report : Report) : Diagnostic :=
  let start := index.lineColumn report.span.start
  let stop := index.lineColumn report.span.stop
  ⟨start.line, start.column, stop.line, stop.column, report.rule, report.message, report.fix.isSome⟩

def diagnosticsOf (source : List Char) (reports : List Report) : List Diagnostic :=
  reports.map (Diagnostic.ofReport (.ofText source))

end FocusLint
