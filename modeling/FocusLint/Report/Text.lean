import FocusLint.Report.Style
import FocusLint.Run

/-!
The report in words: a header, a part for every file with something to tell, and a summary.
-/

namespace FocusLint.Report

open Piece (plain styled)

def lineEnd : Piece := plain "\n"

def header (rule : RuleMeta) : List Piece :=
  [styled .bold "\n=== Focused Test Check ===", lineEnd,
    styled .dimmed (rule.name ++ ": " ++ rule.description ++ " (" ++ rule.url ++ ")"), plain "\n\n"]

/-- A number with blanks before it, at least four characters wide. -/
def alignedRight (n : Nat) : String :=
  String.ofList ((toString n).toList.leftpad 4 ' ')

/-- A number with blanks behind it, at least four characters wide. -/
def alignedLeft (n : Nat) : String :=
  String.ofList ((toString n).toList.rightpad 4 ' ')

def diagnosticLine (diagnostic : Diagnostic) : List Piece :=
  [plain ("  " ++ alignedRight diagnostic.line ++ ":" ++ alignedLeft diagnostic.column ++ " " ++
      diagnostic.message ++ "  "),
    styled .dimmed diagnostic.rule, lineEnd]

/-- A line with a sign, a path and some words in the style of the sign. -/
def noteLine (style : Style) (sign path words : String) : List Piece :=
  [styled style sign, plain (" " ++ path ++ ": "), styled style words, lineEnd]

def errorLines (result : FileResult) : List Piece :=
  match result.error with
  | some error => noteLine .yellow "\u26a0" result.path error
  | none => []

/-- The line that tells how much was removed from a file, if anything was. -/
def fixLines (result : FileResult) : List Piece :=
  if result.fixesApplied = 0 then []
  else noteLine .green "\u2713" result.path
    ("fixed " ++ toString result.fixesApplied ++ " focus modifier(s)")

def diagnosticLines (result : FileResult) : List Piece :=
  if result.diagnostics.isEmpty then []
  else [styled .red "\u2717", plain " ", styled .underline result.path, lineEnd] ++
    result.diagnostics.flatMap diagnosticLine ++ [lineEnd]

def filePart (result : FileResult) : List Piece :=
  errorLines result ++ fixLines result ++ diagnosticLines result

structure Totals where
  files : Nat
  diagnostics : Nat
  fixable : Nat
  fixed : Nat
  errors : Nat
  deriving DecidableEq, Repr

/-- A count added up over some results. -/
def totalOf (count : FileResult → Nat) (results : List FileResult) : Nat :=
  results.foldr (fun result total => count result + total) 0

def totals (results : List FileResult) : Totals where
  files := results.length
  diagnostics := totalOf (fun result => result.diagnostics.length) results
  fixable := totalOf (fun result => result.diagnostics.countP Diagnostic.fixable) results
  fixed := totalOf FileResult.fixesApplied results
  errors := results.countP fun result => result.error.isSome

/-- Whether there is nothing to complain about. -/
def Totals.clean (totals : Totals) : Bool := totals.diagnostics == 0 && totals.errors == 0

/-- A line of the summary, unless its number is zero. -/
def countLine (count : Nat) (style : Style) (words : String) : List Piece :=
  if count = 0 then [] else [styled style words, lineEnd]

def summary (results : List FileResult) : List Piece :=
  let totals := totals results
  let opening := [styled .bold "\n--- Summary ---", lineEnd] ++
    countLine totals.fixed .green ("\nRemoved " ++ toString totals.fixed ++ " focus modifier(s).")
  if totals.clean then
    opening ++
      [styled .green ("\nNo focused tests in " ++ toString totals.files ++ " file(s).\n"), lineEnd]
  else
    opening ++
      countLine totals.diagnostics .red ("\n" ++ toString totals.diagnostics ++
        " focused test(s) found, " ++ toString totals.fixable ++ " fixable with --fix.") ++
      countLine totals.errors .yellow
        ("\n" ++ toString totals.errors ++ " file(s) could not be checked.") ++
      [lineEnd]

/-- Whether a summary reports success. -/
def succeeds (results : List FileResult) : Bool := (totals results).clean

end FocusLint.Report
