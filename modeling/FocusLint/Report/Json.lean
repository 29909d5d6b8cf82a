import FocusLint.Json.Value
import FocusLint.Run

/-!
The report as a JSON object: what is told about the rule, and the results of all files in order.
-/

namespace FocusLint.Report

open Json (Value)

def ruleValue (rule : RuleMeta) : Value :=
  .object [("name", .text rule.name), ("description", .text rule.description),
    ("category", .text rule.category), ("recommended", .boolean rule.recommended),
    ("url", .text rule.url), ("fixable", .boolean rule.fixable)]

def diagnosticValue (diagnostic : Diagnostic) : Value :=
  .object [("line", .number diagnostic.line), ("column", .number diagnostic.column),
    ("end_line", .number diagnostic.endLine), ("end_column", .number diagnostic.endColumn),
    ("rule", .text diagnostic.rule), ("message", .text diagnostic.message),
    ("fixable", .boolean diagnostic.fixable)]

/-- The result of a file as a JSON value; there is an error member only if there is an error. -/
def resultValue (result : FileResult) : Value :=
  .object ([("path", .text result.path),
    ("diagnostics", .array (result.diagnostics.map diagnosticValue)),
    ("fixes_applied", .number result.fixesApplied)] ++
    (result.error.map fun error => ("error", .text error)).toList)

def reportValue (rule : RuleMeta) (results : List FileResult) : Value :=
  .object [("rule", ruleValue rule), ("files", .array (results.map resultValue))]

def json (rule : RuleMeta) (results : List FileResult) : List Char :=
  (reportValue rule results).write 0

end FocusLint.Report
