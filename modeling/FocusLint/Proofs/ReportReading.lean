import FocusLint.Proofs.JsonReading
import FocusLint.Report.Json

/-!
What is read back from the text of a report.

Main statement: `json_loses_nothing`. The text of a report is a way to write one JSON value and no other, and
what is told about the rule and the results of all files are found in it under the names of the fields. So two
different reports never have the same text.
-/

namespace FocusLint

/-! ## Fields of a value -/

namespace Json.Value

def keys? : Value → Option (List String)
  | .object members => some (members.map Prod.fst)
  | _ => none

/-- The member of an object with some name. -/
def member? (key : String) : Value → Option Value
  | .object members => members.lookup key
  | _ => none

def textAt? (key : String) (value : Value) : Option String :=
  match value.member? key with
  | some (.text characters) => some characters
  | _ => none

def numberAt? (key : String) (value : Value) : Option Nat :=
  match value.member? key with
  | some (.number n) => some n
  | _ => none

def booleanAt? (key : String) (value : Value) : Option Bool :=
  match value.member? key with
  | some (.boolean truth) => some truth
  | _ => none

/-- The elements of the array that a member is. -/
def elementsAt? (key : String) (value : Value) : Option (List Value) :=
  match value.member? key with
  | some (.array elements) => some elements
  | _ => none

end Json.Value

namespace Report

open Json (Value)

/-! ## Reading back -/

def ruleOf? (value : Value) : Option RuleMeta := do
  let name ← value.textAt? "name"
  let description ← value.textAt? "description"
  let category ← value.textAt? "category"
  let recommended ← value.booleanAt? "recommended"
  let url ← value.textAt? "url"
  let fixable ← value.booleanAt? "fixable"
  return ⟨name, description, category, recommended, url, fixable⟩

def diagnosticOf? (value : Value) : Option Diagnostic := do
  let line ← value.numberAt? "line"
  let column ← value.numberAt? "column"
  let endLine ← value.numberAt? "end_line"
  let endColumn ← value.numberAt? "end_column"
  let rule ← value.textAt? "rule"
  let message ← value.textAt? "message"
  let fixable ← value.booleanAt? "fixable"
  return ⟨line, column, endLine, endColumn, rule, message, fixable⟩

/-- The error that a value tells, if it has one; a member of this name that is no text tells none. -/
def errorOf? (value : Value) : Option (Option String) :=
  match value.member? "error" with
  | none => some none
  | some (.text error) => some (some error)
  | some _ => none

def resultOf? (value : Value) : Option FileResult := do
  let path ← value.textAt? "path"
  let diagnostics ← (← value.elementsAt? "diagnostics").mapM diagnosticOf?
  let fixesApplied ← value.numberAt? "fixes_applied"
  let error ← errorOf? value
  return ⟨path, diagnostics, fixesApplied, error⟩

/-- The rule and the results that a value tells. -/
def reportOf? (value : Value) : Option (RuleMeta × List FileResult) := do
  let rule ← ruleOf? (← value.member? "rule")
  let results ← (← value.elementsAt? "files").mapM resultOf?
  return (rule, results)

theorem ruleOf?_ruleValue (rule : RuleMeta) : ruleOf? (ruleValue rule) = some rule := rfl

theorem diagnosticOf?_diagnosticValue (diagnostic : Diagnostic) :
    diagnosticOf? (diagnosticValue diagnostic) = some diagnostic := rfl

theorem mapM_map_eq_some {α : Type} {value : α → Value} {read : Value → Option α}
    (h : ∀ a, read (value a) = some a) (all : List α) : (all.map value).mapM read = some all := by
  induction all with
  | nil => rfl
  | cons a others ih => simp [h, ih]

/-! ## The value of a result -/

section Result

variable (result : FileResult)

/-- The names of the members of a result; one that has no error has no member for it. -/
def resultKeys : List String :=
  ["path", "diagnostics", "fixes_applied"] ++ if result.error.isSome then ["error"] else []

theorem keys?_resultValue : (resultValue result).keys? = some (resultKeys result) := by
  obtain ⟨path, diagnostics, fixesApplied, error⟩ := result
  cases error <;> rfl

theorem elementsAt?_resultValue :
    (resultValue result).elementsAt? "diagnostics" = some (result.diagnostics.map diagnosticValue) := rfl

theorem errorOf?_resultValue : errorOf? (resultValue result) = some result.error := by
  obtain ⟨path, diagnostics, fixesApplied, error⟩ := result
  cases error <;> rfl

theorem resultOf?_resultValue : resultOf? (resultValue result) = some result := by
  have hpath : (resultValue result).textAt? "path" = some result.path := rfl
  have hfixes : (resultValue result).numberAt? "fixes_applied" = some result.fixesApplied := rfl
  have hdiagnostics := mapM_map_eq_some diagnosticOf?_diagnosticValue result.diagnostics
  simp [resultOf?, hpath, elementsAt?_resultValue, hdiagnostics, hfixes, errorOf?_resultValue]

end Result

/-! ## Reports -/

theorem reportOf?_reportValue (rule : RuleMeta) (results : List FileResult) :
    reportOf? (reportValue rule results) = some (rule, results) := by
  have hrule : (reportValue rule results).member? "rule" = some (ruleValue rule) := rfl
  have hfiles : (reportValue rule results).elementsAt? "files" = some (results.map resultValue) := rfl
  have hresults := mapM_map_eq_some resultOf?_resultValue results
  simp [reportOf?, hrule, ruleOf?_ruleValue, hfiles, hresults]

theorem read?_json (rule : RuleMeta) (results : List FileResult) :
    Value.read? (json rule results) = some (reportValue rule results) :=
  Value.read?_eq_some_iff.mpr (Value.isDocument_write _)

/-- **The text of a report loses nothing.** It is a way to write exactly one JSON value, an object with the two
members rule and files. What is told about the rule and all results in order, with every path, every
diagnostic, every number of removed spans and every error, are read back from it; a file has a member for its
error exactly if there is one. So the texts of two different reports differ. -/
theorem json_loses_nothing (rule : RuleMeta) (results : List FileResult) :
    ∃ value files, Value.read? (json rule results) = some value ∧
      (∀ other : Value, other.IsDocument (json rule results) ↔ other = value) ∧
      value.keys? = some ["rule", "files"] ∧ value.elementsAt? "files" = some files ∧
      reportOf? value = some (rule, results) ∧
      files.map Value.keys? = results.map (fun result => some (resultKeys result)) ∧
      (∀ file ∈ files, ∀ diagnostics, file.elementsAt? "diagnostics" = some diagnostics →
        ∀ diagnostic ∈ diagnostics, diagnostic.keys? =
          some ["line", "column", "end_line", "end_column", "rule", "message", "fixable"]) ∧
      ∀ otherRule others, json otherRule others = json rule results → otherRule = rule ∧ others = results := by
  refine ⟨reportValue rule results, results.map resultValue, read?_json rule results, ?_, rfl, rfl,
    reportOf?_reportValue rule results, ?_, ?_, ?_⟩
  · intro other
    rw [← Value.read?_eq_some_iff, read?_json, Option.some_inj, eq_comm]
  · simp [keys?_resultValue]
  · intro file hfile diagnostics hdiagnostics diagnostic hdiagnostic
    obtain ⟨result, -, rfl⟩ := List.mem_map.mp hfile
    rw [elementsAt?_resultValue, Option.some_inj] at hdiagnostics
    subst hdiagnostics
    obtain ⟨shown, -, rfl⟩ := List.mem_map.mp hdiagnostic
    rfl
  · intro otherRule others htext
    have hvalue : reportValue otherRule others = reportValue rule results := by
      rw [← Option.some_inj, ← read?_json, ← read?_json, htext]
    have hreport := congrArg reportOf? hvalue
    rw [reportOf?_reportValue, reportOf?_reportValue, Option.some_inj, Prod.mk.injEq] at hreport
    exact hreport

end Report

end FocusLint
