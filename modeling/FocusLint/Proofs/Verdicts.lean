import FocusLint.CommandLine.Invocation

/-!
The two forms of a report give the same verdict.

Main statement: `formats_agree`. The summary adds up diagnostics and errors over all files and reports success
if both totals are zero; that is so exactly if every file passes (`succeeds_iff`). So the exit code of an
invocation is told by the results alone (`exitCode_eq`), and neither the settings nor the run depend on the
form. Command lines that differ in the form they ask for are read alike, whatever stands behind
(`read_inFormat`), so they also agree on what is no invocation at all.
-/

namespace FocusLint

/-! ## Totals -/

namespace Report

variable {results : List FileResult}

theorem totalOf_eq_zero_iff {count : FileResult → Nat} :
    totalOf count results = 0 ↔ ∀ result ∈ results, count result = 0 := by
  induction results with
  | nil => simp [totalOf]
  | cons result others ih =>
    rw [List.forall_mem_cons, ← ih]
    exact Nat.add_eq_zero_iff

/-- A summary reports success exactly if every file passes. -/
theorem succeeds_iff : succeeds results = true ↔ ∀ result ∈ results, result.passed = true := by
  have hdiagnostics : (totals results).diagnostics = 0 ↔
      ∀ result ∈ results, result.diagnostics.isEmpty = true := by
    simp only [totals, totalOf_eq_zero_iff, List.length_eq_zero_iff, List.isEmpty_iff]
  have herrors : (totals results).errors = 0 ↔ ∀ result ∈ results, result.error.isNone = true := by
    simp [totals, List.countP_eq_zero]
  simp only [succeeds, Totals.clean, Bool.and_eq_true, beq_iff_eq, hdiagnostics, herrors, FileResult.passed]
  exact ⟨fun h result hmem => ⟨h.1 result hmem, h.2 result hmem⟩,
    fun h => ⟨fun result hmem => (h result hmem).1, fun result hmem => (h result hmem).2⟩⟩

end Report

namespace CommandLine

theorem exitCode_eq (format : Format) (results : List FileResult) :
    exitCode format results = if ∀ result ∈ results, result.passed = true then 0 else 1 := by
  cases format with
  | text => simp only [exitCode, Report.succeeds_iff]
  | json => simp only [exitCode, allPass, List.all_eq_true]

/-! ## Forms -/

def Format.word : Format → String
  | .text => "text"
  | .json => "json"

def Arguments.inFormat (arguments : Arguments) (format : Format) : Arguments :=
  { arguments with format := some format }

def Request.inFormat (request : Request) (format : Format) : Request :=
  match request with
  | .run arguments => .run (arguments.inFormat format)
  | request => request

namespace Arguments

variable (arguments : Arguments) (f g : Format)

theorem addPath?_inFormat (text : String) :
    (arguments.inFormat g).addPath? text = (arguments.addPath? text).map (·.inFormat g) := by
  unfold addPath?
  split <;> rfl

/-- Once there is a form, every other one is refused; no other option looks at it. -/
theorem set?_inFormat (option : ValueOption) (text : String) : (arguments.inFormat g).set? option text =
    (if option = .format then none else arguments.set? option text).map (·.inFormat g) := by
  cases option with
  | root =>
    simp only [set?, inFormat]
    cases givenPath? arguments.root text <;> rfl
  | optionFile =>
    simp only [set?, inFormat]
    cases givenPath? arguments.optionFile text <;> rfl
  | block => rfl
  | focus => rfl
  | format => rfl

theorem goOn_inFormat (goOn : Arguments → Request)
    (h : ∀ next : Arguments, goOn (next.inFormat g) = (goOn (next.inFormat f)).inFormat g)
    (taken : Option Arguments) :
    (match taken.map (inFormat · g) with
      | some next => goOn next
      | none => .misuse) =
    (match taken.map (inFormat · f) with
      | some next => goOn next
      | none => Request.misuse).inFormat g := by
  cases taken with
  | none => rfl
  | some next => exact h next

theorem addPaths_inFormat (texts : List String) : (arguments.inFormat g).addPaths texts =
    ((arguments.inFormat f).addPaths texts).inFormat g := by
  induction texts generalizing arguments with
  | nil => rfl
  | cons text others ih =>
    simp only [addPaths, addPath?_inFormat]
    exact goOn_inFormat f g (·.addPaths others) ih _

theorem ofLetters_inFormat (letters : List Char) : (ofLetters letters).inFormat g = ofLetters letters := by
  unfold ofLetters
  split <;> rfl

theorem read_inFormat (pending : Option ValueOption) (texts : List String) :
    (arguments.inFormat g).read pending texts =
      ((arguments.inFormat f).read pending texts).inFormat g := by
  induction texts generalizing arguments pending with
  | nil => cases pending <;> rfl
  | cons text others ih =>
    simp only [read, set?_inFormat, addPath?_inFormat]
    cases pending with
    | some option =>
      cases Argument.ofText text with
      | word value => exact goOn_inFormat f g (·.read none others) (ih · none) _
      | endOfOptions => rfl
      | short letters => rfl
      | long name value => rfl
    | none =>
      cases Argument.ofText text with
      | endOfOptions => exact addPaths_inFormat arguments f g others
      | short letters => exact (ofLetters_inFormat g letters).symm
      | word text => exact goOn_inFormat f g (·.read none others) (ih · none) _
      | long name value =>
        dsimp only
        cases OptionName.ofText? name with
        | none => rfl
        | some option =>
          cases option with
          | valued option =>
            cases value with
            | some value => exact goOn_inFormat f g (·.read none others) (ih · none) _
            | none => exact ih arguments (some option)
          | switch option =>
            cases value with
            | some value => cases option <;> rfl
            | none =>
              cases option with
              | help => rfl
              | version => rfl
              | fix =>
                by_cases hfix : arguments.fix = true
                · simp only [inFormat, hfix, reduceIte, Request.inFormat]
                · simp only [inFormat, hfix, Bool.false_eq_true, reduceIte]
                  exact ih { arguments with fix := true } none
              | testsOnly =>
                by_cases htests : arguments.testsOnly = true
                · simp only [inFormat, htests, reduceIte, Request.inFormat]
                · simp only [inFormat, htests, Bool.false_eq_true, reduceIte]
                  exact ih { arguments with testsOnly := true } none

end Arguments

theorem Request.ofArguments_format (f g : Format) (given : List String) :
    Request.ofArguments ("--format" :: g.word :: given) =
      (Request.ofArguments ("--format" :: f.word :: given)).inFormat g := by
  have hread : ∀ format : Format, Request.ofArguments ("--format" :: format.word :: given) =
      (Arguments.unset.inFormat format).read none given := by
    intro format
    cases format <;> rfl
  rw [hread, hread]
  exact Arguments.read_inFormat _ f g none given

/-! ## Invocations -/

variable {reader : Syntax.Reader} {arguments : Arguments} {settings : Settings} {store : Store}

/-- The code and the store that an invocation ends with are those of its run, whatever the form. -/
theorem outcome_of_settings (h : arguments.settings store = .ok settings) (color : Bool) :
    ((Request.run arguments).outcome reader color store).code =
      (if ∀ result ∈ (settings.run reader arguments.fix store arguments.paths).1, result.passed = true
        then 0 else 1) ∧
    ((Request.run arguments).outcome reader color store).store =
      (settings.run reader arguments.fix store arguments.paths).2 := by
  simp only [Request.outcome, lint, h, exitCode_eq, and_self]

theorem outcome_inFormat (reader : Syntax.Reader) (request : Request) (f g : Format) (color : Bool) (store : Store) :
    ((request.inFormat f).outcome reader color store).code = ((request.inFormat g).outcome reader color store).code ∧
    ((request.inFormat f).outcome reader color store).store =
      ((request.inFormat g).outcome reader color store).store := by
  cases request with
  | help => exact ⟨rfl, rfl⟩
  | version => exact ⟨rfl, rfl⟩
  | misuse => exact ⟨rfl, rfl⟩
  | run arguments =>
    -- The settings do not look at the form.
    have hsettings : ∀ format, (arguments.inFormat format).settings store = arguments.settings store :=
      fun _ => rfl
    cases h : arguments.settings store with
    | error fault => simp only [Request.inFormat, Request.outcome, lint, hsettings, h, and_self]
    | ok settings =>
      obtain ⟨hcode, hstore⟩ := outcome_of_settings ((hsettings f).trans h) color
      obtain ⟨hcode', hstore'⟩ := outcome_of_settings ((hsettings g).trans h) color
      exact ⟨hcode.trans hcode'.symm, hstore.trans hstore'.symm⟩

/-- For any results a summary reports success if and only if every one of them passes. So, for any reader and store and
whether there is colour or not: a request in one form ends with the code and the store that it ends with in
any other form, and so do two command lines that ask for different forms and go on alike. If there is
nothing wrong with the arguments and the options, the code is 0 if every file of the run passes and 1 if not,
and the store is the one that the run leaves. -/
theorem formats_agree (reader : Syntax.Reader) (results : List FileResult) (color : Bool) (store : Store) :
    (Report.succeeds results = true ↔ ∀ result ∈ results, result.passed = true) ∧
    (∀ (request : Request) (f g : Format),
      ((request.inFormat f).outcome reader color store).code =
        ((request.inFormat g).outcome reader color store).code ∧
      ((request.inFormat f).outcome reader color store).store =
        ((request.inFormat g).outcome reader color store).store) ∧
    (∀ (given : List String) (f g : Format),
      let outcome (format : Format) :=
        (Request.ofArguments ("--format" :: format.word :: given)).outcome reader color store
      (outcome f).code = (outcome g).code ∧ (outcome f).store = (outcome g).store) ∧
    ∀ (arguments : Arguments) (settings : Settings), arguments.settings store = .ok settings →
      let outcome := (Request.run arguments).outcome reader color store
      let run := settings.run reader arguments.fix store arguments.paths
      outcome.code = (if ∀ result ∈ run.1, result.passed = true then 0 else 1) ∧
      outcome.store = run.2 := by
  refine ⟨Report.succeeds_iff, fun request f g => outcome_inFormat reader request f g color store, ?_, ?_⟩
  · intro given f g outcome
    have hsame := outcome_inFormat reader (Request.ofArguments ("--format" :: g.word :: given)) f g color store
    rwa [← Request.ofArguments_format, ← Request.ofArguments_format] at hsame
  · intro arguments settings h
    exact outcome_of_settings h color

end CommandLine

end FocusLint
