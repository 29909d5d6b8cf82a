import FocusLint.Proofs.RepeatedItems
import FocusLint.Proofs.Verdicts

/-!
Where the options of an invocation come from.

Main statement: `options_settled_by_precedence`. An invocation ends with code 2 exactly if its option file is
refused or names given as arguments are repeated, and then nothing was linted, written or changed. In every
other case each of the two lists is the one that the arguments give, if they give any name, or else the one of
the option file, or else the default.

Options are checked when they are loaded and once more when arguments have replaced some of them. A list from a
file has passed the first check, so that only the arguments can fail the second (`validate_replacedIn_iff`).
-/

namespace FocusLint

/-! ## Checked options -/

theorem OptionFile.validate_of_read {text : List Char} {options : RuleOptions}
    (h : OptionFile.read text = .ok options) : options.validate = .ok () := by
  unfold OptionFile.read at h
  split at h
  · cases h
  · split at h
    · cases h
    · next hvalid =>
      cases h
      exact hvalid

/-- The options of the file at a path, if it can be read and its text is not refused. -/
def Store.optionsAt? (store : Store) (path : Path) : Option RuleOptions :=
  match store.read path with
  | .error _ => none
  | .ok text => (OptionFile.read text).toOption

theorem Store.validate_of_optionsAt? {store : Store} {path : Path} {options : RuleOptions}
    (h : store.optionsAt? path = some options) : options.validate = .ok () := by
  unfold Store.optionsAt? at h
  split at h
  · cases h
  · next text _ =>
    cases hread : OptionFile.read text with
    | error fault => simp [hread, Except.toOption] at h
    | ok read =>
      simp only [hread, Except.toOption, Option.some.injEq] at h
      exact OptionFile.validate_of_read (h ▸ hread)

/-! ## Loading -/

namespace Settings

variable (settings : Settings) (store : Store)

theorem loadOptions_some (path : Path) :
    (∃ fault, settings.loadOptions store (some path) = .error fault ∧ store.optionsAt? path = none) ∨
    ∃ options, settings.loadOptions store (some path) = .ok { settings with options := options } ∧
      store.optionsAt? path = some options := by
  simp only [loadOptions, optionFile, Store.optionsAt?]
  cases store.read path with
  | error fault => exact .inl ⟨_, rfl, rfl⟩
  | ok text =>
    dsimp only
    cases OptionFile.read text with
    | error fault => exact .inl ⟨_, rfl, rfl⟩
    | ok options => exact .inr ⟨options, rfl, rfl⟩

theorem loadOptions_none : settings.loadOptions store none =
    if store.contains (settings.root.join optionFileName) = true
    then settings.loadOptions store (some (settings.root.join optionFileName)) else .ok settings := by
  by_cases h : store.contains (settings.root.join optionFileName) = true <;> simp [loadOptions, optionFile, h]

end Settings

namespace CommandLine

namespace Arguments

/-- The option file of an invocation: the one that is given, or else the one in the root, if there is one. -/
def chosenFile? (arguments : Arguments) (store : Store) : Option Path :=
  match arguments.optionFile with
  | some path => some path
  | none =>
    let path := (arguments.startingSettings store).root.join optionFileName
    if store.contains path then some path else none

/-- The options of an invocation before names given as arguments replace any of them: those of the option file,
if it is not refused, and no lists if there is no such file. -/
def loadedOptions? (arguments : Arguments) (store : Store) : Option RuleOptions :=
  match arguments.chosenFile? store with
  | some path => store.optionsAt? path
  | none => some .unset

variable (arguments : Arguments) (store : Store)

theorem options_startingSettings : (arguments.startingSettings store).options = .unset := by
  unfold startingSettings
  split
  · rfl
  · unfold Settings.discover
    cases Settings.findRepository store.root store.cwd.reverse <;> rfl

/-- Loading gives the options of the chosen file and changes nothing else. -/
theorem loadOptions_startingSettings :
    let starting := arguments.startingSettings store
    (∃ fault, starting.loadOptions store arguments.optionFile = .error fault ∧
      arguments.loadedOptions? store = none) ∨
    ∃ loaded, starting.loadOptions store arguments.optionFile = .ok { starting with options := loaded } ∧
      arguments.loadedOptions? store = some loaded := by
  intro starting
  unfold loadedOptions? chosenFile?
  cases arguments.optionFile with
  | some path => exact starting.loadOptions_some store path
  | none =>
    dsimp only
    rw [Settings.loadOptions_none]
    by_cases hcontains : store.contains (starting.root.join optionFileName) = true
    · rw [if_pos hcontains, if_pos hcontains]
      exact starting.loadOptions_some store _
    · rw [if_neg hcontains, if_neg hcontains]
      exact .inr ⟨.unset, by rw [← options_startingSettings arguments store], rfl⟩

theorem validate_of_loadedOptions? {loaded : RuleOptions}
    (h : arguments.loadedOptions? store = some loaded) : loaded.validate = .ok () := by
  unfold loadedOptions? at h
  split at h
  · exact Store.validate_of_optionsAt? h
  · cases h
    rfl

theorem loadedOptions?_eq_none_iff : arguments.loadedOptions? store = none ↔
    ∃ path, arguments.chosenFile? store = some path ∧ store.optionsAt? path = none := by
  unfold loadedOptions?
  cases arguments.chosenFile? store <;> simp

/-! ## Replacing -/

/-- Options with the lists that arguments replace. -/
def replacedIn (arguments : Arguments) (loaded : RuleOptions) : RuleOptions :=
  ⟨override arguments.block loaded.block, override arguments.focus loaded.focus⟩

theorem nodup_override_iff {given : List String} {before : Option (List String)}
    (h : (before.getD []).Nodup) : ((override given before).getD []).Nodup ↔ given.Nodup := by
  cases given with
  | nil => exact iff_of_true h List.nodup_nil
  | cons name others => rfl

theorem validate_replacedIn_iff {loaded : RuleOptions} (h : loaded.validate = .ok ()) :
    (arguments.replacedIn loaded).validate = .ok () ↔
      arguments.block.Nodup ∧ arguments.focus.Nodup := by
  obtain ⟨hblock, hfocus⟩ := RuleOptions.validate_eq_ok_iff.mp h
  rw [RuleOptions.validate_eq_ok_iff]
  exact and_congr (nodup_override_iff hblock) (nodup_override_iff hfocus)

theorem settings_cases :
    (∃ fault, arguments.settings store = .error fault ∧
      (arguments.loadedOptions? store = none ∨ ¬ arguments.block.Nodup ∨ ¬ arguments.focus.Nodup)) ∨
    ∃ loaded, arguments.settings store =
        .ok ⟨(arguments.startingSettings store).root, arguments.replacedIn loaded, arguments.testsOnly⟩ ∧
      arguments.loadedOptions? store = some loaded ∧ arguments.block.Nodup ∧ arguments.focus.Nodup := by
  rcases arguments.loadOptions_startingSettings store with ⟨fault, hload, hnone⟩ | ⟨loaded, hload, hloaded⟩
  · exact .inl ⟨.settings fault, by simp only [settings, hload], .inl hnone⟩
  · have hvalid := arguments.validate_replacedIn_iff (arguments.validate_of_loadedOptions? store hloaded)
    cases hcheck : (arguments.replacedIn loaded).validate with
    | error item =>
      refine .inl ⟨.duplicate item, ?_, .inr (Classical.not_and_iff_not_or_not.mp fun hnodup => ?_)⟩
      · simp only [settings, hload]
        rw [replacedIn] at hcheck
        rw [hcheck]
      · rw [hvalid.mpr hnodup] at hcheck
        cases hcheck
    | ok _ =>
      refine .inr ⟨loaded, ?_, hloaded, hvalid.mp hcheck⟩
      simp only [settings, hload]
      rw [replacedIn] at hcheck
      rw [hcheck]
      rfl

end Arguments

/-! ## Invocations -/

/-- The list in force: the names given as arguments, if there are any, or else the list of the option file, even
an empty one, or else the default. -/
def inForce (given : List String) (listed : Option (List String)) (default : List String) : List String :=
  if given = [] then listed.getD default else given

theorem getD_override (given : List String) (before : Option (List String)) (default : List String) :
    (Arguments.override given before).getD default = inForce given before default := by
  cases given <;> rfl

/-- For any reader, any arguments of a run, any store, and whether there is colour or not:

The exit code is 2 if and only if the chosen option file cannot be read or its text is refused, or names are
repeated among those given as arguments for one of the lists; names given as arguments do not make up
for a file that is refused. In this case nothing is written, no file is linted and the store stays as it
is, even if files were to be mended. In every other case the run takes place, with the root and the choice of
files asked for, and each of the two lists of the rule is the one given as arguments, or else the one of the
option file, or else the default. -/
theorem options_settled_by_precedence (reader : Syntax.Reader) (arguments : Arguments) (color : Bool) (store : Store) :
    let outcome := (Request.run arguments).outcome reader color store
    (outcome.code = 2 ↔
      (∃ path, arguments.chosenFile? store = some path ∧ store.optionsAt? path = none) ∨
      ¬ arguments.block.Nodup ∨ ¬ arguments.focus.Nodup) ∧
    (outcome.code = 2 → outcome.output = [] ∧ outcome.linted = [] ∧ outcome.store = store) ∧
    (outcome.code ≠ 2 → ∃ (settings : Settings) (loaded : RuleOptions),
      arguments.loadedOptions? store = some loaded ∧
      settings.root = (arguments.startingSettings store).root ∧
      settings.testsOnly = arguments.testsOnly ∧
      settings.options.blockNames = inForce arguments.block loaded.block blockDefaults ∧
      settings.options.focusNames = inForce arguments.focus loaded.focus focusDefaults ∧
      let run := settings.run reader arguments.fix store arguments.paths
      outcome.linted = run.1.map FileResult.path ∧ outcome.store = run.2 ∧
      outcome.code = if ∀ result ∈ run.1, result.passed = true then 0 else 1) := by
  intro outcome
  rcases arguments.settings_cases store with ⟨fault, hsettings, hfault⟩ |
      ⟨loaded, hsettings, hloaded, hblock, hfocus⟩
  · have houtcome : outcome = ⟨2, [], [complaint fault], [], store⟩ := by
      simp only [outcome, Request.outcome, lint, hsettings]
    rw [Arguments.loadedOptions?_eq_none_iff] at hfault
    exact ⟨iff_of_true (by rw [houtcome]) hfault, fun _ => by simp [houtcome],
      fun hcode => absurd (by rw [houtcome]) hcode⟩
  · obtain ⟨hcode, hstore⟩ := outcome_of_settings hsettings color
    have hne : outcome.code ≠ 2 := by
      rw [hcode]
      split <;> decide
    have hnot : ¬ ((∃ path, arguments.chosenFile? store = some path ∧ store.optionsAt? path = none) ∨
        ¬ arguments.block.Nodup ∨ ¬ arguments.focus.Nodup) := by
      rw [← Arguments.loadedOptions?_eq_none_iff, hloaded]
      simp [hblock, hfocus]
    refine ⟨iff_of_false hne hnot, fun hcode => absurd hcode hne, fun _ => ?_⟩
    refine ⟨⟨(arguments.startingSettings store).root, arguments.replacedIn loaded, arguments.testsOnly⟩,
      loaded, hloaded, rfl, rfl, getD_override .., getD_override .., ?_, hstore, hcode⟩
    simp only [outcome, Request.outcome, lint, hsettings]

end CommandLine

end FocusLint
