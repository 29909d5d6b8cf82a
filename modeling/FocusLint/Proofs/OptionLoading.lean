import FocusLint.Proofs.OptionTexts

/-!
Loading options is all or nothing.

Main statement: `load_all_or_nothing`. Loading fails exactly if the chosen file cannot be read or its text is refused,
and then the settings are what they were. If it does not fail, the options are those that the text denotes, whatever
they were before; or there is nothing to load, and nothing changes.

There are four ways in which loading can end (`Loads`), told by what the store holds and by what the text of the file
is. What is said of loading is said of each of them.
-/

namespace FocusLint

namespace Settings

/-- The file that is chosen: the one that is given, or else the default one in the root. -/
def chosenFile (settings : Settings) (given : Option Path) : Path :=
  given.getD (settings.root.join optionFileName)

/-- There is nothing to load: no file is given, and the default one does not exist. -/
def NothingToLoad (settings : Settings) (store : Store) (given : Option Path) : Prop :=
  given = none ∧ store.contains (settings.chosenFile given) = false

/-- How loading ends: with a fault or without, and with which settings. -/
inductive Loads (settings : Settings) (store : Store) (given : Option Path) :
    Except SettingsFault Unit → Settings → Prop where
  | nothing (absent : settings.NothingToLoad store given) : Loads settings store given (.ok ()) settings
  | unreadable (present : ¬ settings.NothingToLoad store given) (cause : FileFault)
      (read : store.read (settings.chosenFile given) = .error cause) :
      Loads settings store given (.error (.unreadable (settings.chosenFile given) cause)) settings
  | refused (present : ¬ settings.NothingToLoad store given) (text : List Char) (cause : OptionFault)
      (read : store.read (settings.chosenFile given) = .ok text) (fault : OptionFile.read text = .error cause) :
      Loads settings store given (.error (.refused (settings.chosenFile given) text cause)) settings
  | loaded (present : ¬ settings.NothingToLoad store given) (text : List Char) (options : RuleOptions)
      (read : store.read (settings.chosenFile given) = .ok text) (accepted : OptionFile.read text = .ok options) :
      Loads settings store given (.ok ()) { settings with options }

/-! ## What loading does -/

variable (settings : Settings) (store : Store) (given : Option Path)

theorem run_loadFile (path : Path) : (loadFile store path).run.run settings =
    match store.read path with
    | .error fault => (.error (.unreadable path fault), settings)
    | .ok text =>
      match OptionFile.read text with
      | .error fault => (.error (.refused path text fault), settings)
      | .ok options => (.ok (), { settings with options }) := by
  unfold loadFile
  cases store.read path with
  | error fault => rfl
  | ok text =>
    dsimp only
    cases OptionFile.read text <;> rfl

theorem run_load : (load store given).run.run settings =
    if (settings.optionFile given).2 || store.contains (settings.optionFile given).1 then
      (loadFile store (settings.optionFile given).1).run.run settings
    else (.ok (), settings) :=
  apply_ite (fun load : ExceptT SettingsFault (StateM Settings) Unit => load.run.run settings) _ _ _

theorem optionFile_fst : (settings.optionFile given).1 = settings.chosenFile given := by
  cases given <;> rfl

/-- A file is looked at if it is given or exists. -/
theorem nothingToLoad_iff : settings.NothingToLoad store given ↔
    ((settings.optionFile given).2 || store.contains (settings.optionFile given).1) = false := by
  rw [optionFile_fst]
  cases given <;> simp [NothingToLoad, optionFile]

theorem loads_load : settings.Loads store given ((load store given).run.run settings).1
    ((load store given).run.run settings).2 := by
  rw [run_load]
  by_cases habsent : settings.NothingToLoad store given
  · rw [(settings.nothingToLoad_iff store given).mp habsent]
    exact .nothing habsent
  · have hlooked := Bool.of_not_eq_false (mt (settings.nothingToLoad_iff store given).mpr habsent)
    rw [if_pos hlooked, run_loadFile, optionFile_fst]
    cases hread : store.read (settings.chosenFile given) with
    | error cause => exact .unreadable habsent cause hread
    | ok text =>
      dsimp only
      cases haccepted : OptionFile.read text with
      | error cause => exact .refused habsent text cause hread haccepted
      | ok options => exact .loaded habsent text options hread haccepted

/-- Loading in place leaves the settings that an invocation goes on with. -/
theorem loadOptions_eq : settings.loadOptions store given =
    ((load store given).run.run settings).1.map fun _ => ((load store given).run.run settings).2 := by
  rw [run_load, run_loadFile, loadOptions]
  dsimp only
  cases (settings.optionFile given).2 <;> cases store.contains (settings.optionFile given).1
  all_goals
    cases store.read (settings.optionFile given).1 with
    | error fault => rfl
    | ok text =>
      dsimp only
      cases OptionFile.read text <;> rfl

/-! ## Faults -/

section Faults

variable {settings store given} {result : Except SettingsFault Unit} {after : Settings} {path : Path}
  {text : List Char}

theorem Loads.unreadable_iff {cause : FileFault} (h : settings.Loads store given result after) :
    result = .error (.unreadable path cause) ↔ ¬ settings.NothingToLoad store given ∧
      path = settings.chosenFile given ∧ store.read (settings.chosenFile given) = .error cause := by
  cases h with
  | nothing habsent => simp [habsent]
  | unreadable hpresent found hread => simp [hpresent, hread, eq_comm (a := path)]
  | refused _ _ _ hread => simp [hread]
  | loaded _ _ _ hread => simp [hread]

theorem Loads.refused_iff {cause : OptionFault} (h : settings.Loads store given result after) :
    result = .error (.refused path text cause) ↔ ¬ settings.NothingToLoad store given ∧
      path = settings.chosenFile given ∧ store.read (settings.chosenFile given) = .ok text ∧
      OptionFile.read text = .error cause := by
  cases h with
  | nothing habsent => simp [habsent]
  | unreadable _ _ hread => simp [hread]
  | refused hpresent found fault hread hrefused =>
    simp only [hread, Except.error.injEq, SettingsFault.refused.injEq, Except.ok.injEq]
    constructor
    · rintro ⟨rfl, rfl, rfl⟩
      exact ⟨hpresent, rfl, rfl, hrefused⟩
    · rintro ⟨-, rfl, rfl, hcause⟩
      exact ⟨rfl, rfl, Except.error.inj (hrefused.symm.trans hcause)⟩
  | loaded _ found options hread haccepted =>
    simp only [hread, reduceCtorEq, false_iff, Except.ok.injEq]
    rintro ⟨-, -, rfl, hcause⟩
    rw [haccepted] at hcause
    cases hcause

/-- A fault leaves the settings, and tells the chosen file and its cause. -/
theorem Loads.of_error {fault : SettingsFault} (h : settings.Loads store given (.error fault) after) :
    after = settings ∧
    ((∃ cause, fault = .unreadable (settings.chosenFile given) cause) ∨
      ∃ text cause, fault = .refused (settings.chosenFile given) text cause) := by
  cases h with
  | unreadable _ cause => exact ⟨rfl, .inl ⟨cause, rfl⟩⟩
  | refused _ text cause => exact ⟨rfl, .inr ⟨text, cause, rfl⟩⟩

theorem Loads.of_ok (h : settings.Loads store given (.ok ()) after) :
    settings.NothingToLoad store given ∧ after = settings ∨
    ¬ settings.NothingToLoad store given ∧ ∃ text options,
      store.read (settings.chosenFile given) = .ok text ∧ OptionFile.read text = .ok options ∧
      after = { settings with options } := by
  cases h with
  | nothing habsent => exact .inl ⟨habsent, rfl⟩
  | loaded hpresent text options hread haccepted => exact .inr ⟨hpresent, text, options, hread, haccepted, rfl⟩

end Faults

/-- A given file is all that is looked at: not the store besides it, nor the root. -/
theorem run_load_some {other : Store} {path : Path} (h : other.read path = store.read path) (root : Path) :
    (load other (some path)).run.run { settings with root } =
      (((load store (some path)).run.run settings).1,
        { ((load store (some path)).run.run settings).2 with root }) := by
  have hgiven : ∀ (settings : Settings) (store : Store),
      (load store (some path)).run.run settings = (loadFile store path).run.run settings := fun _ _ => rfl
  rw [hgiven, hgiven, run_loadFile, run_loadFile, h]
  cases store.read path with
  | error fault => rfl
  | ok text =>
    dsimp only
    cases OptionFile.read text <;> rfl

/-- **Loading options is all or nothing.** For any settings, any store, and whether a file is given or not:

Loading tells that a file is unreadable if and only if there is one to load and its text cannot be read, and that it
is refused if and only if there is one to load, its text is read, and the text is not accepted as options. Either way
the settings are what they were, root and options and choice of files, and the words of the fault hold the chosen path
and its cause. If there is no fault, then either no file is given, the default one does not exist, and the settings
are what they were; or the options are those that the text denotes, where a list that it leaves out is not given, and
nothing of the options before. When a file is given, neither the rest of the store nor the root is looked at, and so no
default file is. An invocation goes on with the settings that are left. -/
theorem load_all_or_nothing (settings : Settings) (store : Store) (given : Option Path) :
    let file := settings.chosenFile given
    let absent := settings.NothingToLoad store given
    let outcome := (load store given).run.run settings
    (∀ path cause, outcome.1 = .error (.unreadable path cause) ↔
      ¬ absent ∧ path = file ∧ store.read file = .error cause) ∧
    (∀ path text cause, outcome.1 = .error (.refused path text cause) ↔
      ¬ absent ∧ path = file ∧ store.read file = .ok text ∧ OptionFile.read text = .error cause) ∧
    (∀ fault, outcome.1 = .error fault → outcome.2 = settings ∧
      ((∃ cause, fault = .unreadable file cause ∧ fault.causes = [cause.message] ∧
        fault.message = "failed to read " ++ file.text ++ ": " ++ cause.message) ∨
      ∃ text cause, fault = .refused file text cause ∧ fault.causes = cause.message text :: cause.causes text ∧
        fault.message = file.text ++ ": " ++ cause.message text)) ∧
    (outcome.1 = .ok () →
      absent ∧ outcome.2 = settings ∨
      ¬ absent ∧ ∃ text options, store.read file = .ok text ∧ Denotes text options ∧
        OptionFile.read text = .ok options ∧ outcome.2 = ⟨settings.root, options, settings.testsOnly⟩) ∧
    (∀ path, given = some path → ∀ (other : Store) (root : Path), other.read path = store.read path →
      (load other given).run.run { settings with root } = (outcome.1, { outcome.2 with root })) ∧
    settings.loadOptions store given = outcome.1.map fun _ => outcome.2 := by
  intro file absent outcome
  have hloads : settings.Loads store given outcome.1 outcome.2 := settings.loads_load store given
  refine ⟨fun path cause => hloads.unreadable_iff, fun path text cause => hloads.refused_iff, ?_, ?_, ?_,
    settings.loadOptions_eq store given⟩
  · intro fault hfault
    rw [hfault] at hloads
    obtain ⟨hafter, ⟨cause, rfl⟩ | ⟨text, cause, rfl⟩⟩ := hloads.of_error
    · exact ⟨hafter, .inl ⟨cause, rfl, rfl, rfl⟩⟩
    · exact ⟨hafter, .inr ⟨text, cause, rfl, rfl, rfl⟩⟩
  · intro hok
    rw [hok] at hloads
    obtain habsent | ⟨hpresent, text, options, hread, haccepted, hafter⟩ := hloads.of_ok
    · exact .inl habsent
    · exact .inr ⟨hpresent, text, options, hread, (OptionFile.read_eq_ok_iff.mp haccepted).1, haccepted, hafter⟩
  · rintro path rfl other root hread
    exact settings.run_load_some store hread root

end Settings

end FocusLint
