import FocusLint.Run
import FocusLint.Proofs.Stores

/-!
What a run does to the store.

Main statement: `run_writes_only_fixed`. A run that only checks leaves the store as it is. A run that mends
keeps the outline of the store, and it changes a file only if one of the files it lints is that file, could be
read and was mended; then it has the text that mending yields for the text just read.

`Mends` is what linting one file may do to the store, in four cases, and `MendsAll` is a sequence of such
steps. What holds of a run is read off these relations: the outline is kept step by step, and a file that is
not the same at the end was rewritten in some step, the first of which read what had been there before the run.
-/

namespace FocusLint

open Syntax (Dialect Reader)

namespace Store

variable {store : Store} {path : Path} {text : List Char} {dialect : Dialect}

theorem contains_of_fileAt {names : List String} {content : ByteArray}
    (hpath : store.locate path = .ok names) (hfile : store.fileAt names = some content) :
    store.contains path = true := by
  rw [fileAt_eq_some] at hfile
  unfold contains Store.entry?
  rw [hpath]
  exact Option.isSome_of_eq_some hfile

theorem readSource_eq_ok_iff : store.readSource path = .ok (text, dialect) ↔
    path.dialect? = some dialect ∧ store.read path = .ok text := by
  constructor
  · intro hsource
    unfold readSource at hsource
    split at hsource
    · cases hsource
    · split at hsource
      · cases hsource
      · next hdialect =>
        split at hsource
        · cases hsource
        · next hread =>
          cases hsource
          exact ⟨hdialect, hread⟩
  · rintro ⟨hdialect, hread⟩
    obtain ⟨names, hpath, hfile⟩ := read_eq_ok_iff.mp hread
    simp only [readSource, contains_of_fileAt hpath hfile, hdialect, hread]
    rfl

end Store

namespace Settings

variable {settings : Settings} {reader : Reader} {store next after : Store} {path : Path} {paths : List Path}
  {result : FileResult} {results : List FileResult} {names : List String} {text : List Char} {dialect : Dialect}

/-! ## One file -/

theorem lintFile_of_fault {fault : LintFault} (h : store.readSource path = .error fault) (mend : Bool) :
    settings.lintFile reader mend store path = (settings.failed path fault, store) := by
  rw [lintFile, h]

theorem lintFile_unfixed {fixed : FixedSource} (h : store.readSource path = .ok (text, dialect))
    (hfixed : lintAndFix reader (rulesOf settings.options) dialect text = fixed) (hzero : fixed.fixesApplied = 0) :
    settings.lintFile reader true store path =
      (settings.linted path fixed.output fixed.remaining fixed.fixesApplied, store) := by
  simp only [lintFile, h, hfixed, hzero, reduceIte]

theorem lintFile_unwritten {fixed : FixedSource} {fault : FileFault}
    (h : store.readSource path = .ok (text, dialect))
    (hfixed : lintAndFix reader (rulesOf settings.options) dialect text = fixed) (hne : fixed.fixesApplied ≠ 0)
    (hwrite : store.write path fixed.output = .error fault) :
    settings.lintFile reader true store path = (settings.failed path (.unwritable fault), store) := by
  simp only [lintFile, h, hfixed, hne, hwrite, reduceIte]

theorem lintFile_written {fixed : FixedSource} (h : store.readSource path = .ok (text, dialect))
    (hfixed : lintAndFix reader (rulesOf settings.options) dialect text = fixed) (hne : fixed.fixesApplied ≠ 0)
    (hwrite : store.write path fixed.output = .ok next) :
    settings.lintFile reader true store path =
      (settings.linted path fixed.output fixed.remaining fixed.fixesApplied, next) := by
  simp only [lintFile, h, hfixed, hne, hwrite, reduceIte]

theorem lintFile_false (h : store.readSource path = .ok (text, dialect)) :
    settings.lintFile reader false store path =
      (settings.linted path text (lintSource reader (rulesOf settings.options) dialect text) 0, store) := by
  simp only [lintFile, h, Bool.false_eq_true, reduceIte]

/-- Something would be removed from the text of the file at a path, but the file must not be written. -/
structure Refuses (settings : Settings) (reader : Reader) (store : Store) (path : Path) (fault : FileFault)
    (text : List Char) (dialect : Dialect) : Prop where
  read : store.readSource path = .ok (text, dialect)
  needed : 0 < (lintAndFix reader (rulesOf settings.options) dialect text).fixesApplied
  refused : ∃ names, store.locate path = .ok names ∧ store.refusal names = some fault

/-- What linting and mending the file at a path does to the store, with the result it has. -/
inductive Mends (settings : Settings) (reader : Reader) (store : Store) (path : Path) : FileResult → Store → Prop
  | unread {fault : LintFault} (unread : store.readSource path = .error fault) :
      Mends settings reader store path (settings.failed path fault) store
  | kept {text : List Char} {dialect : Dialect} {fixed : FixedSource}
      (read : store.readSource path = .ok (text, dialect))
      (mended : lintAndFix reader (rulesOf settings.options) dialect text = fixed)
      (unfixed : fixed.fixesApplied = 0) :
      Mends settings reader store path (settings.linted path fixed.output fixed.remaining fixed.fixesApplied) store
  | unwritten {fault : FileFault} {text : List Char} {dialect : Dialect}
      (refuses : settings.Refuses reader store path fault text dialect) :
      Mends settings reader store path (settings.failed path (.unwritable fault)) store
  | rewritten {next : Store} {text : List Char} {dialect : Dialect} {fixed : FixedSource} {names : List String}
      (read : store.readSource path = .ok (text, dialect))
      (mended : lintAndFix reader (rulesOf settings.options) dialect text = fixed)
      (removes : 0 < fixed.fixesApplied)
      (located : store.locate path = .ok names)
      (permitted : store.refusal names = none)
      (outline : next.outline = store.outline)
      (output : next.fileAt names = some (String.ofList fixed.output).toUTF8)
      (others : ∀ other, other ≠ names → next.fileAt other = store.fileAt other) :
      Mends settings reader store path (settings.linted path fixed.output fixed.remaining fixed.fixesApplied) next

theorem mends_lintFile (settings : Settings) (reader : Reader) (store : Store) (path : Path) :
    settings.Mends reader store path (settings.lintFile reader true store path).1
      (settings.lintFile reader true store path).2 := by
  cases hsource : store.readSource path with
  | error fault =>
    rw [lintFile_of_fault hsource]
    exact .unread hsource
  | ok source =>
    obtain ⟨text, dialect⟩ := source
    by_cases hzero : (lintAndFix reader (rulesOf settings.options) dialect text).fixesApplied = 0
    · rw [lintFile_unfixed hsource rfl hzero]
      exact .kept hsource rfl hzero
    · obtain ⟨names, hpath, hfile⟩ := Store.read_eq_ok_iff.mp (Store.readSource_eq_ok_iff.mp hsource).2
      have hwrite := Store.write_of_locate hpath hfile
        (lintAndFix reader (rulesOf settings.options) dialect text).output
      have hremoves := Nat.pos_of_ne_zero hzero
      cases hrefusal : store.refusal names with
      | some fault =>
        rw [hrefusal] at hwrite
        rw [lintFile_unwritten hsource rfl hzero hwrite]
        exact .unwritten ⟨hsource, hremoves, names, hpath, hrefusal⟩
      | none =>
        rw [hrefusal] at hwrite
        rw [lintFile_written hsource rfl hzero hwrite]
        refine .rewritten hsource rfl hremoves hpath hrefusal (Store.outline_write hwrite) ?_ ?_
        · rw [Store.fileAt_write hwrite hpath, hfile, Option.map_some]
        · intro other hother
          apply Store.fileAt_write_of_ne hwrite
          rw [hpath]
          exact fun heq => hother (Except.ok.inj heq).symm

theorem Mends.path_eq (h : settings.Mends reader store path result next) : result.path = settings.displayed path := by
  cases h <;> rfl

theorem path_lintFile (settings : Settings) (reader : Reader) (mend : Bool) (store : Store) (path : Path) :
    (settings.lintFile reader mend store path).1.path = settings.displayed path := by
  cases mend with
  | true => exact (settings.mends_lintFile reader store path).path_eq
  | false =>
    cases hsource : store.readSource path with
    | error _ => rw [lintFile_of_fault hsource, failed]
    | ok _ => rw [lintFile_false hsource, linted]

theorem Mends.outline_eq (h : settings.Mends reader store path result next) : next.outline = store.outline := by
  cases h with
  | unread _ => rfl
  | kept _ _ _ => rfl
  | unwritten _ => rfl
  | rewritten _ _ _ _ _ outline _ _ => exact outline

/-- A step that ends in an error or removes nothing leaves the store. -/
theorem Mends.eq_of_unfixed (h : settings.Mends reader store path result next)
    (hunfixed : result.error ≠ none ∨ result.fixesApplied = 0) : next = store := by
  cases h with
  | unread _ => rfl
  | kept _ _ _ => rfl
  | unwritten _ => rfl
  | rewritten _ _ removes _ _ _ _ _ =>
    rcases hunfixed with herror | hzero
    · exact absurd rfl herror
    · exact absurd hzero (Nat.ne_of_gt removes)

/-- The file that some names lead to was mended by its path: the extension of the path is supported, the file
held a text and something was removed from it. -/
structure Fixed (store : Store) (names : List String) (path : Path) (result : FileResult) : Prop where
  located : store.locate path = .ok names
  supported : ∃ dialect, path.dialect? = some dialect
  isText : ∃ text : String, store.fileAt names = some text.toUTF8
  accepted : result.error = none
  fixed : 0 < result.fixesApplied

/-- One step changes the file at the path only, and only if something was removed from it. -/
theorem Mends.fixed_of_ne (h : settings.Mends reader store path result next)
    (hne : next.fileAt names ≠ store.fileAt names) : Fixed store names path result := by
  cases h with
  | unread _ => exact absurd rfl hne
  | kept _ _ _ => exact absurd rfl hne
  | unwritten _ => exact absurd rfl hne
  | @rewritten _ text dialect fixed located read _ removes hlocated _ _ _ others =>
    have heq : names = located := by
      by_contra hother
      exact hne (others names hother)
    subst heq
    obtain ⟨hdialect, hread⟩ := Store.readSource_eq_ok_iff.mp read
    obtain ⟨_, hpath, hfile⟩ := Store.read_eq_ok_iff.mp hread
    rw [hlocated, Except.ok.injEq] at hpath
    subst hpath
    exact ⟨hlocated, ⟨dialect, hdialect⟩, ⟨_, hfile⟩, rfl, removes⟩

/-! ## One file after the other -/

/-- What linting and mending files one after the other does to the store, with their results. -/
inductive MendsAll (settings : Settings) (reader : Reader) : Store → List Path → List FileResult → Store → Prop
  | nil (store : Store) : MendsAll settings reader store [] [] store
  | cons {store next after : Store} {path : Path} {paths : List Path} {result : FileResult}
      {results : List FileResult} (step : settings.Mends reader store path result next)
      (others : MendsAll settings reader next paths results after) :
      MendsAll settings reader store (path :: paths) (result :: results) after

theorem mendsAll_lintFiles (settings : Settings) (reader : Reader) (store : Store) (paths : List Path) :
    settings.MendsAll reader store paths (settings.lintFiles reader true store paths).1
      (settings.lintFiles reader true store paths).2 := by
  induction paths generalizing store with
  | nil => exact .nil store
  | cons path paths ih => exact .cons (settings.mends_lintFile reader store path) (ih _)

theorem MendsAll.outline_eq (h : settings.MendsAll reader store paths results after) :
    after.outline = store.outline := by
  induction h with
  | nil _ => rfl
  | cons step _ ih => exact ih.trans step.outline_eq

/-- A file that is not what it was has been mended in one of the steps. -/
theorem MendsAll.exists_fixed_of_ne (h : settings.MendsAll reader store paths results after)
    (hne : after.fileAt names ≠ store.fileAt names) :
    ∃ path result, (path, result) ∈ paths.zip results ∧ Fixed store names path result := by
  induction h with
  | nil _ => exact absurd rfl hne
  | @cons store next after path paths result results step others ih =>
    by_cases hfirst : next.fileAt names = store.fileAt names
    · -- The first step left the file, so that a later one reads there what was there before.
      obtain ⟨path', result', hmem, hfixed⟩ := ih (hfirst ▸ hne)
      refine ⟨path', result', List.mem_cons_of_mem _ hmem, ?_⟩
      exact { hfixed with
        located := (Store.locate_congr step.outline_eq path').symm.trans hfixed.located
        isText := hfirst ▸ hfixed.isText }
    · exact ⟨path, result, List.mem_cons_self, step.fixed_of_ne hfirst⟩

theorem store_lintFile_false (settings : Settings) (reader : Reader) (store : Store) (path : Path) :
    (settings.lintFile reader false store path).2 = store := by
  cases hsource : store.readSource path with
  | error _ => rw [lintFile_of_fault hsource]
  | ok _ => rw [lintFile_false hsource]

theorem lintFiles_false (settings : Settings) (reader : Reader) (store : Store) (paths : List Path) :
    settings.lintFiles reader false store paths =
      (paths.map fun path => (settings.lintFile reader false store path).1, store) := by
  induction paths with
  | nil => rfl
  | cons path paths ih =>
    simp only [lintFiles, store_lintFile_false, ih, List.map_cons]

theorem map_path_lintFiles (settings : Settings) (reader : Reader) (mend : Bool) (store : Store) (paths : List Path) :
    (settings.lintFiles reader mend store paths).1.map FileResult.path = paths.map settings.displayed := by
  induction paths generalizing store with
  | nil => rfl
  | cons path others ih => simp only [lintFiles, List.map_cons, path_lintFile, ih]

/-! ## Runs -/

/-- For any reader, settings, store and targets:

A run that does not mend leaves the store as it is. A run that mends goes through its files one after the
other: the file that was read gets the text that mending yields for it, and a step with an error or with
nothing to remove, from whatever store, leaves that store. The outline is the same after the run, so nothing
is created, removed or renamed. A file whose content is not the same was mended according to the result of one
of the linted paths. -/
theorem run_writes_only_fixed (settings : Settings) (reader : Reader) (store : Store) (targets : List Path) :
    (settings.run reader false store targets).2 = store ∧
    ∃ results after, settings.run reader true store targets = (results, after) ∧
      settings.MendsAll reader store (settings.files store targets) results after ∧
      (∀ (earlier next : Store) (path : Path) (result : FileResult),
        settings.lintFile reader true earlier path = (result, next) →
        result.error ≠ none ∨ result.fixesApplied = 0 → next = earlier) ∧
      after.outline = store.outline ∧
      ∀ names, after.fileAt names ≠ store.fileAt names →
        ∃ path result, (path, result) ∈ (settings.files store targets).zip results ∧
          Fixed store names path result := by
  constructor
  · rw [run, lintFiles_false]
  · have hmends := settings.mendsAll_lintFiles reader store (settings.files store targets)
    refine ⟨_, _, rfl, hmends, ?_, hmends.outline_eq, fun names hne => hmends.exists_fixed_of_ne hne⟩
    intro earlier next path result hstep hunfixed
    have hmends := settings.mends_lintFile reader earlier path
    rw [hstep] at hmends
    exact hmends.eq_of_unfixed hunfixed

end Settings

end FocusLint
