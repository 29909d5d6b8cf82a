import FocusLint.Proofs.FileClasses
import FocusLint.Proofs.FreshCheck
import FocusLint.Proofs.RelativePaths
import FocusLint.Proofs.Targets

/-!
Runs without targets, over all files below the root.

Main statement: `run_reports_each_file_once`. The files lie at different places, so that mending one of them does not
change what is read of another one, and every file has the result that it would have alone (`fst_lintFiles`). The files
are shown as they are seen from the root, which leaves the names that lead to them from there; so no two are shown
alike. A walk lists only files that are there and whose extension has a dialect.
-/

namespace FocusLint

open Syntax (Dialect Reader)

namespace Settings

variable {settings : Settings} {reader : Reader} {store : Store} {mend : Bool} {path other : Path} {paths : List Path}

/-! ## Results -/

theorem observeFiles_eq {σ : Type} (observe : σ → FileResult → σ) (store : Store) (seen : σ) (paths : List Path) :
    settings.observeFiles reader mend observe store seen paths =
      ((settings.lintFiles reader mend store paths).1, (settings.lintFiles reader mend store paths).2,
        (settings.lintFiles reader mend store paths).1.foldl observe seen) := by
  induction paths generalizing store seen with
  | nil => rfl
  | cons path others ih => simp only [observeFiles, ih, lintFiles, List.foldl_cons]

/-! ## Files that a walk lists -/

/-- A file that is there and has a dialect can only fail to be read or to be written. -/
theorem error_lintFile {dialect : Dialect} {error : String} (hthere : store.contains path = true)
    (hdialect : path.dialect? = some dialect)
    (herror : (settings.lintFile reader mend store path).1.error = some error) :
    ∃ fault : LintFault, error = fault.message ∧ fault ≠ .missing ∧ fault ≠ .unsupported := by
  cases hread : store.read path with
  | error fault =>
    have hsource : store.readSource path = .error (.unreadable fault) := by
      simp [Store.readSource, hthere, hdialect, hread]
    rw [lintFile_of_fault hsource] at herror
    exact ⟨.unreadable fault, (Option.some.inj herror).symm, by simp, by simp⟩
  | ok text =>
    have hsource := Store.readSource_eq_ok_iff.mpr ⟨hdialect, hread⟩
    cases mend with
    | false =>
      rw [lintFile_false hsource] at herror
      cases herror
    | true =>
      have hmends := settings.mends_lintFile reader store path
      generalize (settings.lintFile reader true store path).1 = result,
        (settings.lintFile reader true store path).2 = next at hmends herror
      cases hmends with
      | unread unread =>
        rw [hsource] at unread
        cases unread
      | @unwritten fault _ _ _ => exact ⟨.unwritable fault, (Option.some.inj herror).symm, by simp, by simp⟩
      | kept _ _ _ | rewritten _ _ _ _ _ _ _ _ => cases herror

theorem head?_message {fault : LintFault} (hmissing : fault ≠ .missing) (hunsupported : fault ≠ .unsupported) :
    fault.message.toList.head? = some 'f' := by
  cases fault with
  | missing => exact absurd rfl hmissing
  | unsupported => exact absurd rfl hunsupported
  | unreadable fault =>
    change ("failed to read file: " ++ fault.message).toList.head? = _
    rw [String.toList_append, List.head?_append]
    rfl
  | unwritable fault =>
    change ("failed to write fixes: " ++ fault.message).toList.head? = _
    rw [String.toList_append, List.head?_append]
    rfl

/-- A file below the root is shown by the names that lead to it from the root, which are its path below the root. -/
theorem join_displayed (wellFormed : store.root.WellFormed) {names : List String}
    (h : store.HasFile settings.root names) :
    settings.root.join (settings.displayed (settings.root.below names)) = settings.root.below names ∧
      (Path.ofString (settings.displayed (settings.root.below names))).isAbsolute = false := by
  obtain ⟨here, hroot, -⟩ := h.locate wellFormed
  have hchars : settings.root.chars ≠ [] := by
    intro hnil
    simp [Store.locate, hnil] at hroot
  have hnames := h.isName wellFormed
  have hshown : settings.displayed (settings.root.below names) = (Path.relative names).text := by
    rw [displayed, Path.relativeTo?_below hnames h.1 hchars, Option.getD_some]
  rw [hshown, Path.join_relative hnames h.1]
  refine ⟨rfl, ?_⟩
  rw [Path.ofString, Path.text, String.toList_ofList]
  exact Path.isAbsolute_relative hnames h.1

theorem join_displayed_of_mem_collect (wellFormed : store.root.WellFormed) {options : WalkOptions}
    (h : path ∈ store.collect options settings.root) : settings.root.join (settings.displayed path) = path ∧
      (Path.ofString (settings.displayed path)).isAbsolute = false := by
  obtain ⟨names, hfile, rfl, -⟩ := (Store.mem_collect wellFormed).mp h
  exact join_displayed wellFormed hfile

theorem nodup_displayed_collect (wellFormed : store.root.WellFormed) (settings : Settings) (options : WalkOptions) :
    ((store.collect options settings.root).map settings.displayed).Nodup := by
  have hdistinct := Store.nodup_of_pairwise_before (Store.pairwise_collect wellFormed options settings.root)
  refine List.Nodup.map_on (fun a ha b hb heq => ?_) hdistinct
  have hjoin := (join_displayed_of_mem_collect wellFormed ha).1
  rw [← hjoin, heq, (join_displayed_of_mem_collect wellFormed hb).1]

theorem error_of_mem_collect (wellFormed : store.root.WellFormed) {options : WalkOptions} {dir : Path}
    (settings : Settings) (reader : Reader) (mend : Bool) (h : path ∈ store.collect options dir) :
    (settings.lintFile reader mend store path).1.error ≠ some LintFault.missing.message ∧
      (settings.lintFile reader mend store path).1.error ≠ some LintFault.unsupported.message := by
  obtain ⟨names, -, -, hlists, -⟩ := (Store.mem_collect wellFormed).mp h
  obtain ⟨dialect, hdialect⟩ :=
    Path.isSourceFile_iff_dialect?.mp (Path.isSourceFile_iff.mpr (Store.lists_iff.mp hlists).1)
  have hthere : store.contains path = true := by
    obtain ⟨content, hfile⟩ := Store.exists_file_of_mem_collect wellFormed h
    rw [Store.contains, hfile, Option.isSome_some]
  have hne : ∀ error, error.toList.head? ≠ some 'f' →
      (settings.lintFile reader mend store path).1.error ≠ some error := by
    intro error hhead herror
    obtain ⟨fault, rfl, hmissing, hunsupported⟩ := error_lintFile hthere hdialect herror
    exact hhead (head?_message hmissing hunsupported)
  exact ⟨hne _ (by decide), hne _ (by decide)⟩

/-- For any reader, any settings and any store of well-formed entries, whether files are mended or not, a run without
targets:

Its results are those of the files that a walk lists below the root, one for each of them and in the same order, and
each file has the result that it would have if it were linted alone in the store as it was before the run. An observer
is shown just these results, one after the other. The path that a result shows leads from the root to the file of that
result: it is relative, and below the root it is the path of the file, letter by letter. So no two results show the same
path. No file is said to be missing, and none to have an extension that is not supported. -/
theorem run_reports_each_file_once (settings : Settings) (reader : Reader) (mend : Bool) (store : Store)
    (wellFormed : store.root.WellFormed) :
    let files := store.collect settings.walkOptions settings.root
    let results := (settings.run reader mend store []).1
    results = files.map (fun path => (settings.lintFile reader mend store path).1) ∧
    (∀ (σ : Type) (observe : σ → FileResult → σ) (seen : σ),
      settings.runObserved reader mend observe store seen [] =
        (results, (settings.run reader mend store []).2, results.foldl observe seen)) ∧
    (settings.runObserved reader mend (fun seen result => seen ++ [result.path]) store [] []).2.2 =
      results.map FileResult.path ∧
    List.Forall₂ (fun path result => settings.root.join result.path = path ∧
      (Path.ofString result.path).isAbsolute = false) files results ∧
    (results.map FileResult.path).Nodup ∧
    ∀ result ∈ results, result.error ≠ some "no such file or directory" ∧
      result.error ≠ some "unsupported file extension" := by
  intro files results
  have hresults : results = files.map fun path => (settings.lintFile reader mend store path).1 :=
    fst_lintFiles (settings.pairwise_locate_files wellFormed)
  have hobserved : ∀ (σ : Type) (observe : σ → FileResult → σ) (seen : σ),
      settings.runObserved reader mend observe store seen [] =
        (results, (settings.run reader mend store []).2, results.foldl observe seen) :=
    fun _ observe seen => settings.observeFiles_eq observe store seen _
  refine ⟨hresults, hobserved, ?_, ?_, ?_, ?_⟩
  · rw [hobserved, List.foldl_append_eq_append, List.nil_append, ← List.flatMap_def, ← List.map_eq_flatMap]
  · rw [hresults, List.forall₂_map_right_iff, List.forall₂_same]
    intro path hpath
    rw [path_lintFile]
    exact join_displayed_of_mem_collect wellFormed hpath
  · have hpaths : results.map FileResult.path = files.map settings.displayed :=
      settings.map_path_lintFiles reader mend store files
    rw [hpaths]
    exact nodup_displayed_collect wellFormed settings settings.walkOptions
  · intro result hresult
    rw [hresults] at hresult
    obtain ⟨path, hpath, rfl⟩ := List.mem_map.mp hresult
    exact error_of_mem_collect wellFormed settings reader mend hpath

/-- A directory of two files, spelled with a point and too many slashes, as the root: the files are shown by their names
only, and that is what an observer is shown. -/
theorem run_reports_each_file_once_nestedStore :
    let settings := Settings.ofRoot (.ofString "./src//")
    let results := (settings.run Syntax.grammarReader true Store.nestedStore []).1
    Store.nestedStore.root.WellFormed ∧
    Store.nestedStore.collect settings.walkOptions settings.root =
      [.ofString "./src//a.js", .ofString "./src//b.js"] ∧
    results.map FileResult.path = ["a.js", "b.js"] ∧
    (settings.runObserved Syntax.grammarReader true (fun seen result => seen ++ [result.path])
      Store.nestedStore [] []).2.2 = ["a.js", "b.js"] ∧
    ∀ result ∈ results, result.error ≠ some "no such file or directory" ∧
      result.error ≠ some "unsupported file extension" := by
  intro settings results
  have hsorted : [Path.ofString "./src//a.js", Path.ofString "./src//b.js"].Pairwise
      (fun a b => Path.le a b = true) := by decide
  have hcollect : Store.nestedStore.collect settings.walkOptions settings.root =
      [.ofString "./src//a.js", .ofString "./src//b.js"] := List.mergeSort_of_pairwise hsorted
  have hpaths : results.map FileResult.path = ["a.js", "b.js"] := by
    have hshown : results.map FileResult.path = _ :=
      settings.map_path_lintFiles Syntax.grammarReader true Store.nestedStore _
    rw [hshown, files, hcollect]
    decide
  obtain ⟨-, -, hseen, -, -, herrors⟩ :=
    run_reports_each_file_once settings Syntax.grammarReader true Store.nestedStore Store.wellFormed_nestedStore
  exact ⟨Store.wellFormed_nestedStore, hcollect, hpaths, hseen.trans hpaths, herrors⟩

end Settings

end FocusLint
