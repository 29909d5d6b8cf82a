import FocusLint.Proofs.Targets

/-!
Targets that have been expanded are expanded to themselves.

Main statement: `expanded_stays`. What targets are expanded to holds no directory, so that to expand it again, with
whatever options, is to look for repeats in it once more, and there are none left. A target that is no directory is
never left out, whatever a walk would do with it.
-/

namespace FocusLint

namespace Path

theorem dropRepeats_eq_self {paths : List Path} (h : paths.IsChain fun a b => a.components ≠ b.components) :
    dropRepeats same paths = paths := by
  cases paths with
  | nil => rfl
  | cons first others =>
    rw [dropRepeats]
    congr 1
    induction others generalizing first with
    | nil => rfl
    | cons path others ih =>
      obtain ⟨hne, hothers⟩ := List.isChain_cons_cons.mp h
      rw [dropRepeatsAfter, if_neg fun hsame => hne (same_iff.mp hsame), ih path hothers]

end Path

namespace Store

variable {store : Store} {options : WalkOptions} {targets : List Path} {path target : Path}

theorem isDirectory_of_mem_collect (wellFormed : store.root.WellFormed) (h : path ∈ store.collect options target) :
    store.isDirectory path = false := by
  obtain ⟨content, hfile⟩ := exists_file_of_mem_collect wellFormed h
  simp only [isDirectory, hfile]

/-- A target stands for itself, or it is a directory and stands for the files that a walk lists below it. -/
theorem mem_listedBy : path ∈ store.listedBy options target ↔
    store.isDirectory target = false ∧ path = target ∨
      store.isDirectory target = true ∧ path ∈ store.collect options target := by
  unfold listedBy
  cases store.isDirectory target <;> simp

theorem isDirectory_of_mem_listedBy (wellFormed : store.root.WellFormed)
    (h : path ∈ store.listedBy options target) : store.isDirectory path = false := by
  rcases mem_listedBy.mp h with ⟨hfile, rfl⟩ | ⟨-, hlisted⟩
  · exact hfile
  · exact isDirectory_of_mem_collect wellFormed hlisted

theorem exists_listedBy_of_mem_expand (h : path ∈ store.expand options targets) :
    ∃ target ∈ targets, path ∈ store.listedBy options target := by
  rw [expand_eq] at h
  exact List.mem_flatMap.mp ((Path.dropRepeats_sublist _).subset h)

theorem expand_of_files (h : ∀ target ∈ targets, store.isDirectory target = false) (options : WalkOptions) :
    store.expand options targets = dropRepeats Path.same targets := by
  have hlisted : targets.flatMap (store.listedBy options) = targets := by
    have hself : ∀ target ∈ targets, store.listedBy options target = [target] := by
      intro target htarget
      rw [listedBy, h target htarget, if_neg Bool.false_ne_true]
    rw [List.flatMap_def, List.map_congr_left hself, ← List.flatMap_def, List.flatMap_singleton']
  rw [expand_eq, hlisted]

theorem expand_singleton (wellFormed : store.root.WellFormed) (h : store.isDirectory target = true)
    (options : WalkOptions) : store.expand options [target] = store.collect options target := by
  have hlisted : store.listedBy options target = store.collect options target := if_pos h
  have hdistinct := distinct_listedBy wellFormed options target
  rw [expand_eq, List.flatMap_singleton, Path.dropRepeats_eq_self (List.Pairwise.isChain hdistinct), hlisted]

/-- For any store of well-formed entries, what a walk skips or wants, and any targets:

What the targets are expanded to holds no directory and is expanded to itself, whether a walk then skips and wants the
same or anything else. A target that is no directory, be it a file of any kind or nothing at all, is in it, as a path of
the same components. Whatever is in it is such a target, or a walk lists it below a target that is a directory. For any
settings whose root is a directory, the files of a run with the root as its only target are those of a run without
targets. -/
theorem expanded_stays (store : Store) (options : WalkOptions) (targets : List Path)
    (wellFormed : store.root.WellFormed) :
    let paths := store.expand options targets
    (∀ path ∈ paths, store.isDirectory path = false) ∧
    (∀ other : WalkOptions, store.expand other paths = paths) ∧
    (∀ target ∈ targets, store.isDirectory target = false → ∃ path ∈ paths, path.same target = true) ∧
    (∀ path ∈ paths, (path ∈ targets ∧ store.isDirectory path = false) ∨
      ∃ target ∈ targets, store.isDirectory target = true ∧ path ∈ store.collect options target) ∧
    ∀ settings : Settings, store.isDirectory settings.root = true →
      settings.files store [settings.root] = settings.files store [] := by
  intro paths
  have hfiles : ∀ path ∈ paths, store.isDirectory path = false := by
    intro path hpath
    obtain ⟨target, -, hlisted⟩ := exists_listedBy_of_mem_expand hpath
    exact isDirectory_of_mem_listedBy wellFormed hlisted
  have hchain : paths.IsChain fun a b => a.components ≠ b.components := by
    rw [show paths = _ from store.expand_eq options targets]
    exact Path.isChain_dropRepeats _
  have hagain : ∀ other : WalkOptions, store.expand other paths = paths := by
    intro other
    rw [expand_of_files hfiles other, Path.dropRepeats_eq_self hchain]
  refine ⟨hfiles, hagain, ?_, ?_, fun settings hroot => expand_singleton wellFormed hroot _⟩
  · intro target htarget hfile
    have hmentioned : target ∈ targets.flatMap (store.listedBy options) :=
      List.mem_flatMap.mpr ⟨target, htarget, mem_listedBy.mpr (.inl ⟨hfile, rfl⟩)⟩
    obtain ⟨kept, hkept, hsame⟩ := Path.exists_mem_dropRepeats hmentioned
    exact ⟨kept, hkept, Path.same_iff.mpr hsame⟩
  · intro path hpath
    obtain ⟨target, htarget, hlisted⟩ := exists_listedBy_of_mem_expand hpath
    rcases mem_listedBy.mp hlisted with ⟨hfile, rfl⟩ | hlisted
    · exact .inl ⟨htarget, hfile⟩
    · exact .inr ⟨target, htarget, hlisted⟩

/-- In the store of a directory with two files and a third file, a target that is missing stays, and so do all files
when walks would skip the directory and want test files only. -/
theorem expanded_stays_nestedStore :
    let files := [Path.ofString "src/a.js", .ofString "src/b.js", .ofString "missing.md", .ofString "c.js"]
    nestedStore.root.WellFormed ∧
    nestedStore.expand ⟨[], false⟩ [.ofString "src", .ofString "missing.md", .ofString "c.js"] = files ∧
    nestedStore.expand ⟨["src"], true⟩ files = files ∧
    (∃ path ∈ files, path.same (.ofString "missing.md") = true) ∧
    nestedStore.isDirectory (.ofString ".") = true ∧
    (Settings.ofRoot (.ofString ".")).files nestedStore [.ofString "."] =
      (Settings.ofRoot (.ofString ".")).files nestedStore [] := by
  intro files
  have hself : ∀ name ∈ ["missing.md", "c.js"],
      nestedStore.listedBy ⟨[], false⟩ (.ofString name) = [.ofString name] := by decide
  have hexpand : nestedStore.expand ⟨[], false⟩ [.ofString "src", .ofString "missing.md", .ofString "c.js"] =
      files := by
    rw [expand_eq, List.flatMap_cons, List.flatMap_cons, List.flatMap_singleton, listedBy_nestedStore,
      hself _ (by decide), hself _ (by decide)]
    decide
  obtain ⟨-, hagain, hkept, -, hroot⟩ := expanded_stays nestedStore ⟨[], false⟩
    [.ofString "src", .ofString "missing.md", .ofString "c.js"] wellFormed_nestedStore
  rw [hexpand] at hagain hkept
  exact ⟨wellFormed_nestedStore, hexpand, hagain _, hkept (.ofString "missing.md") (by decide) (by decide), by decide,
    hroot (.ofRoot (.ofString ".")) (by decide)⟩

end Store

end FocusLint
