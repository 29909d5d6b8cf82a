import FocusLint.Proofs.RunEffects
import FocusLint.Proofs.Walks
import FocusLint.Syntax.Program

/-!
What the targets of a run are expanded to.

Main statement: `expand_repeats_iff`. The targets stand for paths, one target after the other, and of several
equal paths in a row the first one is kept. So nothing is lost and no two neighbours are equal, but that
is all: a path is in the list twice exactly if something else is mentioned between two of its mentions.
Targets that have no path in common never give one twice. A run lints all that is listed, a path that is
listed twice two times (`repeated_target_is_linted_twice`).

A walk mentions no path twice, so it always takes two targets. The exact condition is found along the
recursion that drops repeats, with the path that was kept last (`pairwise_dropRepeatsAfter_iff`).
-/

namespace FocusLint

namespace Path

variable {last : Path} {paths : List Path}

theorem same_iff {a b : Path} : a.same b = true ↔ a.components = b.components := by
  simp [same]

/-- No two paths of a list have the same components. -/
def Distinct (paths : List Path) : Prop := paths.Pairwise fun a b => a.components ≠ b.components

/-- Between two mentions of a path nothing else is mentioned. -/
def InOneRun (paths : List Path) : Prop :=
  ∀ first other second : Path, [first, other, second].Sublist paths →
    first.components = second.components → other.components = first.components

/-! ## Runs of equal paths -/

theorem dropRepeatsAfter_sublist (last : Path) (paths : List Path) :
    (dropRepeatsAfter same last paths).Sublist paths := by
  induction paths generalizing last with
  | nil => exact .slnil
  | cons path others ih =>
    rw [dropRepeatsAfter]
    split
    · exact (ih last).cons path
    · exact (ih path).cons_cons path

theorem dropRepeats_sublist (paths : List Path) : (dropRepeats same paths).Sublist paths := by
  cases paths with
  | nil => exact .slnil
  | cons path others => exact (dropRepeatsAfter_sublist path others).cons_cons path

theorem exists_mem_dropRepeatsAfter (last : Path) {path : Path} (h : path ∈ paths) :
    ∃ kept ∈ last :: dropRepeatsAfter same last paths, kept.components = path.components := by
  induction paths generalizing last with
  | nil => cases h
  | cons next others ih =>
    rw [dropRepeatsAfter]
    by_cases hsame : last.same next = true
    · rw [if_pos hsame]
      rcases List.mem_cons.mp h with rfl | h
      · exact ⟨last, List.mem_cons_self, same_iff.mp hsame⟩
      · exact ih last h
    · rw [if_neg hsame]
      rcases List.mem_cons.mp h with rfl | h
      · exact ⟨path, List.mem_cons_of_mem _ List.mem_cons_self, rfl⟩
      · obtain ⟨kept, hkept, heq⟩ := ih next h
        exact ⟨kept, List.mem_cons_of_mem _ hkept, heq⟩

theorem exists_mem_dropRepeats {path : Path} (h : path ∈ paths) :
    ∃ kept ∈ dropRepeats same paths, kept.components = path.components := by
  cases paths with
  | nil => cases h
  | cons first others =>
    rcases List.mem_cons.mp h with rfl | h
    · exact ⟨path, List.mem_cons_self, rfl⟩
    · exact exists_mem_dropRepeatsAfter first h

theorem isChain_dropRepeatsAfter (last : Path) (paths : List Path) :
    (last :: dropRepeatsAfter same last paths).IsChain fun a b => a.components ≠ b.components := by
  induction paths generalizing last with
  | nil => exact .singleton last
  | cons path others ih =>
    rw [dropRepeatsAfter]
    by_cases hsame : last.same path = true
    · rw [if_pos hsame]
      exact ih last
    · rw [if_neg hsame]
      exact .cons_cons (fun heq => hsame (same_iff.mpr heq)) (ih path)

theorem isChain_dropRepeats (paths : List Path) :
    (dropRepeats same paths).IsChain fun a b => a.components ≠ b.components := by
  cases paths with
  | nil => exact .nil
  | cons path others => exact isChain_dropRepeatsAfter path others

/-! ## Repeats that stay -/

theorem InOneRun.of_cons {path : Path} (h : InOneRun (path :: paths)) : InOneRun paths :=
  fun first other second hsublist => h first other second (hsublist.cons path)

/-- A path in front that is the same as the next one is part of its run. -/
theorem inOneRun_cons_of_same {path : Path} (hsame : last.components = path.components) :
    InOneRun (last :: path :: paths) ↔ InOneRun (last :: paths) := by
  constructor
  · intro h first other second hsublist
    exact h first other second (hsublist.trans ((List.sublist_cons_self path paths).cons_cons last))
  · intro h first other second hsublist heq
    -- What the mentions of `path` are part of, the mentions of `last` are.
    have hbehind : ∀ a b : Path, [a, b].Sublist paths → last.components = b.components →
        a.components = last.components :=
      fun a b hsublist heq => h last a b (hsublist.cons_cons last) heq
    rcases List.sublist_cons_iff.mp hsublist with hsublist | ⟨rest, hrest, hsublist⟩
    · rcases List.sublist_cons_iff.mp hsublist with hsublist | ⟨rest, hrest, hsublist⟩
      · exact h first other second (hsublist.cons last) heq
      · cases hrest
        rw [← hsame] at heq ⊢
        exact hbehind other second hsublist heq
    · cases hrest
      rcases List.sublist_cons_iff.mp hsublist with hsublist | ⟨rest, hrest, -⟩
      · exact hbehind other second hsublist heq
      · cases hrest
        exact hsame.symm

/-- A path in front that differs from the next one is not mentioned again. -/
theorem inOneRun_cons_of_ne {path : Path} (hne : last.components ≠ path.components) :
    InOneRun (last :: path :: paths) ↔
      (∀ later ∈ path :: paths, last.components ≠ later.components) ∧ InOneRun (path :: paths) := by
  constructor
  · refine fun h => ⟨fun later hlater heq => ?_, h.of_cons⟩
    rcases List.mem_cons.mp hlater with rfl | hlater
    · exact hne heq
    · have hsublist : [last, path, later].Sublist (last :: path :: paths) :=
        ((List.singleton_sublist.mpr hlater).cons_cons path).cons_cons last
      exact hne (h last path later hsublist heq).symm
  · rintro ⟨hlast, h⟩ first other second hsublist heq
    rcases List.sublist_cons_iff.mp hsublist with hsublist | ⟨rest, hrest, hsublist⟩
    · exact h first other second hsublist heq
    · cases hrest
      have hsecond := hsublist.subset (List.mem_cons_of_mem other (List.mem_singleton.mpr rfl))
      exact absurd heq (hlast second hsecond)

/-- With the path that was kept last in front: what is kept is distinct exactly if all mentions of a path are
in one run. -/
theorem pairwise_dropRepeatsAfter_iff :
    Distinct (last :: dropRepeatsAfter same last paths) ↔ InOneRun (last :: paths) := by
  induction paths generalizing last with
  | nil =>
    refine iff_of_true (List.pairwise_singleton _ _) fun first other second hsublist => ?_
    exact absurd hsublist.length_le (by simp)
  | cons path others ih =>
    rw [dropRepeatsAfter]
    by_cases hsame : last.same path = true
    · rw [if_pos hsame, ih, inOneRun_cons_of_same (same_iff.mp hsame)]
    · have hne : last.components ≠ path.components := fun heq => hsame (same_iff.mpr heq)
      rw [if_neg hsame, inOneRun_cons_of_ne hne, ← ih, Distinct, List.pairwise_cons, ← Distinct]
      refine and_congr_left fun _ => ?_
      -- What is mentioned later and what is kept of it have the same components.
      constructor
      · intro hkept later hlater
        rcases List.mem_cons.mp hlater with rfl | hlater
        · exact hne
        · obtain ⟨kept, hmem, heq⟩ := exists_mem_dropRepeatsAfter path hlater
          exact heq ▸ hkept kept hmem
      · intro hlater kept hkept
        exact hlater kept (((dropRepeatsAfter_sublist path others).cons_cons path).subset hkept)

theorem distinct_dropRepeats_iff : Distinct (dropRepeats same paths) ↔ InOneRun paths := by
  cases paths with
  | nil =>
    refine iff_of_true List.Pairwise.nil fun first other second hsublist => ?_
    exact absurd hsublist.length_le (by simp)
  | cons path others => exact pairwise_dropRepeatsAfter_iff

end Path

/-! ## Targets -/

namespace Store

variable {store : Store} {options : WalkOptions} {targets : List Path}

/-- The paths that a target stands for. -/
def listedBy (store : Store) (options : WalkOptions) (target : Path) : List Path :=
  if store.isDirectory target then store.collect options target else [target]

theorem expand_eq (store : Store) (options : WalkOptions) (targets : List Path) :
    store.expand options targets = dropRepeats Path.same (targets.flatMap (store.listedBy options)) := rfl

theorem distinct_listedBy (wellFormed : store.root.WellFormed) (options : WalkOptions) (target : Path) :
    Path.Distinct (store.listedBy options target) := by
  unfold listedBy
  split
  · refine (pairwise_collect wellFormed options target).imp ?_
    intro a b hbefore heq
    rw [Path.Before, heq] at hbefore
    exact Path.Before.asymm hbefore hbefore
  · exact List.pairwise_singleton _ _

/-- Targets without common paths stand for no path twice. -/
theorem distinct_listed (wellFormed : store.root.WellFormed)
    (apart : targets.Pairwise fun a b => ∀ path ∈ store.listedBy options a,
      ∀ other ∈ store.listedBy options b, path.components ≠ other.components) :
    Path.Distinct (targets.flatMap (store.listedBy options)) :=
  List.pairwise_flatMap.mpr ⟨fun target _ => distinct_listedBy wellFormed options target, apart⟩

/-- For any store of well-formed entries, what a walk skips or wants, and any targets:

The list that the targets are expanded to is part of the paths that they stand for, in the same order, and
has each of these at least once. Neighbours in it are different. It has no path twice if and only if
between two mentions of a path, by whatever targets, nothing else is mentioned, so never if no two targets
have a path in common. A run with these targets, for any settings, has one result for every path of its list,
repeated ones included. -/
theorem expand_repeats_iff (store : Store) (options : WalkOptions) (targets : List Path)
    (wellFormed : store.root.WellFormed) :
    let mentioned := targets.flatMap (store.listedBy options)
    let paths := store.expand options targets
    paths.Sublist mentioned ∧
    (∀ path ∈ mentioned, ∃ kept ∈ paths, kept.components = path.components) ∧
    (paths.IsChain fun a b => a.components ≠ b.components) ∧
    (Path.Distinct paths ↔ Path.InOneRun mentioned) ∧
    ((targets.Pairwise fun a b => ∀ path ∈ store.listedBy options a,
        ∀ other ∈ store.listedBy options b, path.components ≠ other.components) → Path.Distinct paths) ∧
    ∀ (settings : Settings) (reader : Syntax.Reader) (mend : Bool), targets ≠ [] → settings.walkOptions = options →
      (settings.run reader mend store targets).1.map FileResult.path = paths.map settings.displayed := by
  intro mentioned paths
  have hpaths : paths = dropRepeats Path.same mentioned := store.expand_eq options targets
  refine ⟨?_, ?_, ?_, ?_, ?_, ?_⟩
  · exact hpaths ▸ Path.dropRepeats_sublist mentioned
  · exact fun path hpath => hpaths ▸ Path.exists_mem_dropRepeats hpath
  · exact hpaths ▸ Path.isChain_dropRepeats mentioned
  · exact hpaths ▸ Path.distinct_dropRepeats_iff
  · intro apart
    exact (distinct_listed wellFormed apart).sublist (hpaths ▸ Path.dropRepeats_sublist mentioned)
  · rintro settings reader mend hne rfl
    obtain ⟨target, others, rfl⟩ := List.exists_cons_of_ne_nil hne
    exact settings.map_path_lintFiles reader mend store _

/-- A store of a directory with two files and a third file beside it. -/
def nestedStore : Store where
  root := .directory
    [("src", .directory [("a.js", .file .empty), ("b.js", .file .empty)]), ("c.js", .file .empty)]
  cwd := []

theorem wellFormed_nestedStore : nestedStore.root.WellFormed := by
  refine .directory (by decide) (by decide) ?_
  intro entry hentry
  simp only [List.mem_cons, List.not_mem_nil, or_false] at hentry
  rcases hentry with rfl | rfl
  · refine .directory (by decide) (by decide) ?_
    intro entry hentry
    simp only [List.mem_cons, List.not_mem_nil, or_false] at hentry
    rcases hentry with rfl | rfl
    · exact .file _
    · exact .file _
  · exact .file _

theorem listedBy_nestedStore : nestedStore.listedBy ⟨[], false⟩ (.ofString "src") =
    [.ofString "src/a.js", .ofString "src/b.js"] := by
  have hsorted : [Path.ofString "src/a.js", Path.ofString "src/b.js"].Pairwise
      (fun a b => Path.le a b = true) := by decide
  exact List.mergeSort_of_pairwise hsorted

/-- In that store a file and the directory that contains it give the file twice, and the directory and a file
outside it give nothing twice. -/
theorem expand_repeats_iff_nestedStore : nestedStore.root.WellFormed ∧
    ¬ Path.Distinct (nestedStore.expand ⟨[], false⟩ [.ofString "src/b.js", .ofString "src"]) ∧
    Path.Distinct (nestedStore.expand ⟨[], false⟩ [.ofString "src", .ofString "c.js"]) := by
  have hfile : ∀ name ∈ ["src/b.js", "c.js"],
      nestedStore.listedBy ⟨[], false⟩ (.ofString name) = [.ofString name] := by decide
  obtain ⟨-, -, -, hdistinct, -⟩ := expand_repeats_iff nestedStore ⟨[], false⟩
    [.ofString "src/b.js", .ofString "src"] wellFormed_nestedStore
  obtain ⟨-, -, -, -, hapart, -⟩ := expand_repeats_iff nestedStore ⟨[], false⟩
    [.ofString "src", .ofString "c.js"] wellFormed_nestedStore
  refine ⟨wellFormed_nestedStore, ?_, hapart ?_⟩
  · have hmentioned : [Path.ofString "src/b.js", .ofString "src"].flatMap
        (nestedStore.listedBy ⟨[], false⟩) =
          [.ofString "src/b.js", .ofString "src/a.js", .ofString "src/b.js"] := by
      rw [List.flatMap_cons, List.flatMap_cons, listedBy_nestedStore, hfile _ (by decide)]
      rfl
    rw [hdistinct, hmentioned]
    intro hrun
    have hbetween := hrun _ _ _ (List.Sublist.refl _) rfl
    exact absurd hbetween (by decide)
  · rw [List.pairwise_pair, listedBy_nestedStore, hfile _ (by decide)]
    decide

/-- A target that is mentioned a second time behind another one is listed and linted a second time. -/
theorem repeated_target_is_linted_twice :
    let targets := [Path.ofString "src/a.js", .ofString "c.js", .ofString "src/a.js"]
    nestedStore.expand ⟨[], false⟩ targets = targets ∧ ¬ targets.Nodup ∧
    ((Settings.ofRoot (.ofString ".")).run Syntax.grammarReader false nestedStore targets).1.map FileResult.path =
      ["src/a.js", "c.js", "src/a.js"] := by
  refine ⟨by decide, by decide, ?_⟩
  rw [Settings.run, Settings.map_path_lintFiles]
  decide

end Store

end FocusLint
