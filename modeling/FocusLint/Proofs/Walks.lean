import Mathlib.Data.List.Sort
import FocusLint.Files.Walk
import FocusLint.Proofs.Stores

/-!
What a walk lists.

Main statement: `collect_lists_sources`. A walk from a directory lists the path of every file below it that
has the extension of a source file and that no skipped directory hides, each of them once and in the order
of components. What is listed is told by the files below the directory alone, so the order in which a
directory holds its entries does not show. Listing test files only is to leave out the others, and skipping
more directories leaves out more files.

`Reaches` tells by which names a walk gets from an entry to a file, along the recursion of the walk. Among
well-formed entries that is a matter of what the names lead to and of the names on the way (`reaches_iff`).
-/

namespace FocusLint

namespace Entry

/-- A walk that skips some directories gets from an entry to a file by some names. -/
inductive Reaches (skip : List String) : Entry → List String → Prop
  | file (content : ByteArray) : Reaches skip (.file content) []
  | directory {entries : List (String × Entry)} {name : String} {entry : Entry} {names : List String}
      (listed : (name, entry) ∈ entries) (entered : entry.isDirectory = true → name ∉ skip)
      (reaches : Reaches skip entry names) : Reaches skip (.directory entries) (name :: names)

variable {skip : List String} {options : WalkOptions} {entry : Entry} {names : List String}

/-! ## The names of a walk -/

theorem Reaches.not_mem_skip (h : Reaches skip entry names) : ∀ name ∈ names.dropLast, name ∉ skip := by
  induction h with
  | file _ => simp
  | @directory entries name next names listed entered reaches ih =>
    cases reaches with
    | file _ => simp
    | directory _ _ _ =>
      rw [List.dropLast_cons_cons]
      exact List.forall_mem_cons.mpr ⟨entered rfl, ih⟩

theorem Reaches.fileAt (h : Reaches skip entry names) (wellFormed : entry.WellFormed) :
    ∃ content, entry.fileAt names = some content := by
  induction h with
  | file content => exact ⟨content, rfl⟩
  | directory listed _ _ ih =>
    cases wellFormed with
    | directory distinct _ below =>
      obtain ⟨content, hcontent⟩ := ih (below _ listed)
      rw [fileAt_directory, (mem_iff_lookup distinct).mp listed]
      exact ⟨content, hcontent⟩

/-- A walk gets to the files below an entry by the names that lead to them, unless one of the directories on
the way is skipped. -/
theorem reaches_iff (wellFormed : entry.WellFormed) : Reaches skip entry names ↔
    (∃ content, entry.fileAt names = some content) ∧ ∀ name ∈ names.dropLast, name ∉ skip := by
  refine ⟨fun h => ⟨h.fileAt wellFormed, h.not_mem_skip⟩, ?_⟩
  rintro ⟨⟨content, hcontent⟩, hskip⟩
  rw [fileAt_eq_some] at hcontent
  clear wellFormed
  induction names generalizing entry with
  | nil =>
    cases hcontent
    exact .file content
  | cons name names ih =>
    obtain ⟨entries, next, rfl, hlookup, hnext⟩ := entryAt_cons_eq_some.mp hcontent
    cases names with
    | nil =>
      cases hnext
      exact .directory (mem_of_lookup hlookup) (fun h => absurd h (by simp [isDirectory])) (.file content)
    | cons second names =>
      rw [List.dropLast_cons_cons, List.forall_mem_cons] at hskip
      exact .directory (mem_of_lookup hlookup) (fun _ => hskip.1) (ih hskip.2 hnext)

theorem Reaches.isName (h : Reaches skip entry names) (wellFormed : entry.WellFormed) :
    ∀ name ∈ names, Path.IsName name := by
  obtain ⟨content, hcontent⟩ := h.fileAt wellFormed
  exact (wellFormed.entryAt (fileAt_eq_some.mp hcontent)).2

/-! ## The paths of a walk -/

mutual

/-- A walk lists the paths of the files that it gets to, if they are wanted. -/
theorem mem_walk {path base : Path} : ∀ entry : Entry, path ∈ entry.walk options base ↔
    ∃ names, Reaches options.skip entry names ∧ path = base.below names ∧ options.lists path = true
  | .file content => by
    rw [walk]
    constructor
    · intro hmem
      split at hmem
      · next hlists =>
        rw [List.mem_singleton] at hmem
        subst hmem
        exact ⟨[], .file content, rfl, hlists⟩
      · cases hmem
    · rintro ⟨names, hreaches, rfl, hlists⟩
      cases hreaches
      have hlists : options.lists base = true := hlists
      rw [if_pos hlists]
      exact List.mem_singleton.mpr rfl
  | .directory entries => by
    rw [walk, mem_walkEntries entries]
    constructor
    · rintro ⟨name, entry, names, listed, entered, reaches, hpath⟩
      exact ⟨name :: names, .directory listed entered reaches, hpath⟩
    · rintro ⟨_, hreaches, hpath⟩
      obtain _ | ⟨listed, entered, reaches⟩ := hreaches
      exact ⟨_, _, _, listed, entered, reaches, hpath⟩

theorem mem_walkEntries {path base : Path} : ∀ entries : List (String × Entry),
    path ∈ walkEntries options base entries ↔ ∃ name entry names, (name, entry) ∈ entries ∧
      (entry.isDirectory = true → name ∉ options.skip) ∧ Reaches options.skip entry names ∧
      path = base.below (name :: names) ∧ options.lists path = true
  | [] => by simp [walkEntries]
  | (name, entry) :: others => by
    have hbelow : ∀ names, (base.join name).below names = base.below (name :: names) := fun _ => rfl
    rw [walkEntries, List.mem_append, mem_walkEntries others]
    constructor
    · rintro (hmem | ⟨name', entry', names, listed, hrest⟩)
      · split at hmem
        · cases hmem
        · next hentered =>
          obtain ⟨names, hreaches, hpath, hlists⟩ := (mem_walk entry).mp hmem
          refine ⟨name, entry, names, List.mem_cons_self, ?_, hreaches, hpath, hlists⟩
          simpa using hentered
      · exact ⟨name', entry', names, List.mem_cons_of_mem _ listed, hrest⟩
    · rintro ⟨name', entry', names, listed, entered, hreaches, hpath, hlists⟩
      rcases List.mem_cons.mp listed with heq | listed
      · cases heq
        left
        rw [if_neg (by simpa using entered)]
        exact (mem_walk entry).mpr ⟨names, hreaches, hpath, hlists⟩
      · exact .inr ⟨name', entry', names, listed, entered, hreaches, hpath, hlists⟩

end

mutual

/-- Below a well-formed entry no two listed paths have the same components. -/
theorem pairwise_walk (options : WalkOptions) (base : Path) : ∀ entry : Entry, entry.WellFormed →
    (entry.walk options base).Pairwise fun a b => a.components ≠ b.components
  | .file content, _ => by
    rw [walk]
    split
    · exact List.pairwise_singleton _ _
    · exact List.Pairwise.nil
  | .directory entries, wellFormed => by
    rw [walk]
    cases wellFormed with
    | directory distinct named below => exact pairwise_walkEntries options base entries distinct named below

theorem pairwise_walkEntries (options : WalkOptions) (base : Path) : ∀ entries : List (String × Entry),
    (entries.map Prod.fst).Nodup → (∀ entry ∈ entries, Path.IsName entry.1) →
    (∀ entry ∈ entries, entry.2.WellFormed) →
    (walkEntries options base entries).Pairwise fun a b => a.components ≠ b.components
  | [], _, _, _ => List.Pairwise.nil
  | (name, entry) :: others, distinct, named, below => by
    rw [List.map_cons, List.nodup_cons] at distinct
    rw [List.forall_mem_cons] at named below
    rw [walkEntries, List.pairwise_append]
    refine ⟨?_, pairwise_walkEntries options base others distinct.2 named.2 below.2, ?_⟩
    · split
      · exact List.Pairwise.nil
      · exact pairwise_walk options _ entry below.1
    · -- Paths from different entries part at the names of these.
      intro path hpath other hother heq
      split at hpath
      · cases hpath
      · obtain ⟨names, hreaches, rfl, -⟩ := (mem_walk entry).mp hpath
        obtain ⟨name', entry', names', listed, -, hreaches', rfl, -⟩ := (mem_walkEntries others).mp hother
        have hnames := List.forall_mem_cons.mpr ⟨named.1, hreaches.isName below.1⟩
        have hnames' := List.forall_mem_cons.mpr
          ⟨named.2 _ listed, hreaches'.isName (below.2 _ listed)⟩
        have hsame : name :: names = name' :: names' := Path.below_injective hnames hnames' heq
        exact distinct.1 (List.mem_map.mpr ⟨_, listed, (List.cons.inj hsame).1.symm⟩)

end

/-! ## Walks and outlines -/

theorem isDirectory_outline (entry : Entry) : entry.outline.isDirectory = entry.isDirectory := by
  cases entry <;> rfl

mutual

/-- A walk does not look into files. -/
theorem walk_outline (options : WalkOptions) (base : Path) :
    ∀ entry : Entry, entry.outline.walk options base = entry.walk options base
  | .file _ => rfl
  | .directory entries => by
    rw [outline, walk, walk, walkEntries_outlineAll options base entries]

theorem walkEntries_outlineAll (options : WalkOptions) (base : Path) : ∀ entries : List (String × Entry),
    walkEntries options base (outlineAll entries) = walkEntries options base entries
  | [] => rfl
  | (name, entry) :: others => by
    rw [outlineAll, walkEntries, walkEntries, isDirectory_outline,
      walk_outline options (base.join name) entry, walkEntries_outlineAll options base others]

end

end Entry

/-! ## The files below a directory -/

namespace Store

variable {store : Store} {options : WalkOptions} {dir path : Path} {names : List String}

/-- Some names lead from a directory to a file below it. -/
def HasFile (store : Store) (dir : Path) (names : List String) : Prop :=
  names ≠ [] ∧ ∃ entry content, store.entry? dir = some entry ∧
    entry.entryAt names = some (.file content)

theorem exists_locate_of_entry? {entry : Entry} (h : store.entry? dir = some entry) :
    ∃ here, store.locate dir = .ok here ∧ store.root.entryAt here = some entry := by
  unfold Store.entry? at h
  split at h
  · next here hlocate => exact ⟨here, hlocate, h⟩
  · cases h

/-- The path of a file below a directory leads to that file, by the names of the directory and its own. -/
theorem HasFile.locate (h : store.HasFile dir names) (wellFormed : store.root.WellFormed) :
    ∃ here, store.locate dir = .ok here ∧ store.locate (dir.below names) = .ok (here ++ names) ∧
      ∃ content, store.fileAt (here ++ names) = some content := by
  obtain ⟨-, entry, content, hentry, hcontent⟩ := h
  obtain ⟨here, hlocate, hhere⟩ := exists_locate_of_entry? hentry
  have hnames := ((wellFormed.entryAt hhere).1.entryAt hcontent).2
  refine ⟨here, hlocate, locate_below hlocate hhere hnames hcontent, content, ?_⟩
  rw [fileAt_eq_some, Entry.entryAt_append, hhere]
  exact hcontent

theorem HasFile.isName (h : store.HasFile dir names) (wellFormed : store.root.WellFormed) :
    ∀ name ∈ names, Path.IsName name := by
  obtain ⟨-, entry, content, hentry, hcontent⟩ := h
  obtain ⟨here, -, hhere⟩ := exists_locate_of_entry? hentry
  exact ((wellFormed.entryAt hhere).1.entryAt hcontent).2

/-- A walk lists the files below the directory that are wanted and not hidden. -/
theorem mem_collect (wellFormed : store.root.WellFormed) : path ∈ store.collect options dir ↔
    ∃ names, store.HasFile dir names ∧ path = dir.below names ∧ options.lists path = true ∧
      ∀ name ∈ names.dropLast, name ∉ options.skip := by
  unfold collect
  split
  · next entries hentry =>
    obtain ⟨here, -, hhere⟩ := exists_locate_of_entry? hentry
    have hbelow := (wellFormed.entryAt hhere).1
    have hwalk : Entry.walkEntries options dir entries = (Entry.directory entries).walk options dir := by
      rw [Entry.walk]
    rw [List.mem_mergeSort, hwalk, Entry.mem_walk]
    constructor
    · rintro ⟨names, hreaches, hpath, hlists⟩
      obtain ⟨⟨content, hcontent⟩, hskip⟩ := (Entry.reaches_iff hbelow).mp hreaches
      rw [Entry.fileAt_eq_some] at hcontent
      refine ⟨names, ⟨?_, _, content, hentry, hcontent⟩, hpath, hlists, hskip⟩
      rintro rfl
      cases hcontent
    · rintro ⟨names, ⟨-, entry, content, hfound, hcontent⟩, hpath, hlists, hskip⟩
      rw [hentry, Option.some.injEq] at hfound
      subst hfound
      have hreaches := (Entry.reaches_iff hbelow).mpr ⟨⟨content, Entry.fileAt_eq_some.mpr hcontent⟩, hskip⟩
      exact ⟨names, hreaches, hpath, hlists⟩
  · next hnone =>
    constructor
    · intro hmem
      cases hmem
    · rintro ⟨names, ⟨hne, entry, content, hfound, hcontent⟩, -⟩
      -- Nothing is below what is no directory.
      obtain ⟨name, names, rfl⟩ := List.exists_cons_of_ne_nil hne
      obtain ⟨entries, -, rfl, -⟩ := Entry.entryAt_cons_eq_some.mp hcontent
      exact absurd hfound (hnone entries)

theorem exists_file_of_mem_collect (wellFormed : store.root.WellFormed) (h : path ∈ store.collect options dir) :
    ∃ content, store.entry? path = some (.file content) := by
  obtain ⟨names, hfile, rfl, -⟩ := (mem_collect wellFormed).mp h
  obtain ⟨here, -, hlocate, content, hcontent⟩ := hfile.locate wellFormed
  refine ⟨content, ?_⟩
  rw [Store.entry?, hlocate]
  exact fileAt_eq_some.mp hcontent

theorem pairwise_collect (wellFormed : store.root.WellFormed) (options : WalkOptions) (dir : Path) :
    (store.collect options dir).Pairwise Path.Before := by
  unfold collect
  split
  · next entries hentry =>
    obtain ⟨here, -, hhere⟩ := exists_locate_of_entry? hentry
    have hdistinct := Entry.pairwise_walk options dir _ (wellFormed.entryAt hhere).1
    rw [Entry.walk] at hdistinct
    have hsorted := List.pairwise_mergeSort Path.le_trans Path.le_total
      (Entry.walkEntries options dir entries)
    have hne := ((List.mergeSort_perm (Entry.walkEntries options dir entries) Path.le).pairwise_iff
      fun h => Ne.symm h).mpr hdistinct
    refine (hsorted.and hne).imp ?_
    rintro a b ⟨hle, hne⟩
    exact (Path.le_iff.mp hle).resolve_left hne
  · exact List.Pairwise.nil

theorem nodup_of_pairwise_before {paths : List Path} (h : paths.Pairwise Path.Before) : paths.Nodup := by
  refine h.imp ?_
  rintro a b hbefore rfl
  exact hbefore.asymm hbefore

instance : Std.Antisymm Path.Before := ⟨fun _ _ hab hba => absurd hba hab.asymm⟩

/-- Two lists in strict order are the same if they have the same paths. -/
theorem eq_of_pairwise_before {a b : List Path} (ha : a.Pairwise Path.Before) (hb : b.Pairwise Path.Before)
    (h : ∀ path, path ∈ a ↔ path ∈ b) : a = b := by
  have hperm := (List.perm_ext_iff_of_nodup (nodup_of_pairwise_before ha)
    (nodup_of_pairwise_before hb)).mpr h
  exact hperm.eq_of_pairwise (fun _ _ _ _ hab hba => absurd hba hab.asymm) ha hb

theorem pairwise_locate_collect (wellFormed : store.root.WellFormed) (options : WalkOptions) (dir : Path) :
    (store.collect options dir).Pairwise fun a b => store.locate a ≠ store.locate b := by
  refine (nodup_of_pairwise_before (pairwise_collect wellFormed options dir)).imp_of_mem ?_
  intro a b ha hb hne hsame
  obtain ⟨names, hfile, rfl, -⟩ := (mem_collect wellFormed).mp ha
  obtain ⟨names', hfile', rfl, -⟩ := (mem_collect wellFormed).mp hb
  obtain ⟨here, hdir, hlocate, -⟩ := hfile.locate wellFormed
  obtain ⟨here', hdir', hlocate', -⟩ := hfile'.locate wellFormed
  rw [hdir, Except.ok.injEq] at hdir'
  rw [hlocate, hlocate', Except.ok.injEq, ← hdir', List.append_cancel_left_eq] at hsame
  exact hne (by rw [hsame])

theorem collect_outline (store : Store) (options : WalkOptions) (dir : Path) :
    store.outline.collect options dir = store.collect options dir := by
  unfold collect
  rw [entry?_outline]
  cases store.entry? dir with
  | none => rfl
  | some entry =>
    cases entry with
    | file _ => rfl
    | directory entries => simp only [Option.map_some, Entry.outline, Entry.walkEntries_outlineAll]

theorem lists_iff : options.lists path = true ↔
    (∃ extension ∈ sourceExtensions, path.extension? = some extension) ∧
      (options.testsOnly = true → path.isTestFile = true) := by
  rw [WalkOptions.lists, Bool.and_eq_true, Path.isSourceFile]
  refine and_congr ?_ ?_
  · cases path.extension? <;> simp
  · cases options.testsOnly <;> simp

/-- For any store of well-formed entries, what a walk skips or wants, and the path where it starts:

A path is listed if and only if it is the directory followed by the names of a file below it, it has the
extension of a source file, no directory on the way below the start is skipped, and it is that of a test file
if only these are wanted. Such a path leads to that file, and its components are those of the directory and
the names. The paths are in strict order, each of them once. A store that has the same files below the
directory gives the same list. Wanting test files only filters the list, and to skip more is to list less. -/
theorem collect_lists_sources (store : Store) (options : WalkOptions) (dir : Path)
    (wellFormed : store.root.WellFormed) :
    (∀ path, path ∈ store.collect options dir ↔ ∃ names, store.HasFile dir names ∧
      path = dir.below names ∧
      (∃ extension ∈ sourceExtensions, path.extension? = some extension) ∧
      (∀ name ∈ names.dropLast, name ∉ options.skip) ∧
      (options.testsOnly = true → path.isTestFile = true)) ∧
    (∀ names, store.HasFile dir names →
      (dir.below names).components = dir.components ++ names.map .normal ∧
      ∃ content, store.entry? (dir.below names) = some (.file content)) ∧
    (store.collect options dir).Pairwise Path.Before ∧ (store.collect options dir).Nodup ∧
    (∀ other : Store, other.root.WellFormed →
      (∀ names, other.HasFile dir names ↔ store.HasFile dir names) →
      other.collect options dir = store.collect options dir) ∧
    store.collect ⟨options.skip, true⟩ dir =
      (store.collect ⟨options.skip, false⟩ dir).filter Path.isTestFile ∧
    ∀ more, options.skip ⊆ more →
      (store.collect ⟨more, options.testsOnly⟩ dir).Sublist (store.collect options dir) := by
  have hordered := pairwise_collect wellFormed options dir
  refine ⟨fun path => ?_, fun names hfile => ⟨?_, ?_⟩, hordered, nodup_of_pairwise_before hordered, ?_, ?_, ?_⟩
  · simp only [mem_collect wellFormed, lists_iff]
    constructor
    · rintro ⟨names, hfile, hpath, ⟨hextension, htest⟩, hskip⟩
      exact ⟨names, hfile, hpath, hextension, hskip, htest⟩
    · rintro ⟨names, hfile, hpath, hextension, hskip, htest⟩
      exact ⟨names, hfile, hpath, ⟨hextension, htest⟩, hskip⟩
  · exact Path.components_below (hfile.isName wellFormed)
  · obtain ⟨here, -, hlocate, content, hcontent⟩ := hfile.locate wellFormed
    refine ⟨content, ?_⟩
    unfold Store.entry?
    rw [hlocate]
    exact fileAt_eq_some.mp hcontent
  · intro other hother hsame
    apply eq_of_pairwise_before (pairwise_collect hother options dir) hordered
    intro path
    simp only [mem_collect hother, mem_collect wellFormed, hsame]
  · apply eq_of_pairwise_before (pairwise_collect wellFormed _ dir)
    · exact (pairwise_collect wellFormed _ dir).filter _
    · intro path
      simp only [List.mem_filter, mem_collect wellFormed, lists_iff]
      constructor
      · rintro ⟨names, hfile, hpath, ⟨hextension, htest⟩, hskip⟩
        exact ⟨⟨names, hfile, hpath, ⟨hextension, by simp⟩, hskip⟩, htest trivial⟩
      · rintro ⟨⟨names, hfile, hpath, ⟨hextension, -⟩, hskip⟩, htest⟩
        exact ⟨names, hfile, hpath, ⟨hextension, fun _ => htest⟩, hskip⟩
  · intro more hmore
    have hfewer := pairwise_collect wellFormed ⟨more, options.testsOnly⟩ dir
    apply List.sublist_of_subperm_of_pairwise _ hfewer hordered
    apply List.subperm_of_subset (nodup_of_pairwise_before hfewer)
    intro path
    simp only [mem_collect wellFormed, lists_iff]
    rintro ⟨names, hfile, hpath, hlists, hskip⟩
    exact ⟨names, hfile, hpath, hlists, fun name hname hin => hskip name hname (hmore hin)⟩

/-- A store whose directories are in no order: one has a name that a walk may skip and one that of a source
file, and there is a file whose name starts with that of a directory. -/
def unorderedStore : Store where
  root := .directory
    [("src.js", .file .empty),
      ("dist", .directory [("c.js", .file .empty)]),
      ("src", .directory [("x.ts", .directory [("y.test.ts", .file .empty)]), ("dist", .file .empty)])]
  cwd := []

theorem wellFormed_unorderedStore : unorderedStore.root.WellFormed := by
  refine .directory (by decide) (by decide) ?_
  intro entry hentry
  simp only [List.mem_cons, List.not_mem_nil, or_false] at hentry
  rcases hentry with rfl | rfl | rfl
  · exact .file _
  · refine .directory (by decide) (by decide) ?_
    intro entry hentry
    rw [List.mem_singleton.mp hentry]
    exact .file _
  · refine .directory (by decide) (by decide) ?_
    intro entry hentry
    simp only [List.mem_cons, List.not_mem_nil, or_false] at hentry
    rcases hentry with rfl | rfl
    · refine .directory (by decide) (by decide) ?_
      intro entry hentry
      rw [List.mem_singleton.mp hentry]
      exact .file _
    · exact .file _

/-- In that store the walk goes into the directory with the name of a source file, and not into the one that
is skipped. -/
theorem collect_lists_sources_unorderedStore : unorderedStore.root.WellFormed ∧
    Path.ofString "./src/x.ts/y.test.ts" ∈
      unorderedStore.collect ⟨["dist"], true⟩ (Path.ofString ".") ∧
    Path.ofString "./src.js" ∈ unorderedStore.collect ⟨["dist"], false⟩ (Path.ofString ".") ∧
    (Path.ofString "./src/x.ts/y.test.ts").Before (Path.ofString "./src.js") ∧
    (unorderedStore.collect ⟨["dist"], false⟩ (Path.ofString ".")).Pairwise Path.Before ∧
    ∃ content, unorderedStore.entry? (Path.ofString "./src/x.ts/y.test.ts") = some (.file content) := by
  obtain ⟨htests, hpath, -⟩ := collect_lists_sources unorderedStore ⟨["dist"], true⟩ (Path.ofString ".")
    wellFormed_unorderedStore
  obtain ⟨hall, -, hordered, -⟩ := collect_lists_sources unorderedStore ⟨["dist"], false⟩
    (Path.ofString ".") wellFormed_unorderedStore
  have hnested : unorderedStore.HasFile (Path.ofString ".") ["src", "x.ts", "y.test.ts"] :=
    ⟨by decide, _, _, rfl, rfl⟩
  have hplain : unorderedStore.HasFile (Path.ofString ".") ["src.js"] := ⟨by decide, _, _, rfl, rfl⟩
  refine ⟨wellFormed_unorderedStore, ?_, ?_, ?_, hordered, (hpath _ hnested).2⟩
  · exact (htests _).mpr ⟨_, hnested, by decide, ⟨"ts", by decide, by decide⟩, by decide, by decide⟩
  · exact (hall _).mpr ⟨_, hplain, by decide, ⟨"js", by decide, by decide⟩, by decide, by decide⟩
  · exact (Path.le_iff.mp (by decide)).resolve_left (by decide)

end Store

end FocusLint
