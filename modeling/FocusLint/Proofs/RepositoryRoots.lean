import Mathlib.Data.List.Induction
import Mathlib.Data.List.Infix
import FocusLint.Settings
import FocusLint.Proofs.RelativePaths
import FocusLint.Proofs.Stores

/-!
The root is the nearest repository around the working directory.

Main statement: `discover_finds_nearest`. The root is searched by names, from the innermost name of the working
directory outwards. That is the same as to climb on paths (`Climbs`): to look for the mark of a repository in a
directory, and if it is not there, to go on with the directory above. The climb ends, and in one way only.

What makes the two the same is that the path of some names has above it the path of these names without the last one
(`parent?_absolutePath_concat`), and that at such a path is what the names lead to (`entry?_absolutePath`). Both the
climb and the search are then followed by induction on the names from the end, one directory for each step
(`exists_climbs`, `findRepository_eq`).
-/

namespace FocusLint

/-! ## The directory above -/

namespace Path

/-- The directory above: what is left of a path before its last component, unless that is the root. -/
def parent? (path : Path) : Option Path :=
  match path.components.getLast? with
  | none | some .root => none
  | some _ => some (trimmed ⟨(path.trimmed.chars.reverse.dropWhile (· ≠ '/')).reverse⟩)

variable {dir : Path} {name : String} {names : List String}

theorem trimEnd_append_slash (text : List Char) : trimEnd (text ++ ['/']) = trimEnd text := by
  simp [trimEnd, trimEnd.trimBack]

theorem trimmed_slash (text : List Char) : trimmed ⟨'/' :: text⟩ = ⟨'/' :: trimEnd text⟩ := rfl

/-- The text that opens an absolute directory, which is the directory once it is trimmed. -/
theorem exists_opened_of_isAbsolute (h : dir.isAbsolute = true) :
    ∃ init, dir.opened = '/' :: init ∧ dir.opened.getLast? = some '/' ∧
      trimmed ⟨'/' :: init⟩ = dir.trimmed := by
  have hne : dir.chars ≠ [] := by
    intro hnil
    simp [isAbsolute, hnil] at h
  obtain ⟨init, hopened, hinit⟩ := exists_opened hne
  cases init with
  | nil =>
    have hdir : dir = ⟨['/']⟩ := congrArg mk (hinit.resolve_left hne)
    exact ⟨[], by rw [hdir]; rfl, by rw [hdir]; rfl, by rw [hdir]⟩
  | cons c init =>
    have hc : c = '/' := by
      rcases hinit with hinit | hinit <;> simpa [isAbsolute, hinit] using h
    subst hc
    refine ⟨init ++ ['/'], hopened, by rw [hopened, List.getLast?_concat], ?_⟩
    rw [trimmed_slash, trimEnd_append_slash]
    rcases hinit with hinit | hinit
    · rw [← trimmed_slash, ← hinit]
    · rw [← trimEnd_append_slash, ← trimmed_slash]
      exact congrArg (fun chars => trimmed ⟨chars⟩) hinit.symm

theorem trimmed_join (hdir : dir.isAbsolute = true) (hname : IsName name) :
    (dir.join name).trimmed = dir.join name := by
  obtain ⟨init, hopened, -, -⟩ := exists_opened_of_isAbsolute hdir
  rw [join_eq, hopened, List.cons_append, trimmed_slash, trimEnd_name hname]

theorem parent?_join (hdir : dir.isAbsolute = true) (hname : IsName name) :
    (dir.join name).parent? = some dir.trimmed := by
  obtain ⟨init, hopened, hlast, htrimmed⟩ := exists_opened_of_isAbsolute hdir
  obtain ⟨start, hstart⟩ := List.getLast?_eq_some_iff.mp hlast
  have hcut : (dir.join name).chars.reverse.dropWhile (· ≠ '/') = dir.opened.reverse := by
    rw [join_eq, List.reverse_append, List.dropWhile_append_of_pos, hstart, List.reverse_append]
    · rfl
    · intro c hc
      exact decide_eq_true fun heq => hname.1 (heq ▸ List.mem_reverse.mp hc)
  have hcomponents : (dir.join name).components.getLast? = some (.normal name) := by
    rw [components_join hname, List.getLast?_concat]
  simp only [parent?, hcomponents, trimmed_join hdir hname, hcut, List.reverse_reverse]
  rw [hopened, htrimmed]

example : (ofString "/work/lib/.").parent? = some (ofString "/work") := by decide

end Path

namespace Settings

variable {names : List String} {name : String}

theorem absolutePath_eq (names : List String) : absolutePath names = (⟨['/']⟩ : Path).below names := by
  cases names <;> rfl

theorem absolutePath_concat (names : List String) (name : String) :
    absolutePath (names ++ [name]) = (absolutePath names).join name := by
  simp only [absolutePath_eq, Path.below, List.foldl_append, List.foldl_cons, List.foldl_nil]

theorem isAbsolute_absolutePath (names : List String) : (absolutePath names).isAbsolute = true := by
  induction names using List.reverseRecOn with
  | nil => rfl
  | append_singleton names name ih =>
    have hne : (absolutePath names).chars ≠ [] := by
      intro hnil
      simp [Path.isAbsolute, hnil] at ih
    rw [absolutePath_concat, Path.isAbsolute_join hne, ih]

theorem trimmed_absolutePath (hnames : ∀ name ∈ names, Path.IsName name) :
    (absolutePath names).trimmed = absolutePath names := by
  rcases List.eq_nil_or_concat' names with rfl | ⟨names, name, rfl⟩
  · rfl
  · rw [absolutePath_concat]
    exact Path.trimmed_join (isAbsolute_absolutePath names) (hnames name (by simp))

theorem parent?_absolutePath_nil : (absolutePath []).parent? = none := by decide

theorem parent?_absolutePath_concat (hnames : ∀ name ∈ names, Path.IsName name) (hname : Path.IsName name) :
    (absolutePath (names ++ [name])).parent? = some (absolutePath names) := by
  rw [absolutePath_concat, Path.parent?_join (isAbsolute_absolutePath names) hname, trimmed_absolutePath hnames]

end Settings

/-! ## What is at an absolute path -/

namespace Path

variable {names : List String}

theorem pieces_relative (hnames : ∀ name ∈ names, IsName name) (hne : names ≠ []) :
    pieces (relative names).chars = names.map String.toList := by
  induction names with
  | nil => exact absurd rfl hne
  | cons name names ih =>
    obtain ⟨hname, hnames⟩ := List.forall_mem_cons.mp hnames
    by_cases hnil : names = []
    · subst hnil
      rw [relative_singleton, pieces_of_noSlash hname.1]
      rfl
    · rw [relative_cons hname hnames hnil, pieces_append_slash, pieces_of_noSlash hname.1, ih hnames hnil]
      rfl

end Path

namespace Store

variable {store : Store} {here names : List String} {entry : Entry}

theorem entryAt_followAll (hnames : ∀ name ∈ names, Path.IsName name)
    (hhere : store.root.entryAt here = some entry) :
    (store.followAll here (names.map String.toList)).toOption.bind (store.root.entryAt ·) = entry.entryAt names := by
  induction names generalizing here entry with
  | nil => exact hhere
  | cons name names ih =>
    obtain ⟨hname, hnames⟩ := List.forall_mem_cons.mp hnames
    rw [List.map_cons, followAll]
    cases entry with
    | file content =>
      rw [follow, hhere]
      rfl
    | directory entries =>
      rw [follow_name hname hhere, Entry.entryAt]
      cases hlookup : entries.lookup name with
      | none => rfl
      | some next =>
        have hthere : store.root.entryAt (here ++ [name]) = some next := by
          rw [Entry.entryAt_append, hhere, Option.bind_some]
          exact Entry.entryAt_cons_eq_some.mpr ⟨entries, next, rfl, hlookup, rfl⟩
        exact ih hnames hthere

theorem entry?_eq (store : Store) (path : Path) :
    store.entry? path = (store.locate path).toOption.bind (store.root.entryAt ·) := by
  unfold entry?
  cases store.locate path <;> rfl

theorem entry?_absolutePath (hnames : ∀ name ∈ names, Path.IsName name) (hne : names ≠ []) :
    store.entry? (Settings.absolutePath names) = store.root.entryAt names := by
  have hpath : Settings.absolutePath names = ⟨'/' :: (Path.relative names).chars⟩ := by
    rw [Settings.absolutePath_eq, Path.below_eq hnames hne]
    rfl
  have hpieces : Path.pieces ('/' :: (Path.relative names).chars) = [] :: names.map String.toList := by
    rw [← Path.pieces_relative hnames hne]
    rfl
  have hlocate : store.locate (Settings.absolutePath names) =
      store.followAll [] ([] :: names.map String.toList) := by
    rw [hpath, locate, if_neg (by simp), hpieces]
    rfl
  rw [entry?_eq, hlocate, followAll]
  cases hroot : store.root with
  | file content =>
    obtain ⟨name, names, rfl⟩ := List.exists_cons_of_ne_nil hne
    rw [follow, hroot]
    rfl
  | directory entries =>
    rw [← hroot]
    have hhere : store.follow [] [] = .ok [] := by
      simp [follow, hroot, Entry.entryAt]
    rw [hhere]
    exact entryAt_followAll hnames rfl

end Store

/-! ## Climbing -/

/-- Going up from a directory, one directory at a time, to the first one in which a repository is marked: the
directories that are looked at, in order, and the one that is found. -/
inductive Climbs (store : Store) : Path → List Path → Option Path → Prop where
  | found {dir : Path} (marked : store.contains (dir.join repositoryMark) = true) :
      Climbs store dir [dir] (some dir)
  | top {dir : Path} (unmarked : store.contains (dir.join repositoryMark) = false) (top : dir.parent? = none) :
      Climbs store dir [dir] none
  | up {dir above : Path} {tested : List Path} {found : Option Path}
      (unmarked : store.contains (dir.join repositoryMark) = false) (parent : dir.parent? = some above)
      (climbs : Climbs store above tested found) : Climbs store dir (dir :: tested) found

namespace Climbs

variable {store other : Store} {dir : Path} {tested tested' : List Path} {found found' : Option Path}

theorem unique (h : Climbs store dir tested found) (h' : Climbs store dir tested' found') :
    tested' = tested ∧ found' = found := by
  induction h generalizing tested' found' with
  | found marked => cases h' <;> simp_all
  | top unmarked top => cases h' <;> simp_all
  | up unmarked parent climbs ih =>
    cases h' with
    | found marked => simp_all
    | top _ top => simp_all
    | up _ parent' climbs' =>
      obtain rfl := Option.some.inj (parent'.symm.trans parent)
      obtain ⟨rfl, rfl⟩ := ih climbs'
      exact ⟨rfl, rfl⟩

theorem congr (h : Climbs store dir tested found)
    (hsame : ∀ dir ∈ tested, other.contains (dir.join repositoryMark) = store.contains (dir.join repositoryMark)) :
    Climbs other dir tested found := by
  induction h with
  | found marked => exact .found ((hsame _ List.mem_cons_self).trans marked)
  | top unmarked top => exact .top ((hsame _ List.mem_cons_self).trans unmarked) top
  | up unmarked parent climbs ih =>
    obtain ⟨hdir, hsame⟩ := List.forall_mem_cons.mp hsame
    exact .up (hdir.trans unmarked) parent (ih hsame)

end Climbs

namespace Store

/-- There is an entry with the name of a repository's mark, of whatever kind, in the directory that some names lead
to. -/
def marksRepository (store : Store) (names : List String) : Bool :=
  (store.root.entryAt (names ++ [repositoryMark])).isSome

theorem contains_mark (store : Store) {names : List String} (hnames : ∀ name ∈ names, Path.IsName name) :
    store.contains ((Settings.absolutePath names).join repositoryMark) = store.marksRepository names := by
  have hall : ∀ name ∈ names ++ [repositoryMark], Path.IsName name := by
    rw [List.forall_mem_append, List.forall_mem_singleton]
    exact ⟨hnames, by decide⟩
  rw [contains, ← Settings.absolutePath_concat, entry?_absolutePath hall (by simp)]
  rfl

end Store

namespace Settings

variable {store : Store} {names : List String}

/-- A directory given by its names and all those that it lies in, innermost first. -/
def around (names : List String) : List (List String) := names.inits.reverse

theorem around_nil : around [] = [[]] := rfl

theorem around_concat (names : List String) (name : String) :
    around (names ++ [name]) = (names ++ [name]) :: around names := by
  simp [around, List.inits_append]

theorem mem_around {other : List String} : other ∈ around names ↔ other <+: names := by
  simp [around]

theorem length_around (names : List String) : (around names).length = names.length + 1 := by
  simp [around]

theorem findRepository_eq (store : Store) (names : List String) :
    findRepository store.root names.reverse = (around names).find? store.marksRepository := by
  induction names using List.reverseRecOn with
  | nil =>
    rw [List.reverse_nil, findRepository, around_nil, List.find?_cons]
    cases h : store.marksRepository [] <;> simp_all [Store.marksRepository]
  | append_singleton names name ih =>
    rw [List.reverse_concat, findRepository, ih, around_concat, List.find?_cons, ← List.reverse_concat,
      List.reverse_reverse]
    cases h : store.marksRepository (names ++ [name]) <;> simp_all [Store.marksRepository]

/-- What is found is marked, and no directory that lies deeper is. -/
theorem find?_around_eq_some_iff {root : List String} : (around names).find? store.marksRepository = some root ↔
    root <+: names ∧ store.marksRepository root = true ∧
      ∀ deeper, deeper <+: names → store.marksRepository deeper = true → deeper.length ≤ root.length := by
  induction names using List.reverseRecOn with
  | nil =>
    rw [around_nil, List.find?_cons]
    cases hmark : store.marksRepository [] with
    | true =>
      constructor
      · rintro ⟨rfl⟩
        exact ⟨List.prefix_refl _, hmark, fun deeper hdeeper _ => hdeeper.length_le⟩
      · rintro ⟨haround, -⟩
        rw [List.prefix_nil.mp haround]
    | false =>
      simp only [List.find?_nil, reduceCtorEq, List.prefix_nil, false_iff, not_and]
      rintro rfl hroot
      rw [hmark] at hroot
      cases hroot
  | append_singleton names name ih =>
    rw [around_concat, List.find?_cons]
    cases hmark : store.marksRepository (names ++ [name]) with
    | true =>
      constructor
      · rintro ⟨rfl⟩
        exact ⟨List.prefix_refl _, hmark, fun deeper hdeeper _ => hdeeper.length_le⟩
      · rintro ⟨haround, -, hdeepest⟩
        rw [haround.eq_of_length_le (hdeepest _ (List.prefix_refl _) hmark)]
    | false =>
      have hkeep : ∀ {other}, store.marksRepository other = true →
          (other <+: names ++ [name] ↔ other <+: names) := by
        intro other hother
        rw [List.prefix_concat_iff, or_iff_right]
        rintro rfl
        rw [hmark] at hother
        cases hother
      rw [ih]
      constructor
      · rintro ⟨haround, hroot, hdeepest⟩
        exact ⟨(hkeep hroot).mpr haround, hroot, fun deeper hdeeper hmarked =>
          hdeepest deeper ((hkeep hmarked).mp hdeeper) hmarked⟩
      · rintro ⟨haround, hroot, hdeepest⟩
        exact ⟨(hkeep hroot).mp haround, hroot, fun deeper hdeeper hmarked =>
          hdeepest deeper ((hkeep hmarked).mpr hdeeper) hmarked⟩

theorem find?_around_eq_none_iff : (around names).find? store.marksRepository = none ↔
    ∀ other, other <+: names → store.marksRepository other = false := by
  simp only [List.find?_eq_none, mem_around, Bool.not_eq_true]

/-- From the directory of some names the climb looks at the directories around it up to the one that is found, or at all
of them. -/
theorem exists_climbs (store : Store) (hnames : ∀ name ∈ names, Path.IsName name) :
    ∃ tested further, around names = tested ++ further ∧
      Climbs store (absolutePath names) (tested.map absolutePath)
        (((around names).find? store.marksRepository).map absolutePath) ∧
      ((around names).find? store.marksRepository = none → further = []) ∧
      ∀ root, (around names).find? store.marksRepository = some root → tested.getLast? = some root := by
  induction names using List.reverseRecOn with
  | nil =>
    have hmark := store.contains_mark hnames
    refine ⟨[[]], [], rfl, ?_, fun _ => rfl, ?_⟩
    · rw [around_nil, List.find?_cons]
      cases h : store.marksRepository [] with
      | true => exact .found (hmark.trans h)
      | false => exact .top (hmark.trans h) parent?_absolutePath_nil
    · intro root hroot
      have hmem := List.mem_of_find?_eq_some hroot
      rw [around_nil, List.mem_singleton] at hmem
      rw [hmem]
      rfl
  | append_singleton names name ih =>
    have hmark := store.contains_mark hnames
    rw [List.forall_mem_append, List.forall_mem_singleton] at hnames
    obtain ⟨hnames, hname⟩ := hnames
    rw [around_concat, List.find?_cons]
    cases h : store.marksRepository (names ++ [name]) with
    | true => exact ⟨[names ++ [name]], around names, rfl, .found (hmark.trans h), by simp, by simp⟩
    | false =>
      obtain ⟨tested, further, haround, hclimbs, hnone, hsome⟩ := ih hnames
      refine ⟨(names ++ [name]) :: tested, further, by rw [haround, List.cons_append],
        .up (hmark.trans h) (parent?_absolutePath_concat hnames hname) hclimbs, hnone, ?_⟩
      intro root hroot
      rw [List.getLast?_cons, hsome root hroot, Option.getD_some]

theorem discover_of_climbs {tested : List Path} {found : Option Path}
    (hnames : ∀ name ∈ store.cwd, Path.IsName name) (h : Climbs store (absolutePath store.cwd) tested found) :
    discover store = found.map fun root => ⟨root, .unset, false⟩ := by
  obtain ⟨_, _, _, hclimbs, _⟩ := exists_climbs store hnames
  obtain ⟨-, rfl⟩ := hclimbs.unique h
  rw [discover, findRepository_eq, Option.map_map]
  rfl

/-- **The root is the nearest repository.** For any working directory given by names, at any depth, and any store:

Climbing from the path of the working directory ends, in one way only. The settings are those of the directory that is
found, with no list given and not for test files only, and there are none if none is found. A directory is found if and
only if it is the working directory or lies around it, has an entry with the name of the mark, whatever kind of entry,
and no deeper one of these directories has; none is found if and only if none of them up to the root has such an entry.

The directories that are looked at are the first ones of those around the working directory, innermost first: they end
with the one that is found, or they are all of them, and there are at most as many as there are names and one more. So
no directory above the one that is found is used: in a store that agrees on those that are looked at, the settings are
the same. -/
theorem discover_finds_nearest (store : Store) (hnames : ∀ name ∈ store.cwd, Path.IsName name) :
    ∃ (tested : List Path) (found : Option Path),
      (∀ tested' found', Climbs store (absolutePath store.cwd) tested' found' ↔
        tested' = tested ∧ found' = found) ∧
      discover store = (found.map fun root => ⟨root, .unset, false⟩) ∧
      (∀ root, found = some root ↔ ∃ names, root = absolutePath names ∧ names <+: store.cwd ∧
        store.marksRepository names = true ∧
        ∀ deeper, deeper <+: store.cwd → store.marksRepository deeper = true → deeper.length ≤ names.length) ∧
      (found = none ↔ ∀ names, names <+: store.cwd → store.marksRepository names = false) ∧
      (∃ further, (around store.cwd).map absolutePath = tested ++ further ∧
        (found = none → further = []) ∧ ∀ root, found = some root → tested.getLast? = some root) ∧
      tested.length ≤ store.cwd.length + 1 ∧
      ∀ other : Store, other.cwd = store.cwd →
        (∀ dir ∈ tested, other.contains (dir.join repositoryMark) = store.contains (dir.join repositoryMark)) →
        discover other = discover store := by
  obtain ⟨tested, further, haround, hclimbs, hnone, hlast⟩ := exists_climbs store hnames
  refine ⟨_, _, fun _ _ => ⟨hclimbs.unique, ?_⟩, discover_of_climbs hnames hclimbs, ?_, ?_, ?_, ?_, ?_⟩
  · rintro ⟨rfl, rfl⟩
    exact hclimbs
  · intro root
    rw [Option.map_eq_some_iff]
    constructor
    · rintro ⟨names, hfind, rfl⟩
      exact ⟨names, rfl, find?_around_eq_some_iff.mp hfind⟩
    · rintro ⟨names, rfl, hnearest⟩
      exact ⟨names, find?_around_eq_some_iff.mpr hnearest, rfl⟩
  · rw [Option.map_eq_none_iff, find?_around_eq_none_iff]
  · refine ⟨further.map absolutePath, by rw [haround, List.map_append], fun hfound => ?_, fun root hroot => ?_⟩
    · rw [hnone (Option.map_eq_none_iff.mp hfound), List.map_nil]
    · obtain ⟨names, hfind, rfl⟩ := Option.map_eq_some_iff.mp hroot
      rw [List.getLast?_map, hlast names hfind, Option.map_some]
  · rw [List.length_map, ← length_around, haround, List.length_append]
    exact Nat.le_add_right _ _
  · intro other hcwd hsame
    rw [discover_of_climbs hnames hclimbs]
    exact discover_of_climbs (by rwa [hcwd]) (by rw [hcwd]; exact hclimbs.congr hsame)

/-- A store with two repositories, one inside the other; the mark of the inner one is a file. -/
def nestedRepositories : Store where
  root := .directory [("work", .directory [
    (".git", .directory []),
    ("lib", .directory [(".git", .file .empty), ("src", .directory [("deep", .directory [])])])])]
  cwd := ["work", "lib", "src", "deep"]

/-- From two directories below the inner repository the climb ends there, and does not see the outer one. -/
theorem discover_finds_nearest_nestedRepositories :
    (∀ name ∈ nestedRepositories.cwd, Path.IsName name) ∧
    discover nestedRepositories = some ⟨.ofString "/work/lib", .unset, false⟩ ∧
    nestedRepositories.marksRepository ["work"] = true ∧
    ∀ tested found, Climbs nestedRepositories (absolutePath nestedRepositories.cwd) tested found →
      tested = [.ofString "/work/lib/src/deep", .ofString "/work/lib/src", .ofString "/work/lib"] ∧
      found = some (.ofString "/work/lib") := by
  have hnames : ∀ name ∈ nestedRepositories.cwd, Path.IsName name := by decide
  obtain ⟨tested, found, hends, hdiscover, -⟩ := discover_finds_nearest nestedRepositories hnames
  have hclimbs : Climbs nestedRepositories (.ofString "/work/lib/src/deep")
      [.ofString "/work/lib/src/deep", .ofString "/work/lib/src", .ofString "/work/lib"]
      (some (.ofString "/work/lib")) :=
    .up (by decide) (by decide) (.up (by decide) (by decide) (.found (by decide)))
  obtain ⟨rfl, rfl⟩ := (hends _ _).mp hclimbs
  exact ⟨hnames, hdiscover, by decide, fun tested found => (hends tested found).mp⟩

end Settings

end FocusLint
