import FocusLint.Files.Store
import FocusLint.Proofs.Paths

/-!
What a write to a file changes in a store, and what it leaves.

A store is looked at in two ways. Its outline is the store without the contents of files: it holds which
files and directories there are, under which names and in which order. The other view is the content of the
file that some names lead to (`fileAt`). A write keeps the outline (`outline_write`) and every content but the
one it is made for (`fileAt_write`, `fileAt_write_of_ne`).

Where a path leads depends on the outline alone (`locate_congr`), and so does all that reading a file tells
besides its content (`read_congr`). If entries have the names that a file system gives them (`WellFormed`),
the path of some names below a directory leads where these names do (`locate_below`).
-/

namespace FocusLint

/-! ## Entries -/

namespace Entry

mutual

/-- An entry without the contents of files. -/
def outline : Entry → Entry
  | .file _ => .file .empty
  | .directory entries => .directory (outlineAll entries)

def outlineAll : List (String × Entry) → List (String × Entry)
  | [] => []
  | (name, entry) :: others => (name, entry.outline) :: outlineAll others

end

def content? : Entry → Option ByteArray
  | .file content => some content
  | .directory _ => none

/-- The content of the file that some names lead to. -/
def fileAt (names : List String) (entry : Entry) : Option ByteArray :=
  (entry.entryAt names).bind content?

variable {entry : Entry} {names other : List String}

theorem fileAt_eq_some {content : ByteArray} :
    entry.fileAt names = some content ↔ entry.entryAt names = some (.file content) := by
  rw [fileAt, Option.bind_eq_some_iff]
  constructor
  · rintro ⟨found, hfound, hcontent⟩
    cases found with
    | file _ =>
      cases hcontent
      exact hfound
    | directory _ => cases hcontent
  · intro hfound
    exact ⟨_, hfound, rfl⟩

/-- If what names stand for changes and the names do not, looking up a name finds what it stands for now. -/
theorem lookup_map_snd (f : String → Entry → Entry) (entries : List (String × Entry)) (name : String) :
    (entries.map fun entry => (entry.1, f entry.1 entry.2)).lookup name =
      (entries.lookup name).map (f name) := by
  induction entries with
  | nil => rfl
  | cons entry others ih =>
    rw [List.map_cons, List.lookup_cons, List.lookup_cons]
    by_cases hname : name = entry.1
    · simp [hname]
    · have hne : (name == entry.1) = false := by simpa using hname
      simp only [hne, ih]

/-! ### Outlines -/

theorem outlineAll_eq_map (entries : List (String × Entry)) :
    outlineAll entries = entries.map fun entry => (entry.1, entry.2.outline) := by
  induction entries with
  | nil => rfl
  | cons entry others ih => simp [outlineAll, ih]

theorem lookup_outlineAll (entries : List (String × Entry)) (name : String) :
    (outlineAll entries).lookup name = (entries.lookup name).map outline := by
  rw [outlineAll_eq_map]
  exact lookup_map_snd (fun _ => outline) entries name

theorem entryAt_outline (names : List String) (entry : Entry) :
    entry.outline.entryAt names = (entry.entryAt names).map outline := by
  induction names generalizing entry with
  | nil => rfl
  | cons name names ih =>
    cases entry with
    | file _ => rfl
    | directory entries =>
      simp only [outline, entryAt, lookup_outlineAll]
      cases entries.lookup name with
      | none => rfl
      | some entry => exact ih entry

/-! ### Well-formed entries -/

/-- An entry as a file system holds it: a directory has every name once, and only names that can be a piece
of a path. -/
inductive WellFormed : Entry → Prop
  | file (content : ByteArray) : WellFormed (.file content)
  | directory {entries : List (String × Entry)} (distinct : (entries.map Prod.fst).Nodup)
      (named : ∀ entry ∈ entries, Path.IsName entry.1)
      (below : ∀ entry ∈ entries, entry.2.WellFormed) : WellFormed (.directory entries)

theorem mem_iff_lookup {entries : List (String × Entry)} (distinct : (entries.map Prod.fst).Nodup)
    {name : String} : (name, entry) ∈ entries ↔ entries.lookup name = some entry := by
  rw [List.lookup_eq_some_iff]
  constructor
  · intro hmem
    obtain ⟨before, behind, rfl⟩ := List.append_of_mem hmem
    refine ⟨before, behind, rfl, ?_⟩
    intro listed hlisted
    rw [List.map_append, List.map_cons, List.nodup_append] at distinct
    have hne := distinct.2.2 listed.1 (List.mem_map_of_mem hlisted) name List.mem_cons_self
    simpa using Ne.symm hne
  · rintro ⟨before, behind, rfl, -⟩
    simp

theorem mem_of_lookup {entries : List (String × Entry)} {name : String}
    (h : entries.lookup name = some entry) : (name, entry) ∈ entries := by
  obtain ⟨before, behind, rfl, -⟩ := List.lookup_eq_some_iff.mp h
  simp

theorem entryAt_cons_eq_some {name : String} {found : Entry} :
    entry.entryAt (name :: names) = some found ↔ ∃ entries next, entry = .directory entries ∧
      entries.lookup name = some next ∧ next.entryAt names = some found := by
  cases entry with
  | file _ => simp [entryAt]
  | directory entries =>
    rw [entryAt]
    cases hlookup : entries.lookup name <;> simp [hlookup]

theorem entryAt_append (names other : List String) (entry : Entry) :
    entry.entryAt (names ++ other) = (entry.entryAt names).bind (entryAt other) := by
  induction names generalizing entry with
  | nil => rfl
  | cons name names ih =>
    cases entry with
    | file _ => rfl
    | directory entries =>
      rw [List.cons_append, entryAt, entryAt]
      cases entries.lookup name with
      | none => rfl
      | some next => exact ih next

theorem WellFormed.entryAt {found : Entry} (h : entry.WellFormed) (hfound : entry.entryAt names = some found) :
    found.WellFormed ∧ ∀ name ∈ names, Path.IsName name := by
  induction names generalizing entry with
  | nil =>
    cases hfound
    exact ⟨h, by simp⟩
  | cons name names ih =>
    obtain ⟨entries, next, rfl, hlookup, hnext⟩ := entryAt_cons_eq_some.mp hfound
    have hmem := mem_of_lookup hlookup
    cases h with
    | directory _ named below =>
      obtain ⟨hfound, hnames⟩ := ih (below _ hmem) hnext
      exact ⟨hfound, List.forall_mem_cons.mpr ⟨named _ hmem, hnames⟩⟩

/-! ### Rewriting a file -/

theorem rewriteAt_directory (content : ByteArray) (name : String) (names : List String)
    (entries : List (String × Entry)) :
    (directory entries).rewriteAt content (name :: names) = .directory (entries.map fun entry =>
      (entry.1, if entry.1 = name then entry.2.rewriteAt content names else entry.2)) := by
  rw [rewriteAt]
  refine congrArg directory (List.map_congr_left ?_)
  intro entry _
  split <;> rfl

theorem outline_rewriteAt (content : ByteArray) (names : List String) (entry : Entry) :
    (entry.rewriteAt content names).outline = entry.outline := by
  induction names generalizing entry with
  | nil => cases entry <;> rfl
  | cons name names ih =>
    cases entry with
    | file _ => rfl
    | directory entries =>
      rw [rewriteAt_directory, outline, outline, outlineAll_eq_map, outlineAll_eq_map, List.map_map]
      refine congrArg directory (List.map_congr_left ?_)
      intro entry _
      simp only [Function.comp_apply, Prod.mk.injEq, true_and]
      split
      · exact ih entry.2
      · rfl

theorem fileAt_directory (name : String) (names : List String) (entries : List (String × Entry)) :
    (directory entries).fileAt (name :: names) = (entries.lookup name).bind (fileAt names) := by
  rw [fileAt, entryAt]
  cases entries.lookup name <;> rfl

theorem fileAt_rewriteAt (content : ByteArray) (names : List String) (entry : Entry) :
    (entry.rewriteAt content names).fileAt names = (entry.fileAt names).map fun _ => content := by
  induction names generalizing entry with
  | nil => cases entry <;> rfl
  | cons name names ih =>
    cases entry with
    | file _ => rfl
    | directory entries =>
      rw [rewriteAt_directory, fileAt_directory, fileAt_directory,
        lookup_map_snd fun key entry => if key = name then entry.rewriteAt content names else entry]
      cases entries.lookup name with
      | none => rfl
      | some entry => simpa using ih entry

theorem fileAt_rewriteAt_of_ne (content : ByteArray) (h : other ≠ names) (entry : Entry) :
    (entry.rewriteAt content names).fileAt other = entry.fileAt other := by
  -- On the names of the rewritten file; the other ones part from them somewhere.
  induction names generalizing entry other with
  | nil =>
    obtain ⟨key, others, rfl⟩ := List.exists_cons_of_ne_nil h
    cases entry <;> rfl
  | cons name names ih =>
    cases entry with
    | file _ => rfl
    | directory entries =>
      cases other with
      | nil => rfl
      | cons key others =>
        rw [rewriteAt_directory, fileAt_directory, fileAt_directory,
          lookup_map_snd fun key entry => if key = name then entry.rewriteAt content names else entry]
        cases entries.lookup key with
        | none => rfl
        | some entry =>
          rw [Option.map_some, Option.bind_some, Option.bind_some]
          by_cases hkey : key = name
          · rw [if_pos hkey]
            exact ih (fun heq => h (by rw [hkey, heq])) entry
          · rw [if_neg hkey]

end Entry

/-! ## Stores -/

namespace Store

/-- A store without the contents of files. -/
def outline (store : Store) : Store := { store with root := store.root.outline }

def fileAt (store : Store) (names : List String) : Option ByteArray := store.root.fileAt names

variable {store a b : Store} {path : Path} {names : List String}

/-! ### Where paths lead -/

theorem follow_outline (store : Store) (here : List String) (piece : List Char) :
    store.outline.follow here piece = store.follow here piece := by
  simp only [follow, outline, Entry.entryAt_outline]
  cases store.root.entryAt here with
  | none => rfl
  | some entry =>
    cases entry with
    | file _ => rfl
    | directory entries =>
      simp only [Option.map_some, Entry.outline, Entry.lookup_outlineAll]
      cases entries.lookup (String.ofList piece) <;> rfl

theorem followAll_outline (store : Store) (here : List String) (pieces : List (List Char)) :
    store.outline.followAll here pieces = store.followAll here pieces := by
  induction pieces generalizing here with
  | nil => rfl
  | cons piece pieces ih => simp only [followAll, follow_outline, ih]

theorem locate_outline (store : Store) (path : Path) : store.outline.locate path = store.locate path := by
  simp only [locate, followAll_outline]
  rfl

theorem locate_congr (h : a.outline = b.outline) (path : Path) : a.locate path = b.locate path := by
  rw [← locate_outline, h, locate_outline]

theorem entry?_outline (store : Store) (path : Path) :
    store.outline.entry? path = (store.entry? path).map Entry.outline := by
  unfold Store.entry?
  rw [locate_outline]
  cases store.locate path with
  | error _ => rfl
  | ok names => exact Entry.entryAt_outline names store.root

theorem contains_congr (h : a.outline = b.outline) (path : Path) : a.contains path = b.contains path := by
  have hentry := entry?_outline a path
  rw [h, entry?_outline b path] at hentry
  simpa [contains] using congrArg Option.isSome hentry.symm

theorem followAll_append (store : Store) (here : List String) (a b : List (List Char)) :
    store.followAll here (a ++ b) = (store.followAll here a).bind fun here => store.followAll here b := by
  induction a generalizing here with
  | nil => rfl
  | cons piece a ih =>
    rw [List.cons_append, followAll, followAll]
    cases store.follow here piece with
    | error _ => rfl
    | ok here => exact ih here

theorem followAll_empty {here there : List String} (h : store.followAll here [[]] = .ok there) :
    here = there := by
  rw [followAll, follow] at h
  split at h
  · cases h
  · cases h
  · simpa [followAll, bind, Except.bind] using h

theorem follow_name {here : List String} {entries : List (String × Entry)} {name : String} (hname : Path.IsName name)
    (hhere : store.root.entryAt here = some (.directory entries)) :
    store.follow here name.toList = match entries.lookup name with
      | some _ => .ok (here ++ [name])
      | none => .error .missing := by
  have hempty : name.toList ≠ [] := hname.toList_ne (by simp [Path.componentOf?])
  have hcurrent : name.toList ≠ ['.'] := hname.toList_ne (by simp [Path.componentOf?])
  have hparent : name.toList ≠ ['.', '.'] := hname.toList_ne (by simp [Path.componentOf?])
  cases hlookup : entries.lookup name <;>
    simp only [follow, hhere, hempty, hcurrent, hparent, hlookup, or_self, if_false, String.ofList_toList]

theorem followAll_name {here : List String} {entries : List (String × Entry)} {name : String}
    {entry : Entry} (hname : Path.IsName name)
    (hhere : store.root.entryAt here = some (.directory entries)) (hlookup : entries.lookup name = some entry) :
    store.followAll here [name.toList] = .ok (here ++ [name]) := by
  rw [followAll, follow_name hname hhere, hlookup]
  rfl

theorem locate_join {dir : Path} {here : List String} {entries : List (String × Entry)} {name : String}
    {entry : Entry} (hdir : store.locate dir = .ok here) (hname : Path.IsName name)
    (hhere : store.root.entryAt here = some (.directory entries)) (hlookup : entries.lookup name = some entry) :
    store.locate (dir.join name) = .ok (here ++ [name]) := by
  have hne : dir.chars ≠ [] := by
    intro hnil
    simp [locate, hnil] at hdir
  obtain ⟨init, hjoin, -, hpieces⟩ := Path.pieces_join hne hname
  rw [locate, if_neg (Path.join_ne_nil hname), Path.isAbsolute_join hne name, hjoin, followAll_append]
  rw [locate, if_neg hne] at hdir
  -- A slash at the end of the directory is an empty piece, which the name replaces.
  have hinit : store.followAll (if dir.isAbsolute = true then [] else store.cwd) init = .ok here := by
    rcases hpieces with heq | heq
    · rwa [heq] at hdir
    · rw [heq, followAll_append] at hdir
      cases hstart : store.followAll (if dir.isAbsolute = true then [] else store.cwd) init with
      | error _ => simp [hstart, Except.bind] at hdir
      | ok there =>
        rw [hstart] at hdir
        rw [followAll_empty hdir]
  rw [hinit]
  exact followAll_name hname hhere hlookup

/-- The path of some names below a directory leads where these names do. -/
theorem locate_below {dir : Path} {here : List String} {entry found : Entry}
    (hdir : store.locate dir = .ok here) (hhere : store.root.entryAt here = some entry)
    (hnames : ∀ name ∈ names, Path.IsName name) (hfound : entry.entryAt names = some found) :
    store.locate (dir.below names) = .ok (here ++ names) := by
  induction names generalizing dir here entry with
  | nil => simpa [Path.below] using hdir
  | cons name names ih =>
    obtain ⟨hname, hnames⟩ := List.forall_mem_cons.mp hnames
    obtain ⟨entries, next, rfl, hlookup, hnext⟩ := Entry.entryAt_cons_eq_some.mp hfound
    have hthere : store.root.entryAt (here ++ [name]) = some next := by
      rw [Entry.entryAt_append, hhere, Option.bind_some]
      exact Entry.entryAt_cons_eq_some.mpr ⟨entries, next, rfl, hlookup, rfl⟩
    have hbelow := ih (locate_join hdir hname hhere hlookup) hthere hnames hnext
    rwa [List.append_assoc, List.singleton_append] at hbelow

/-! ### Reading -/

theorem fileAt_eq_some {content : ByteArray} :
    store.fileAt names = some content ↔ store.root.entryAt names = some (.file content) :=
  Entry.fileAt_eq_some

theorem fromUTF8?_eq_some {content : ByteArray} {string : String} :
    String.fromUTF8? content = some string ↔ content = string.toUTF8 := by
  unfold String.fromUTF8?
  split
  · next hvalid =>
    rw [Option.some.injEq]
    constructor
    · rintro rfl
      rfl
    · rintro rfl
      rfl
  · next hinvalid =>
    refine ⟨fun h => absurd h (by simp), ?_⟩
    rintro rfl
    exact absurd string.isValidUTF8 hinvalid

theorem read_of_locate (hpath : store.locate path = .ok names) :
    store.read path = match store.root.entryAt names with
      | none => .error .missing
      | some (.directory _) => .error .isDirectory
      | some (.file content) => match String.fromUTF8? content with
        | some text => .ok text.toList
        | none => .error .notText := by
  rw [read, hpath]
  rfl

/-- A text is read where a path leads to a file that holds its bytes. -/
theorem read_eq_ok_iff {text : List Char} : store.read path = .ok text ↔
    ∃ names, store.locate path = .ok names ∧
      store.fileAt names = some (String.ofList text).toUTF8 := by
  simp only [fileAt_eq_some]
  cases hpath : store.locate path with
  | error fault => simp [read, hpath, bind, Except.bind]
  | ok names =>
    simp only [Except.ok.injEq, exists_eq_left', read_of_locate hpath]
    cases store.root.entryAt names with
    | none => simp
    | some entry =>
      cases entry with
      | directory _ => simp
      | file content =>
        simp only [Option.some.injEq, Entry.file.injEq, ← fromUTF8?_eq_some]
        cases String.fromUTF8? content with
        | none => simp
        | some string =>
          simp only [Except.ok.injEq, Option.some.injEq]
          rw [← String.toList_inj, String.toList_ofList]

/-- What reading a file tells depends on the outline and on the content of that file. -/
theorem read_congr (houtline : a.outline = b.outline)
    (hfile : ∀ names, a.locate path = .ok names → a.fileAt names = b.fileAt names) :
    a.read path = b.read path := by
  have hsame := locate_congr houtline path
  cases hpath : a.locate path with
  | error fault =>
    rw [read, read, ← hsame, hpath]
    rfl
  | ok names =>
    have hentry : (a.root.entryAt names).map Entry.outline = (b.root.entryAt names).map Entry.outline := by
      rw [← Entry.entryAt_outline, ← Entry.entryAt_outline]
      exact congrArg (fun store => store.root.entryAt names) houtline
    have hcontent : (a.root.entryAt names).bind Entry.content? =
        (b.root.entryAt names).bind Entry.content? := hfile names hpath
    rw [read_of_locate hpath, read_of_locate (hsame ▸ hpath)]
    -- Both entries are of the same kind, and files have the same content.
    rcases ha : a.root.entryAt names with _ | _ | _ <;> rcases hb : b.root.entryAt names with _ | _ | _ <;>
      simp_all [Entry.outline, Entry.content?]

/-! ### Writing -/

/-- A file that is there is rewritten, unless that is refused. -/
theorem write_of_locate {content : ByteArray} (hpath : store.locate path = .ok names)
    (hfile : store.fileAt names = some content) (text : List Char) :
    store.write path text = match store.refusal names with
      | some fault => .error fault
      | none => .ok { store with root := store.root.rewriteAt (String.ofList text).toUTF8 names } := by
  rw [fileAt_eq_some] at hfile
  simp only [write, hpath, hfile, bind, Except.bind]
  cases store.refusal names <;> rfl

variable {next : Store} {text : List Char}

theorem exists_rewriteAt_of_write (h : store.write path text = .ok next) : ∃ names, store.locate path = .ok names ∧
    next = { store with root := store.root.rewriteAt (String.ofList text).toUTF8 names } := by
  cases hpath : store.locate path with
  | error fault =>
    simp only [write, hpath, bind, Except.bind] at h
    cases h
  | ok names =>
    simp only [write, hpath, bind, Except.bind] at h
    refine ⟨names, rfl, ?_⟩
    split at h
    · cases h
    · cases h
    · cases h
    · exact (Except.ok.inj h).symm

theorem outline_write (h : store.write path text = .ok next) : next.outline = store.outline := by
  obtain ⟨names, -, rfl⟩ := exists_rewriteAt_of_write h
  simp only [outline, Entry.outline_rewriteAt]

theorem fileAt_write (h : store.write path text = .ok next) (hpath : store.locate path = .ok names) :
    next.fileAt names = (store.fileAt names).map fun _ => (String.ofList text).toUTF8 := by
  obtain ⟨located, hlocated, rfl⟩ := exists_rewriteAt_of_write h
  obtain rfl := Except.ok.inj (hlocated.symm.trans hpath)
  exact Entry.fileAt_rewriteAt _ located store.root

theorem fileAt_write_of_ne (h : store.write path text = .ok next) (hpath : store.locate path ≠ .ok names) :
    next.fileAt names = store.fileAt names := by
  obtain ⟨located, hlocated, rfl⟩ := exists_rewriteAt_of_write h
  have hne : names ≠ located := fun heq => hpath (by rw [hlocated, heq])
  exact Entry.fileAt_rewriteAt_of_ne _ hne store.root

theorem read_write {old : List Char} (hread : store.read path = .ok old) (h : store.write path text = .ok next) :
    next.read path = .ok text := by
  obtain ⟨names, hpath, hfile⟩ := read_eq_ok_iff.mp hread
  refine read_eq_ok_iff.mpr ⟨names, ?_, ?_⟩
  · rw [locate_congr (outline_write h), hpath]
  · rw [fileAt_write h hpath, hfile, Option.map_some]

end Store

end FocusLint
