import FocusLint.Proofs.FixIteration
import FocusLint.Proofs.RunEffects
import FocusLint.Proofs.Walks
import FocusLint.Syntax.Program

/-!
What a mending run tells of its files is what a check of the mended files tells.

Main statement: `run_agrees_unless_refused`. The two runs lint the same files, because walks do not depend on
contents. The files lie at different places, so that each has the result it would have alone (`fst_lintFiles`),
and what a step leaves of its file still stands there at the end of the run (`readSource_lintFiles`). For one
file, what is left to report is told of the text that is written, and a check reads that text back
(`Mends.rechecked`).

This does not hold of a file from which something would be removed and which must not be written: the run tells
of the refusal only, and a check of what the file still holds (`run_disagrees_readOnlyStore`).
-/

namespace FocusLint

open Syntax (Dialect Reader)

/-- Two results say the same of a file, whatever was removed from it. -/
structure FileResult.Agrees (a b : FileResult) : Prop where
  path : a.path = b.path
  diagnostics : a.diagnostics = b.diagnostics
  error : a.error = b.error

namespace Store

variable {a b store next : Store} {path : Path} {text old : List Char} {dialect : Dialect}

theorem readSource_congr (houtline : a.outline = b.outline)
    (hfile : ∀ names, a.locate path = .ok names → a.fileAt names = b.fileAt names) :
    a.readSource path = b.readSource path := by
  rw [readSource, readSource, contains_congr houtline, read_congr houtline hfile]

theorem readSource_write (hread : store.readSource path = .ok (old, dialect))
    (h : store.write path text = .ok next) : next.readSource path = .ok (text, dialect) := by
  obtain ⟨hdialect, hold⟩ := readSource_eq_ok_iff.mp hread
  exact readSource_eq_ok_iff.mpr ⟨hdialect, read_write hold h⟩

theorem write_congr (houtline : a.outline = b.outline) (ha : a.read path = .ok old) (hb : b.read path = .ok old)
    (text : List Char) :
    (∃ fault, a.write path text = .error fault ∧ b.write path text = .error fault) ∨
      ∃ c d, a.write path text = .ok c ∧ b.write path text = .ok d := by
  obtain ⟨names, hlocate, hfile⟩ := read_eq_ok_iff.mp ha
  obtain ⟨names', hlocate', hfile'⟩ := read_eq_ok_iff.mp hb
  rw [locate_congr houtline, hlocate', Except.ok.injEq] at hlocate
  subst hlocate
  have hrefusal : a.outline.refusal = b.outline.refusal := congrArg Store.refusal houtline
  change a.refusal = b.refusal at hrefusal
  rw [write_of_locate ((locate_congr houtline path).trans hlocate') hfile, write_of_locate hlocate' hfile', hrefusal]
  cases b.refusal names' with
  | some fault => exact .inl ⟨fault, rfl, rfl⟩
  | none => exact .inr ⟨_, _, rfl, rfl⟩

end Store

namespace Settings

variable {settings : Settings} {reader : Reader} {mend : Bool} {store next after : Store} {path other : Path}
  {paths : List Path} {result : FileResult} {fault : FileFault} {text : List Char} {dialect : Dialect}

/-! ## Files at different places -/

theorem outline_lintFile (settings : Settings) (reader : Reader) (mend : Bool) (store : Store) (path : Path) :
    (settings.lintFile reader mend store path).2.outline = store.outline := by
  cases mend with
  | false => rw [store_lintFile_false]
  | true => exact (settings.mends_lintFile reader store path).outline_eq

theorem locate_lintFile (settings : Settings) (reader : Reader) (mend : Bool) (store : Store) (path other : Path) :
    (settings.lintFile reader mend store path).2.locate other = store.locate other :=
  Store.locate_congr (settings.outline_lintFile reader mend store path) other

/-- Files at different places are at different places after a step too. -/
theorem pairwise_locate_lintFile (h : paths.Pairwise fun a b => store.locate a ≠ store.locate b) :
    paths.Pairwise fun a b => (settings.lintFile reader mend store path).2.locate a ≠
      (settings.lintFile reader mend store path).2.locate b := by
  simpa only [locate_lintFile] using h

theorem readSource_lintFile_of_ne (h : store.locate path ≠ store.locate other) :
    (settings.lintFile reader mend store path).2.readSource other = store.readSource other := by
  cases mend with
  | false => rw [store_lintFile_false]
  | true =>
    have hmends := settings.mends_lintFile reader store path
    apply Store.readSource_congr hmends.outline_eq
    intro names hlocate
    by_contra hne
    rw [locate_lintFile] at hlocate
    exact h ((hmends.fixed_of_ne hne).located.trans hlocate.symm)

/-- The result of a file, and what it holds then, depend on the outline of the store and on what the file held. -/
theorem lintFile_congr {a b : Store} (houtline : a.outline = b.outline)
    (hread : a.readSource path = b.readSource path) :
    (settings.lintFile reader mend a path).1 = (settings.lintFile reader mend b path).1 ∧
      (settings.lintFile reader mend a path).2.readSource path =
        (settings.lintFile reader mend b path).2.readSource path := by
  cases hb : b.readSource path with
  | error _ =>
    rw [lintFile_of_fault hb, lintFile_of_fault (hread.trans hb)]
    exact ⟨rfl, hread⟩
  | ok source =>
    obtain ⟨text, dialect⟩ := source
    have ha := hread.trans hb
    cases mend with
    | false =>
      rw [lintFile_false hb, lintFile_false ha]
      exact ⟨rfl, hread⟩
    | true =>
      by_cases hzero : (lintAndFix reader (rulesOf settings.options) dialect text).fixesApplied = 0
      · rw [lintFile_unfixed hb rfl hzero, lintFile_unfixed ha rfl hzero]
        exact ⟨rfl, hread⟩
      · have hwrites := Store.write_congr houtline (Store.readSource_eq_ok_iff.mp ha).2
          (Store.readSource_eq_ok_iff.mp hb).2 (lintAndFix reader (rulesOf settings.options) dialect text).output
        rcases hwrites with ⟨fault, hwrite, hwrite'⟩ | ⟨c, d, hwrite, hwrite'⟩
        · rw [lintFile_unwritten ha rfl hzero hwrite, lintFile_unwritten hb rfl hzero hwrite']
          exact ⟨rfl, hread⟩
        · rw [lintFile_written ha rfl hzero hwrite, lintFile_written hb rfl hzero hwrite']
          exact ⟨rfl, (Store.readSource_write ha hwrite).trans (Store.readSource_write hb hwrite').symm⟩

/-- Files at different places have the results that each of them would have alone. -/
theorem fst_lintFiles (h : paths.Pairwise fun a b => store.locate a ≠ store.locate b) :
    (settings.lintFiles reader mend store paths).1 =
      paths.map fun path => (settings.lintFile reader mend store path).1 := by
  induction paths generalizing store with
  | nil => rfl
  | cons path others ih =>
    obtain ⟨hpath, hothers⟩ := List.pairwise_cons.mp h
    have hcons : (settings.lintFiles reader mend store (path :: others)).1 =
        (settings.lintFile reader mend store path).1 ::
          (settings.lintFiles reader mend (settings.lintFile reader mend store path).2 others).1 := rfl
    rw [hcons, List.map_cons, ih (pairwise_locate_lintFile hothers)]
    congr 1
    refine List.map_congr_left fun other hother => ?_
    exact (lintFile_congr (settings.outline_lintFile reader mend store path)
      (readSource_lintFile_of_ne (hpath other hother))).1

theorem readSource_lintFiles_of_ne (h : ∀ other ∈ paths, store.locate path ≠ store.locate other) :
    (settings.lintFiles reader mend store paths).2.readSource path = store.readSource path := by
  induction paths generalizing store with
  | nil => rfl
  | cons first others ih =>
    obtain ⟨hfirst, hothers⟩ := List.forall_mem_cons.mp h
    have hnext : ∀ other ∈ others, (settings.lintFile reader mend store first).2.locate path ≠
        (settings.lintFile reader mend store first).2.locate other := by
      simpa only [locate_lintFile] using hothers
    exact (ih hnext).trans (readSource_lintFile_of_ne hfirst.symm)

/-- Of files at different places each holds in the end what it would hold if it were linted alone. -/
theorem readSource_lintFiles (h : paths.Pairwise fun a b => store.locate a ≠ store.locate b) (hmem : path ∈ paths) :
    (settings.lintFiles reader mend store paths).2.readSource path =
      (settings.lintFile reader mend store path).2.readSource path := by
  induction paths generalizing store with
  | nil => cases hmem
  | cons first others ih =>
    obtain ⟨hfirst, hothers⟩ := List.pairwise_cons.mp h
    rcases List.mem_cons.mp hmem with rfl | hmem
    · have hkept : (settings.lintFiles reader mend (settings.lintFile reader mend store path).2 others).2.readSource
          path = (settings.lintFile reader mend store path).2.readSource path :=
        readSource_lintFiles_of_ne (by simpa only [locate_lintFile] using hfirst)
      exact hkept
    · refine (ih (pairwise_locate_lintFile hothers) hmem).trans ?_
      exact (lintFile_congr (settings.outline_lintFile reader mend store first)
        (readSource_lintFile_of_ne (hfirst path hmem))).2

/-! ## Checking a file again -/

/-- What a mending run of a store tells of the file at a path, and what a check of the store after the run tells
of it. The two agree, or the file must not be written. Then the run tells that and nothing else, the file holds
what it held, and the check reports something. -/
inductive Rechecked (settings : Settings) (reader : Reader) (store after : Store) (path : Path) :
    FileResult → FileResult → Prop
  | same {mended checked : FileResult} (agrees : mended.Agrees checked) :
      Rechecked settings reader store after path mended checked
  | refused {fault : FileFault} {text : List Char} {dialect : Dialect}
      (refuses : settings.Refuses reader store path fault text dialect)
      (kept : after.readSource path = .ok (text, dialect))
      (reported : lintSource reader (rulesOf settings.options) dialect text ≠ []) :
      Rechecked settings reader store after path (settings.failed path (.unwritable fault))
        (settings.linted path text (lintSource reader (rulesOf settings.options) dialect text) 0)

theorem agrees_of_readSource {fixed : FixedSource}
    (hfixed : lintAndFix reader (rulesOf settings.options) dialect text = fixed)
    (hread : after.readSource path = .ok (fixed.output, dialect)) :
    (settings.linted path fixed.output fixed.remaining fixed.fixesApplied).Agrees
      (settings.lintFile reader false after path).1 := by
  subst hfixed
  rw [lintFile_false hread, lintSource_output reader settings.options dialect text]
  exact ⟨rfl, rfl, rfl⟩

/-- One step, and a check of a store in which the file is as the step has left it. -/
theorem Mends.rechecked (h : settings.Mends reader store path result next)
    (hafter : after.readSource path = next.readSource path) :
    settings.Rechecked reader store after path result (settings.lintFile reader false after path).1 := by
  cases h with
  | unread unread =>
    rw [lintFile_of_fault (hafter.trans unread)]
    exact .same ⟨rfl, rfl, rfl⟩
  | @kept text dialect fixed read mended unfixed =>
    subst mended
    refine .same (agrees_of_readSource rfl ?_)
    rw [hafter, read, output_of_fixesApplied_zero unfixed]
  | @unwritten fault text dialect refuses =>
    rw [lintFile_false (hafter.trans refuses.read)]
    obtain ⟨span, hspan, -⟩ := fixesApplied_pos_iff.mp refuses.needed
    obtain ⟨report, hreport, -⟩ := mem_fixesOf.mp hspan
    exact .refused refuses (hafter.trans refuses.read) (List.ne_nil_of_mem hreport)
  | @rewritten _ text dialect fixed names read mended _ located _ outline output _ =>
    refine .same (agrees_of_readSource mended (hafter.trans ?_))
    refine Store.readSource_eq_ok_iff.mpr ⟨(Store.readSource_eq_ok_iff.mp read).1, ?_⟩
    exact Store.read_eq_ok_iff.mpr ⟨names, (Store.locate_congr outline path).trans located, output⟩

theorem Refuses.lintFile_eq (h : settings.Refuses reader store path fault text dialect) :
    settings.lintFile reader true store path = (settings.failed path (.unwritable fault), store) := by
  obtain ⟨names, hlocate, hrefusal⟩ := h.refused
  obtain ⟨names', hlocate', hfile⟩ := Store.read_eq_ok_iff.mp (Store.readSource_eq_ok_iff.mp h.read).2
  rw [hlocate, Except.ok.injEq] at hlocate'
  subst hlocate'
  have hwrite := Store.write_of_locate hlocate hfile
    (lintAndFix reader (rulesOf settings.options) dialect text).output
  rw [hrefusal] at hwrite
  exact lintFile_unwritten h.read rfl (Nat.ne_of_gt h.needed) hwrite

/-- The results of a file agree unless something would be removed from it and it must not be written. -/
theorem agrees_iff_not_refuses
    (hafter : after.readSource path = (settings.lintFile reader true store path).2.readSource path) :
    (settings.lintFile reader true store path).1.Agrees (settings.lintFile reader false after path).1 ↔
      ∀ fault text dialect, ¬ settings.Refuses reader store path fault text dialect := by
  constructor
  · intro hagrees fault text dialect hrefuses
    rw [hrefuses.lintFile_eq] at hagrees hafter
    rw [lintFile_false (hafter.trans hrefuses.read)] at hagrees
    cases hagrees.error
  · intro hnone
    have hrechecked := (settings.mends_lintFile reader store path).rechecked hafter
    generalize (settings.lintFile reader true store path).1 = mended,
      (settings.lintFile reader false after path).1 = checked at hrechecked ⊢
    cases hrechecked with
    | same agrees => exact agrees
    | refused refuses _ _ => exact absurd refuses (hnone _ _ _)

/-! ## Runs -/

theorem files_congr {a b : Store} (houtline : a.outline = b.outline) (settings : Settings) :
    settings.files a [] = settings.files b [] := by
  simp only [files]
  rw [← Store.collect_outline, houtline, Store.collect_outline]

theorem pairwise_locate_files (settings : Settings) (wellFormed : store.root.WellFormed) :
    (settings.files store []).Pairwise fun a b => store.locate a ≠ store.locate b :=
  Store.pairwise_locate_collect wellFormed settings.walkOptions settings.root

/-- A mending run without targets and a check after it, told by the results that each file has alone. -/
theorem run_eq_map (settings : Settings) (reader : Reader) (wellFormed : store.root.WellFormed) :
    ∃ after, settings.run reader true store [] =
        ((settings.files store []).map fun path => (settings.lintFile reader true store path).1, after) ∧
      settings.run reader false after [] =
        ((settings.files store []).map fun path => (settings.lintFile reader false after path).1, after) ∧
      ∀ path ∈ settings.files store [],
        after.readSource path = (settings.lintFile reader true store path).2.readSource path := by
  have hdistinct := settings.pairwise_locate_files wellFormed
  have hfiles : settings.files (settings.run reader true store []).2 [] = settings.files store [] :=
    files_congr (settings.mendsAll_lintFiles reader store _).outline_eq settings
  refine ⟨(settings.run reader true store []).2, Prod.ext (fst_lintFiles hdistinct) rfl, ?_, ?_⟩
  · rw [run.eq_def settings reader false, hfiles, lintFiles_false]
  · exact fun path => readSource_lintFiles hdistinct

/-- For any reader, any settings and any store of well-formed entries: a mending run without targets, and a check
of the store that it leaves, tell of the same files in the same order. What they tell of a file agrees, unless
something would be removed from the file and the store refuses to have it written. The run then tells of the
refusal only, whereas the check reports what still stands in the file. So all results agree exactly if no file that
is listed and needs mending is refused. -/
theorem run_agrees_unless_refused (settings : Settings) (reader : Reader) (store : Store)
    (wellFormed : store.root.WellFormed) :
    ∃ mended after checked, settings.run reader true store [] = (mended, after) ∧
      settings.run reader false after [] = (checked, after) ∧
      List.Forall₂ (fun mended checked => ∃ path ∈ settings.files store [],
        settings.Rechecked reader store after path mended checked) mended checked ∧
      (List.Forall₂ FileResult.Agrees mended checked ↔ ∀ path ∈ settings.files store [],
        ∀ fault text dialect, ¬ settings.Refuses reader store path fault text dialect) := by
  obtain ⟨after, hmended, hchecked, hreads⟩ := settings.run_eq_map reader wellFormed
  refine ⟨_, after, _, hmended, hchecked, ?_, ?_⟩
  · rw [List.forall₂_map_left_iff, List.forall₂_map_right_iff, List.forall₂_same]
    exact fun path hpath =>
      ⟨path, hpath, (settings.mends_lintFile reader store path).rechecked (hreads path hpath)⟩
  · rw [List.forall₂_map_left_iff, List.forall₂_map_right_iff, List.forall₂_same]
    exact forall₂_congr fun path hpath => agrees_iff_not_refuses (hreads path hpath)

/-- A store of a file that holds no text, a file with a focus modifier and one that is no source file. -/
def mixedStore : Store where
  root := .directory
    [("a.js", .file ⟨#[255]⟩), ("b.js", .file "it.only(b)".toUTF8), ("c.txt", .file .empty)]
  cwd := []

theorem wellFormed_mixedStore : mixedStore.root.WellFormed := by
  refine .directory (by decide) (by decide) ?_
  intro entry hentry
  simp only [List.mem_cons, List.not_mem_nil, or_false] at hentry
  rcases hentry with rfl | rfl | rfl
  · exact .file _
  · exact .file _
  · exact .file _

/-- In that store the run lints the first two files, of which one cannot be read and one can. None must not be
written, so that the results agree. -/
theorem run_agrees_unless_refused_mixedStore : mixedStore.root.WellFormed ∧
    (ofRoot (.ofString ".")).files mixedStore [] = [.ofString "./a.js", .ofString "./b.js"] ∧
    mixedStore.readSource (.ofString "./a.js") = .error (.unreadable .notText) ∧
    mixedStore.readSource (.ofString "./b.js") = .ok ("it.only(b)".toList, .javaScript) ∧
    List.Forall₂ FileResult.Agrees ((ofRoot (.ofString ".")).run Syntax.grammarReader true mixedStore []).1
      ((ofRoot (.ofString ".")).run Syntax.grammarReader false
        ((ofRoot (.ofString ".")).run Syntax.grammarReader true mixedStore []).2 []).1 := by
  refine ⟨wellFormed_mixedStore, ?_, by decide +kernel, by decide +kernel, ?_⟩
  · have hsorted : [Path.ofString "./a.js", Path.ofString "./b.js"].Pairwise
        (fun a b => Path.le a b = true) := by decide
    exact List.mergeSort_of_pairwise hsorted
  · obtain ⟨mended, after, checked, hmended, hchecked, -, hagrees⟩ :=
      run_agrees_unless_refused (ofRoot (.ofString ".")) Syntax.grammarReader mixedStore wellFormed_mixedStore
    rw [hmended, hchecked]
    refine hagrees.mpr fun path _ fault text dialect hrefuses => ?_
    obtain ⟨_, _, hrefused⟩ := hrefuses.refused
    cases hrefused

/-- A store of a file with a focus modifier that must not be written. -/
def readOnlyStore : Store where
  root := .directory [("a.js", .file "it.only(a)".toUTF8)]
  cwd := []
  refusal _ := some (.refused "Permission denied" 13)

/-- On that store a mending run tells of the refusal, and a check after it of the modifier. -/
theorem run_disagrees_readOnlyStore : readOnlyStore.root.WellFormed ∧
    (ofRoot (.ofString ".")).run Syntax.grammarReader true readOnlyStore [] =
      ([⟨"a.js", [], 0, some "failed to write fixes: Permission denied (os error 13)"⟩], readOnlyStore) ∧
    (ofRoot (.ofString ".")).run Syntax.grammarReader false readOnlyStore [] =
      ([⟨"a.js", [⟨1, 4, 1, 8, "no-only-tests", "it.only not permitted", true⟩], 0, none⟩], readOnlyStore) ∧
    ¬ List.Forall₂ FileResult.Agrees ((ofRoot (.ofString ".")).run Syntax.grammarReader true readOnlyStore []).1
      ((ofRoot (.ofString ".")).run Syntax.grammarReader false
        ((ofRoot (.ofString ".")).run Syntax.grammarReader true readOnlyStore []).2 []).1 := by
  have hwellFormed : readOnlyStore.root.WellFormed := by
    refine .directory (by decide) (by decide) ?_
    intro entry hentry
    obtain rfl := List.mem_singleton.mp hentry
    exact .file _
  have hfiles : (ofRoot (.ofString ".")).files readOnlyStore [] = [.ofString "./a.js"] :=
    List.mergeSort_singleton _
  have hread : readOnlyStore.readSource (.ofString "./a.js") = .ok ("it.only(a)".toList, .javaScript) := by
    decide +kernel
  have hlint : lintSource Syntax.grammarReader (rulesOf (ofRoot (.ofString ".")).options) .javaScript
      "it.only(a)".toList = [⟨"no-only-tests", 5, ⟨3, 7⟩, "it.only not permitted", some ⟨2, 7⟩⟩] := by
    rw [lintSource, tryLint, lower_eq _ (Syntax.grammarReader.unique _ _)]
    decide +kernel
  have hrefuses : (ofRoot (.ofString ".")).Refuses Syntax.grammarReader readOnlyStore (.ofString "./a.js")
      (.refused "Permission denied" 13) "it.only(a)".toList .javaScript :=
    ⟨hread, fixesApplied_pos_iff.mpr ⟨⟨2, 7⟩, by rw [hlint]; decide, by decide⟩, ["a.js"], by decide +kernel, rfl⟩
  have hmended : (ofRoot (.ofString ".")).run Syntax.grammarReader true readOnlyStore [] =
      ([⟨"a.js", [], 0, some "failed to write fixes: Permission denied (os error 13)"⟩], readOnlyStore) := by
    rw [run, hfiles, lintFiles, hrefuses.lintFile_eq]
    rfl
  have hchecked : (ofRoot (.ofString ".")).run Syntax.grammarReader false readOnlyStore [] =
      ([⟨"a.js", [⟨1, 4, 1, 8, "no-only-tests", "it.only not permitted", true⟩], 0, none⟩], readOnlyStore) := by
    rw [run, hfiles, lintFiles, lintFile_false hread, hlint]
    rfl
  refine ⟨hwellFormed, hmended, hchecked, ?_⟩
  rw [hmended, hchecked, List.forall₂_cons]
  intro hagrees
  cases hagrees.1.error

end Settings

end FocusLint
