import Mathlib.Data.List.TakeWhile
import FocusLint.Files.SourceFile
import FocusLint.Proofs.PathTexts

/-!
Which paths are those of source files and of test files.

Main statement: `classes_follow_names`. The text of a path tells its name, the extension of that and its components.
There is a dialect for exactly the paths with the extension of a source file. The names of test files are listed with
their endings, more of them than source files can have; for a source file only the mark before the last point counts
(`isTestName_iff`).
-/

namespace FocusLint

open Syntax (Dialect)

/-! ## Extensions -/

theorem eq_of_append_point {a b c d : List Char} (h : a ++ '.' :: b = c ++ '.' :: d) (hb : '.' ∉ b) (hd : '.' ∉ d) :
    a = c ∧ b = d := by
  rcases List.append_eq_append_iff.mp h with ⟨rest, rfl, hrest⟩ | ⟨rest, rfl, hrest⟩
  · cases rest with
    | nil => simpa using hrest
    | cons c rest =>
      refine absurd ?_ hb
      rw [(List.cons.inj hrest).2]
      simp
  · cases rest with
    | nil => simpa using hrest.symm
    | cons c rest =>
      refine absurd ?_ hd
      rw [(List.cons.inj hrest).2]
      simp

theorem append_point_suffix_iff {a b c d : List Char} (hb : '.' ∉ b) (hd : '.' ∉ d) :
    (a ++ '.' :: b) <:+ (c ++ '.' :: d) ↔ a <:+ c ∧ b = d := by
  constructor
  · rintro ⟨start, h⟩
    rw [← List.append_assoc] at h
    obtain ⟨rfl, rfl⟩ := eq_of_append_point h hb hd
    exact ⟨⟨start, rfl⟩, rfl⟩
  · rintro ⟨⟨start, rfl⟩, rfl⟩
    exact ⟨start, by rw [← List.append_assoc]⟩

namespace Path

variable {path : Path}

theorem exists_append_point {name : List Char} (h : '.' ∈ name) :
    ∃ stem extension, name = stem ++ '.' :: extension ∧ '.' ∉ extension := by
  obtain ⟨behind, before, hreverse, hpoint⟩ := List.eq_append_cons_of_mem (List.mem_reverse.mpr h)
  refine ⟨before.reverse, behind.reverse, ?_, fun hmem => hpoint (List.mem_reverse.mp hmem)⟩
  rw [← List.reverse_inj, hreverse]
  simp

theorem splitName?_append {stem extension : List Char} (hpoint : '.' ∉ extension) :
    splitName? (stem ++ '.' :: extension) = if stem = [] then none else some (stem, extension) := by
  have hreverse : (stem ++ '.' :: extension).reverse = extension.reverse ++ '.' :: stem.reverse := by simp
  have hextension : ∀ c ∈ extension.reverse, decide (c ≠ '.') = true := by
    intro c hc
    exact decide_eq_true fun heq => hpoint (heq ▸ List.mem_reverse.mp hc)
  have hdrop : (stem ++ '.' :: extension).reverse.dropWhile (· ≠ '.') = '.' :: stem.reverse := by
    rw [hreverse, List.dropWhile_append_of_pos hextension]
    simp
  have htake : (stem ++ '.' :: extension).reverse.takeWhile (· ≠ '.') = extension.reverse := by
    rw [hreverse, List.takeWhile_append_of_pos hextension]
    simp
  rw [splitName?, hdrop, htake]
  rcases List.eq_nil_or_concat' stem with rfl | ⟨init, last, rfl⟩
  · rfl
  · simp

theorem splitName?_of_notMem {name : List Char} (h : '.' ∉ name) : splitName? name = none := by
  have hdrop : name.reverse.dropWhile (· ≠ '.') = [] := by
    rw [List.dropWhile_eq_nil_iff]
    intro c hc
    exact decide_eq_true fun heq => h (heq ▸ List.mem_reverse.mp hc)
  rw [splitName?, hdrop]

theorem splitName?_eq_some_iff {name stem extension : List Char} : splitName? name = some (stem, extension) ↔
    name = stem ++ '.' :: extension ∧ stem ≠ [] ∧ '.' ∉ extension := by
  constructor
  · intro h
    by_cases hmem : '.' ∈ name
    · obtain ⟨stem, extension, rfl, hpoint⟩ := exists_append_point hmem
      rw [splitName?_append hpoint] at h
      split at h
      · cases h
      · next hstem =>
        cases h
        exact ⟨rfl, hstem, hpoint⟩
    · rw [splitName?_of_notMem hmem] at h
      cases h
  · rintro ⟨rfl, hstem, hpoint⟩
    rw [splitName?_append hpoint, if_neg hstem]

theorem extension?_eq_some_iff {extension : String} : path.extension? = some extension ↔
    ∃ stem, path.fileName? = some (String.ofList (stem ++ '.' :: extension.toList)) ∧ stem ≠ [] ∧
      '.' ∉ extension.toList := by
  constructor
  · intro h
    obtain ⟨name, hname, h⟩ := Option.bind_eq_some_iff.mp h
    obtain ⟨⟨stem, rest⟩, hsplit, h⟩ := Option.bind_eq_some_iff.mp h
    cases h
    obtain ⟨hparts, hstem, hpoint⟩ := splitName?_eq_some_iff.mp hsplit
    rw [String.toList_ofList]
    refine ⟨stem, ?_, hstem, hpoint⟩
    rw [hname, ← hparts, String.ofList_toList]
  · rintro ⟨stem, hname, hstem, hpoint⟩
    have hsplit := splitName?_eq_some_iff.mpr ⟨rfl, hstem, hpoint⟩
    simp [extension?, hname, hsplit]

end Path

/-! ## Names of test files -/

/-- The words that mark the name of a test file, before the extension. -/
def testMarks : List String := ["test", "spec"]

def testExtensions : List String :=
  ["js", "jsx", "ts", "tsx", "cjs", "cjsx", "cts", "ctsx", "mjs", "mjsx", "mts", "mtsx"]

theorem testNameEnds_eq : testNameEnds =
    testMarks.flatMap fun mark => testExtensions.map fun extension => "." ++ mark ++ "." ++ extension := by decide

theorem point_notMem_of_mem_testExtensions : ∀ extension ∈ testExtensions, '.' ∉ extension.toList := by decide

/-- A name is that of a test file if a mark stands before its last point and one of some extensions behind it. -/
theorem isTestName_iff {stem extension : List Char} (hpoint : '.' ∉ extension) :
    isTestName (String.ofList (stem ++ '.' :: extension)) = true ↔
      (∃ mark ∈ testMarks, ('.' :: mark.toList) <:+ stem) ∧ String.ofList extension ∈ testExtensions := by
  have hending : ∀ mark, ∀ other ∈ testExtensions,
      ("." ++ mark ++ "." ++ other).toList.isSuffixOf (stem ++ '.' :: extension) = true ↔
        ('.' :: mark.toList) <:+ stem ∧ other.toList = extension := by
    intro mark other hother
    have htext : ("." ++ mark ++ "." ++ other).toList = ('.' :: mark.toList) ++ '.' :: other.toList := by simp
    rw [List.isSuffixOf_iff_suffix, htext,
      append_point_suffix_iff (point_notMem_of_mem_testExtensions other hother) hpoint]
  rw [isTestName, testNameEnds_eq, String.toList_ofList, List.any_eq_true]
  constructor
  · rintro ⟨ending, hmem, hsuffix⟩
    obtain ⟨mark, hmark, hmem⟩ := List.mem_flatMap.mp hmem
    obtain ⟨other, hother, rfl⟩ := List.mem_map.mp hmem
    obtain ⟨hstem, rfl⟩ := (hending mark other hother).mp hsuffix
    rw [String.ofList_toList]
    exact ⟨⟨mark, hmark, hstem⟩, hother⟩
  · rintro ⟨⟨mark, hmark, hstem⟩, hother⟩
    refine ⟨"." ++ mark ++ "." ++ String.ofList extension, ?_, ?_⟩
    · exact List.mem_flatMap.mpr ⟨mark, hmark, List.mem_map.mpr ⟨_, hother, rfl⟩⟩
    · exact (hending mark _ hother).mpr ⟨hstem, String.toList_ofList⟩

/-! ## The three classifiers -/

theorem exists_ofExtension?_iff {extension : String} :
    (∃ dialect, Dialect.ofExtension? extension = some dialect) ↔ extension ∈ sourceExtensions := by
  unfold Dialect.ofExtension? sourceExtensions
  split_ifs with hjavaScript htypeScript htsx <;> simp_all
  · tauto
  · tauto

/-- The name of a test file may have more extensions than source files do, and has none less. -/
theorem sourceExtensions_subset : sourceExtensions ⊆ testExtensions := by decide

namespace Path

variable {path : Path}

theorem isSourceFile_iff : path.isSourceFile = true ↔
    ∃ extension ∈ sourceExtensions, path.extension? = some extension := by
  rw [isSourceFile]
  cases path.extension? <;> simp

theorem isTestFile_iff : path.isTestFile = true ↔
    (∃ name, path.fileName? = some name ∧ isTestName name = true) ∨ .normal testDirectory ∈ path.components := by
  rw [isTestFile, Bool.or_eq_true, List.contains_iff_mem]
  cases path.fileName? <;> simp

theorem isSourceFile_iff_dialect? : path.isSourceFile = true ↔ ∃ dialect, path.dialect? = some dialect := by
  rw [isSourceFile_iff]
  constructor
  · rintro ⟨extension, hmem, hextension⟩
    obtain ⟨dialect, hdialect⟩ := exists_ofExtension?_iff.mpr hmem
    exact ⟨dialect, by rw [dialect?, hextension, Option.bind_some, hdialect]⟩
  · rintro ⟨dialect, hdialect⟩
    obtain ⟨extension, hextension, hdialect⟩ := Option.bind_eq_some_iff.mp hdialect
    exact ⟨extension, exists_ofExtension?_iff.mp ⟨dialect, hdialect⟩, hextension⟩

theorem mem_sourceExtensions {stem extension : List Char}
    (hname : path.fileName? = some (String.ofList (stem ++ '.' :: extension))) (hpoint : '.' ∉ extension)
    (hsource : path.isSourceFile = true) : String.ofList extension ∈ sourceExtensions := by
  obtain ⟨given, hgiven, hextension⟩ := isSourceFile_iff.mp hsource
  obtain ⟨start, hsame, -, hother⟩ := extension?_eq_some_iff.mp hextension
  rw [hname, Option.some.injEq, String.ofList_inj] at hsame
  obtain ⟨-, rfl⟩ := eq_of_append_point hsame hpoint hother
  rwa [String.ofList_toList]

end Path

/-- For any path:

The name of the file is the name in which the path ends, with nothing behind it but slashes and points that stand for
nothing. The extension is what stands behind the last point of that name, unless the name starts with the point. A name
is a component if it stands somewhere between slashes.

The path is that of a source file if and only if there is a dialect for it, and that is so for the extensions of source
files. If it is, and its name without the last point and the extension is the stem, then the path is that of a test file
if and only if the stem ends with `.test` or `.spec` or some component is `__tests__`. -/
theorem classes_follow_names (path : Path) :
    (∀ name, path.fileName? = some name ↔ Path.IsName name ∧ path.EndsIn name) ∧
    (∀ extension, path.extension? = some extension ↔
      ∃ stem, path.fileName? = some (String.ofList (stem ++ '.' :: extension.toList)) ∧ stem ≠ [] ∧
        '.' ∉ extension.toList) ∧
    (∀ name, Path.IsName name → (.normal name ∈ path.components ↔ path.Holds name)) ∧
    (path.isSourceFile = true ↔ ∃ dialect, path.dialect? = some dialect) ∧
    (path.isSourceFile = true ↔ ∃ extension ∈ sourceExtensions, path.extension? = some extension) ∧
    ∀ stem extension : List Char, path.fileName? = some (String.ofList (stem ++ '.' :: extension)) →
      '.' ∉ extension → path.isSourceFile = true →
      (path.isTestFile = true ↔
        (".test".toList <:+ stem ∨ ".spec".toList <:+ stem) ∨ path.Holds "__tests__") := by
  refine ⟨fun _ => Path.fileName?_eq_some_iff, fun _ => Path.extension?_eq_some_iff,
    fun _ => Path.mem_components_iff, Path.isSourceFile_iff_dialect?, Path.isSourceFile_iff, ?_⟩
  intro stem extension hname hpoint hsource
  have hextension := sourceExtensions_subset (Path.mem_sourceExtensions hname hpoint hsource)
  rw [Path.isTestFile_iff, Path.mem_components_iff (by decide)]
  refine or_congr_left ?_
  simp only [hname, Option.some.injEq, exists_eq_left', isTestName_iff hpoint, hextension, and_true, testMarks]
  simp

/-- A name may start with the mark, and slashes and points may stand behind it. -/
example : (Path.ofString "./a/.test.js//./").fileName? = some ".test.js" ∧
    (Path.ofString "./a/.test.js//./").isTestFile = true ∧ (Path.ofString "a/test.js").isTestFile = false := by
  decide

end FocusLint
