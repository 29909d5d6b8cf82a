import Mathlib.Data.List.Lex
import Mathlib.Data.String.Basic
import FocusLint.Files.Path
import FocusLint.Proofs.TextBytes

/-!
Paths below a directory, and the order of paths.

The path of what some names lead to below a directory has the components of the directory followed by these
names (`components_below`), so different names make different paths (`below_injective`).

Paths are in the order of their components, where names are in the order of their bytes (`le_iff`). That
order is strict and total up to components that are the same.
-/

namespace FocusLint

/-! ## The order of components -/

namespace Component

def rank : Component → Nat
  | .root => 0
  | .current => 1
  | .parent => 2
  | .normal _ => 3

def bytes : Component → List UInt8
  | .normal name => Text.bytes name.toList
  | _ => []

/-- One component comes before another: by its kind, or by the bytes of its name. -/
def Before (a b : Component) : Prop := a.rank < b.rank ∨ a.rank = b.rank ∧ a.bytes < b.bytes

theorem Before.irrefl (a : Component) : ¬ a.Before a := by
  rintro (h | ⟨-, h⟩)
  · exact Nat.lt_irrefl _ h
  · exact List.lt_irrefl _ h

theorem Before.trans {a b c : Component} (hab : a.Before b) (hbc : b.Before c) : a.Before c := by
  rcases hab with hab | ⟨hab, hab'⟩ <;> rcases hbc with hbc | ⟨hbc, hbc'⟩
  · exact .inl (by omega)
  · exact .inl (by omega)
  · exact .inl (by omega)
  · exact .inr ⟨by omega, List.lt_trans hab' hbc'⟩

theorem Before.asymm {a b : Component} (hab : a.Before b) : ¬ b.Before a := by
  intro hba
  exact Before.irrefl a (hab.trans hba)

theorem normal_before_iff {a b : String} : (normal a).Before (normal b) ↔ a < b := by
  rw [String.lt_iff_toList_lt, ← Text.bytes_lt_iff]
  simp [Before, rank, bytes]

theorem le_iff {a b : Component} : a.le b = true ↔ a = b ∨ a.Before b := by
  cases a <;> cases b
  case normal.normal a b =>
    rw [normal_before_iff, Component.normal.injEq, ← le_iff_eq_or_lt]
    exact decide_eq_true_iff
  all_goals simp [le, Before, rank, bytes]

theorem eq_of_not_before {a b : Component} (hab : ¬ a.Before b) (hba : ¬ b.Before a) : a = b := by
  cases a <;> cases b
  case normal.normal a b =>
    rw [normal_before_iff, not_lt] at hab hba
    rw [le_antisymm hba hab]
  all_goals simp_all [Before, rank, bytes]

instance : Std.Asymm Before := ⟨fun _ _ => Before.asymm⟩

instance : Std.Trichotomous Before := ⟨fun _ _ => eq_of_not_before⟩

end Component

namespace Path

/-! ## The order of paths -/

/-- One path comes before another: in the first component in which they differ, or where it ends. -/
def Before (a b : Path) : Prop := List.Lex Component.Before a.components b.components

theorem Before.trans {a b c : Path} (hab : a.Before b) (hbc : b.Before c) : a.Before c :=
  List.lex_trans Component.Before.trans hab hbc

theorem Before.asymm {a b : Path} (hab : a.Before b) : ¬ b.Before a :=
  List.lex_asymm Component.Before.asymm hab

theorem componentsLe_iff {a b : List Component} :
    componentsLe a b = true ↔ a = b ∨ List.Lex Component.Before a b := by
  induction a generalizing b with
  | nil => cases b <;> simp [componentsLe]
  | cons first as ih =>
    cases b with
    | nil => simp [componentsLe]
    | cons second bs =>
      rw [componentsLe, List.cons_lex_cons_iff, List.cons.injEq]
      by_cases heq : first = second
      · have hirrefl := Component.Before.irrefl second
        simp [heq, ih, hirrefl]
      · simp [heq, Component.le_iff]

theorem le_iff {a b : Path} : a.le b = true ↔ a.components = b.components ∨ a.Before b :=
  componentsLe_iff

theorem le_trans (a b c : Path) (hab : a.le b = true) (hbc : b.le c = true) : a.le c = true := by
  rw [le_iff] at hab hbc ⊢
  rcases hab with hab | hab <;> rcases hbc with hbc | hbc
  · exact .inl (hab.trans hbc)
  · exact .inr (by rwa [Before, hab])
  · exact .inr (by rwa [Before, ← hbc])
  · exact .inr (hab.trans hbc)

theorem le_total (a b : Path) : (a.le b || b.le a) = true := by
  rw [Bool.or_eq_true, le_iff, le_iff]
  by_contra hnot
  simp only [not_or] at hnot
  obtain ⟨⟨hne, hab⟩, -, hba⟩ := hnot
  exact hne (Std.Trichotomous.trichotomous (r := List.Lex Component.Before) _ _ hab hba)

/-! ## Pieces -/

theorem pieces_ne_nil (text : List Char) : pieces text ≠ [] := by
  cases text with
  | nil => simp [pieces]
  | cons c rest =>
    rw [pieces]
    split
    · simp
    · split <;> simp

theorem pieces_append_slash (a b : List Char) : pieces (a ++ '/' :: b) = pieces a ++ pieces b := by
  induction a with
  | nil => simp [pieces]
  | cons c rest ih =>
    rw [List.cons_append, pieces, pieces, ih]
    by_cases hc : c = '/'
    · simp [hc]
    · obtain ⟨piece, others, heq⟩ := List.exists_cons_of_ne_nil (pieces_ne_nil rest)
      simp [hc, heq]

theorem pieces_of_noSlash {text : List Char} (h : '/' ∉ text) : pieces text = [text] := by
  induction text with
  | nil => rfl
  | cons c rest ih =>
    rw [List.mem_cons, not_or] at h
    rw [pieces, if_neg (Ne.symm h.1), ih h.2]

/-! ## Names -/

/-- A name that an entry of a directory can have: it holds no slash, and as a piece of a path it stands for
itself, which the empty piece, one point and two points do not. -/
def IsName (name : String) : Prop :=
  '/' ∉ name.toList ∧ componentOf? name.toList = some (.normal name)

instance (name : String) : Decidable (IsName name) := inferInstanceAs (Decidable (_ ∧ _))

/-- The path of what some names lead to below a directory. -/
def below (dir : Path) (names : List String) : Path := names.foldl join dir

variable {dir : Path} {name : String} {names : List String}

theorem IsName.toList_ne {piece : List Char} (h : IsName name)
    (hpiece : componentOf? piece ≠ some (.normal name)) : name.toList ≠ piece := by
  rintro rfl
  exact hpiece h.2

theorem filterMap_append_name (h : IsName name) (pieces : List (List Char)) :
    (pieces ++ [name.toList]).filterMap componentOf? = pieces.filterMap componentOf? ++ [.normal name] := by
  rw [List.filterMap_append, List.filterMap_cons_some h.2, List.filterMap_nil]

/-- A name is added to a path as its last piece, in place of an empty one. -/
theorem pieces_join (hdir : dir.chars ≠ []) (hname : IsName name) :
    ∃ init, pieces (dir.join name).chars = init ++ [name.toList] ∧ init ≠ [] ∧
      (pieces dir.chars = init ∨ pieces dir.chars = init ++ [[]]) := by
  have hpieces := pieces_of_noSlash hname.1
  obtain ⟨start, last, hchars⟩ := (List.eq_nil_or_concat' dir.chars).resolve_left hdir
  by_cases hslash : last = '/'
  · subst hslash
    refine ⟨pieces start, ?_, pieces_ne_nil start, .inr ?_⟩
    · simp only [join, hchars, List.getLast?_concat, List.append_assoc, List.singleton_append]
      rw [pieces_append_slash, hpieces]
    · rw [hchars, pieces_append_slash]
      rfl
  · refine ⟨pieces dir.chars, ?_, pieces_ne_nil dir.chars, .inl rfl⟩
    have hjoin : (dir.join name).chars = dir.chars ++ '/' :: name.toList := by
      unfold join
      split
      · simp_all
      · simp_all
      · rfl
    rw [hjoin, pieces_append_slash, hpieces]

theorem join_ne_nil (hname : IsName name) : (dir.join name).chars ≠ [] := by
  have hne : name.toList ≠ [] := hname.toList_ne (by simp [componentOf?])
  unfold join
  split <;> simp [hne]

theorem isAbsolute_join (hdir : dir.chars ≠ []) (name : String) :
    (dir.join name).isAbsolute = dir.isAbsolute := by
  obtain ⟨c, rest, hchars⟩ := List.exists_cons_of_ne_nil hdir
  unfold join
  split <;> simp [isAbsolute, hchars]

theorem components_join (hname : IsName name) :
    (dir.join name).components = dir.components ++ [.normal name] := by
  by_cases hdir : dir.chars = []
  · have hjoin : pieces (dir.join name).chars = [] ++ [name.toList] := by
      simp [join, hdir, pieces_of_noSlash hname.1]
    have habsolute : (dir.join name).isAbsolute = false := by
      have hhead : name.toList.head? ≠ some '/' := fun h => hname.1 (List.mem_of_mem_head? h)
      simp [isAbsolute, join, hdir, hhead]
    have hempty : dir.components = [] := by simp [components, isAbsolute, hdir, pieces, componentOf?]
    have hpoint : name.toList ≠ ['.'] := hname.toList_ne (by simp [componentOf?])
    rw [hempty]
    simp only [components, habsolute, hjoin, filterMap_append_name hname]
    simp [hpoint]
  · obtain ⟨init, hjoin, hinit, hdirPieces⟩ := pieces_join hdir hname
    have habsolute := isAbsolute_join hdir name
    have hnamed : (pieces (dir.join name).chars).filterMap componentOf? =
        (pieces dir.chars).filterMap componentOf? ++ [.normal name] := by
      rw [hjoin, filterMap_append_name hname]
      rcases hdirPieces with heq | heq
      · rw [heq]
      · rw [heq, List.filterMap_append, List.filterMap_cons_none rfl, List.filterMap_nil, List.append_nil]
    have hhead : (pieces (dir.join name).chars).head? = (pieces dir.chars).head? := by
      rw [hjoin, List.head?_append_of_ne_nil _ hinit]
      rcases hdirPieces with heq | heq
      · rw [heq]
      · rw [heq, List.head?_append_of_ne_nil _ hinit]
    simp only [components, habsolute, hnamed, hhead]
    split
    · rfl
    · split <;> rfl

/-- What names lead to has the components of the directory, followed by these names. -/
theorem components_below (hnames : ∀ name ∈ names, IsName name) :
    (dir.below names).components = dir.components ++ names.map .normal := by
  induction names generalizing dir with
  | nil => simp [below]
  | cons name names ih =>
    obtain ⟨hname, hnames⟩ := List.forall_mem_cons.mp hnames
    have hbelow : dir.below (name :: names) = (dir.join name).below names := rfl
    rw [hbelow, ih hnames, components_join hname, List.append_assoc, List.map_cons,
      List.singleton_append]

theorem below_injective {others : List String} (hnames : ∀ name ∈ names, IsName name)
    (hothers : ∀ name ∈ others, IsName name)
    (heq : (dir.below names).components = (dir.below others).components) : names = others := by
  rw [components_below hnames, components_below hothers, List.append_cancel_left_eq] at heq
  exact List.map_injective_iff.mpr (fun _ _ h => Component.normal.inj h) heq

end Path

end FocusLint
