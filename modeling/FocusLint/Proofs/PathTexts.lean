import Mathlib.Data.List.Basic
import FocusLint.Proofs.Paths

/-!
The components of a path and where they stand in its text.

A name is among the components of a path if it stands somewhere between slashes (`mem_components_iff`). A path ends in
a name if nothing but padding stands behind it, which is slashes and the points right behind them
(`fileName?_eq_some_iff`).

How a text starts is told by `Start`: with a piece that stands for a component, perhaps behind slashes and points that
stand for nothing, or there is no such piece.
-/

namespace FocusLint

namespace Path

variable {path : Path} {name : String}

/-! ## Pieces and the text around them -/

theorem eq_of_pieces_eq_singleton {text piece : List Char} (h : pieces text = [piece]) : text = piece := by
  induction text generalizing piece with
  | nil => exact List.singleton_inj.mp h
  | cons c rest ih =>
    obtain ⟨first, others, hrest⟩ := List.exists_cons_of_ne_nil (pieces_ne_nil rest)
    rw [pieces, hrest] at h
    split at h
    · cases h
    · cases h
      rw [ih hrest]

theorem noSlash_of_mem_pieces {text piece : List Char} (h : piece ∈ pieces text) : '/' ∉ piece := by
  induction text generalizing piece with
  | nil =>
    rw [List.mem_singleton.mp h]
    exact List.not_mem_nil
  | cons c rest ih =>
    obtain ⟨first, others, hrest⟩ := List.exists_cons_of_ne_nil (pieces_ne_nil rest)
    rw [hrest] at ih
    rw [pieces, hrest] at h
    split at h
    · rcases List.mem_cons.mp h with rfl | h
      · exact List.not_mem_nil
      · exact ih h
    · next hc =>
      rcases List.mem_cons.mp h with rfl | h
      · rw [List.mem_cons, not_or]
        exact ⟨Ne.symm hc, ih List.mem_cons_self⟩
      · exact ih (List.mem_cons_of_mem first h)

theorem exists_slash_of_pieces {text : List Char} {before behind : List (List Char)}
    (h : pieces text = before ++ behind) (hbefore : before ≠ []) (hbehind : behind ≠ []) :
    ∃ a b, text = a ++ '/' :: b ∧ pieces a = before ∧ pieces b = behind := by
  induction text generalizing before with
  | nil =>
    have hlength := congrArg List.length h
    rw [pieces, List.length_append, List.length_singleton] at hlength
    have := List.length_pos_of_ne_nil hbefore
    have := List.length_pos_of_ne_nil hbehind
    omega
  | cons c rest ih =>
    obtain ⟨first, before, rfl⟩ := List.exists_cons_of_ne_nil hbefore
    obtain ⟨piece, others, hrest⟩ := List.exists_cons_of_ne_nil (pieces_ne_nil rest)
    rw [pieces, List.cons_append] at h
    by_cases hc : c = '/'
    · subst hc
      rw [if_pos rfl, List.cons.injEq] at h
      obtain ⟨rfl, h⟩ := h
      by_cases hnil : before = []
      · subst hnil
        exact ⟨[], rest, rfl, rfl, h⟩
      · obtain ⟨a, b, rfl, ha, hb⟩ := ih h hnil
        exact ⟨'/' :: a, b, rfl, by rw [pieces, if_pos rfl, ha], hb⟩
    · rw [if_neg hc, hrest] at h
      obtain ⟨rfl, rfl⟩ := List.cons.inj h
      obtain ⟨a, b, rfl, ha, hb⟩ := ih (hrest.trans List.cons_append.symm) (List.cons_ne_nil _ _)
      exact ⟨c :: a, b, rfl, by rw [pieces, if_neg hc, ha], hb⟩

/-- A text ends where a piece of a path may start: it is empty or ends with a slash. -/
def Opens (before : List Char) : Prop := before = [] ∨ ∃ init, before = init ++ ['/']

/-- A text starts where a piece of a path may end: it is empty or starts with a slash. -/
def Closes (behind : List Char) : Prop := behind = [] ∨ ∃ rest, behind = '/' :: rest

theorem Closes.append_slash {behind : List Char} (h : Closes behind) (text : List Char) :
    Closes (behind ++ '/' :: text) := by
  rcases h with rfl | ⟨rest, rfl⟩
  · exact .inr ⟨text, rfl⟩
  · exact .inr ⟨rest ++ '/' :: text, rfl⟩

/-- A piece of a text stands between slashes or the ends of the text, and behind it are the other pieces. -/
theorem exists_opens_of_pieces {text piece : List Char} {before behind : List (List Char)}
    (h : pieces text = before ++ piece :: behind) :
    ∃ a b, text = a ++ piece ++ b ∧ Opens a ∧
      (b = [] ∧ behind = [] ∨ ∃ rest, b = '/' :: rest ∧ pieces rest = behind) := by
  -- What stands behind the piece is cut off first.
  obtain ⟨start, b, htext, hstart, hb⟩ : ∃ start b, text = start ++ b ∧ pieces start = before ++ [piece] ∧
      (b = [] ∧ behind = [] ∨ ∃ rest, b = '/' :: rest ∧ pieces rest = behind) := by
    by_cases hbehind : behind = []
    · subst hbehind
      exact ⟨text, [], (List.append_nil text).symm, h, .inl ⟨rfl, rfl⟩⟩
    · rw [List.append_cons] at h
      obtain ⟨start, rest, rfl, hstart, hrest⟩ := exists_slash_of_pieces h (by simp) hbehind
      exact ⟨start, '/' :: rest, rfl, hstart, .inr ⟨rest, rfl, hrest⟩⟩
  by_cases hbefore : before = []
  · subst hbefore
    rw [eq_of_pieces_eq_singleton hstart] at htext
    exact ⟨[], b, htext, .inl rfl, hb⟩
  · obtain ⟨init, last, rfl, -, hlast⟩ := exists_slash_of_pieces hstart hbefore (List.cons_ne_nil _ _)
    rw [eq_of_pieces_eq_singleton hlast] at htext
    exact ⟨init ++ ['/'], b, by simp [htext], .inr ⟨init, rfl⟩, hb⟩

/-- Behind a text that opens a piece, pieces are those that they are without it. -/
theorem Opens.exists_pieces {before : List Char} (h : Opens before) (text : List Char) :
    ∃ init, pieces (before ++ text) = init ++ pieces text := by
  rcases h with rfl | ⟨init, rfl⟩
  · exact ⟨[], rfl⟩
  · refine ⟨pieces init, ?_⟩
    rw [List.append_assoc, List.singleton_append, pieces_append_slash]

/-! ## Components -/

/-- The components that the pieces of a text stand for wherever they are. -/
def named (text : List Char) : List Component := (pieces text).filterMap componentOf?

theorem named_nil : named [] = [] := rfl

theorem named_append_slash (a b : List Char) : named (a ++ '/' :: b) = named a ++ named b := by
  rw [named, pieces_append_slash, List.filterMap_append, ← named, ← named]

theorem named_slash (text : List Char) : named ('/' :: text) = named text := named_append_slash [] text

/-- The components of a path are those of its pieces, perhaps behind the root or the current directory. -/
theorem components_eq (path : Path) : path.components = .root :: named path.chars ∨
    path.components = .current :: named path.chars ∨ path.components = named path.chars := by
  rw [components]
  split
  · exact .inl rfl
  · split
    · exact .inr (.inl rfl)
    · exact .inr (.inr rfl)

theorem componentOf?_eq_none_iff {piece : List Char} : componentOf? piece = none ↔ piece = [] ∨ piece = ['.'] := by
  unfold componentOf?
  split <;> simp_all

theorem ne_of_componentOf? {piece : List Char} {component : Component} (h : componentOf? piece = some component) :
    piece ≠ [] ∧ piece ≠ ['.'] := by
  rw [← not_or, ← componentOf?_eq_none_iff, h]
  exact Option.some_ne_none component

theorem componentOf?_eq_normal {piece : List Char} (h : componentOf? piece = some (.normal name)) :
    piece = name.toList := by
  unfold componentOf? at h
  split at h
  case h_4 =>
    cases h
    exact String.toList_ofList.symm
  all_goals simp_all

/-- A name stands somewhere in a path, between slashes or the ends of the path. -/
def Holds (path : Path) (name : String) : Prop :=
  ∃ before behind, path.chars = before ++ name.toList ++ behind ∧ Opens before ∧ Closes behind

theorem mem_components_iff (hname : IsName name) : .normal name ∈ path.components ↔ path.Holds name := by
  have hnamed : .normal name ∈ path.components ↔ .normal name ∈ named path.chars := by
    rcases path.components_eq with h | h | h <;> simp [h]
  rw [hnamed, named, List.mem_filterMap]
  constructor
  · rintro ⟨piece, hpiece, hcomponent⟩
    rw [componentOf?_eq_normal hcomponent] at hpiece
    obtain ⟨init, others, hpieces⟩ := List.append_of_mem hpiece
    obtain ⟨before, behind, hchars, hopens, hbehind⟩ := exists_opens_of_pieces hpieces
    exact ⟨before, behind, hchars, hopens, hbehind.imp And.left fun ⟨rest, hrest, _⟩ => ⟨rest, hrest⟩⟩
  · rintro ⟨before, behind, hchars, hopens, hbehind⟩
    refine ⟨name.toList, ?_, hname.2⟩
    obtain ⟨init, hpieces⟩ := hopens.exists_pieces (name.toList ++ behind)
    rw [hchars, List.append_assoc, hpieces]
    rcases hbehind with rfl | ⟨rest, rfl⟩
    · simp [pieces_of_noSlash hname.1]
    · simp [pieces_append_slash, pieces_of_noSlash hname.1]

/-! ## How a text starts -/

/-- How the text of a path can start, as it is read behind slashes and behind points with slashes. -/
inductive Start : List Char → Prop
  | nil : Start []
  | point : Start ['.']
  | slash {rest : List Char} (others : Start rest) : Start ('/' :: rest)
  | pointSlash {rest : List Char} (others : Start rest) : Start ('.' :: '/' :: rest)
  | piece {piece behind : List Char} {component : Component} (noSlash : '/' ∉ piece)
      (stands : componentOf? piece = some component) (closes : Closes behind) : Start (piece ++ behind)

theorem exists_piece (text : List Char) : ∃ piece behind, text = piece ++ behind ∧ '/' ∉ piece ∧ Closes behind := by
  induction text with
  | nil => exact ⟨[], [], rfl, List.not_mem_nil, .inl rfl⟩
  | cons c rest ih =>
    by_cases hc : c = '/'
    · exact ⟨[], c :: rest, rfl, List.not_mem_nil, .inr ⟨rest, by rw [hc]⟩⟩
    · obtain ⟨piece, behind, rfl, hpiece, hbehind⟩ := ih
      refine ⟨c :: piece, behind, rfl, ?_, hbehind⟩
      rw [List.mem_cons, not_or]
      exact ⟨Ne.symm hc, hpiece⟩

theorem start (text : List Char) : Start text := by
  obtain ⟨piece, behind, rfl, hpiece, hbehind⟩ := exists_piece text
  cases hcomponent : componentOf? piece with
  | some component => exact .piece hpiece hcomponent hbehind
  | none =>
    rcases componentOf?_eq_none_iff.mp hcomponent with rfl | rfl <;> rcases hbehind with rfl | ⟨rest, rfl⟩
    · exact .nil
    · exact .slash (start rest)
    · exact .point
    · exact .pointSlash (start rest)
termination_by text.length
decreasing_by all_goals grind

theorem named_pointSlash (text : List Char) : named ('.' :: '/' :: text) = named text :=
  named_append_slash ['.'] text

theorem named_piece {piece behind : List Char} {component : Component} (noSlash : '/' ∉ piece)
    (stands : componentOf? piece = some component) (closes : Closes behind) :
    named (piece ++ behind) = component :: named behind := by
  have hpiece : named piece = [component] := by
    rw [named, pieces_of_noSlash noSlash, List.filterMap_cons_some stands, List.filterMap_nil]
  rcases closes with rfl | ⟨rest, rfl⟩
  · rw [List.append_nil, hpiece, named_nil]
  · rw [named_append_slash, hpiece, named_slash, List.singleton_append]

theorem piece_append_ne {piece : List Char} {component : Component} (noSlash : '/' ∉ piece)
    (stands : componentOf? piece = some component) (behind : List Char) :
    (∀ rest, piece ++ behind ≠ '/' :: rest) ∧ (∀ rest, piece ++ behind ≠ '.' :: '/' :: rest) ∧
      piece ++ behind ≠ ['.'] := by
  obtain ⟨hne, hpoint⟩ := ne_of_componentOf? stands
  obtain ⟨c, piece, rfl⟩ := List.exists_cons_of_ne_nil hne
  rw [List.mem_cons, not_or] at noSlash
  refine ⟨fun rest h => noSlash.1 (List.cons.inj h).1.symm, fun rest h => ?_, fun h => ?_⟩
  · obtain ⟨rfl, hrest⟩ := List.cons.inj h
    have hpiece : piece ≠ [] := fun hnil => hpoint (by rw [hnil])
    obtain ⟨second, piece, rfl⟩ := List.exists_cons_of_ne_nil hpiece
    exact noSlash.2 ((List.cons.inj hrest).1 ▸ List.mem_cons_self)
  · obtain ⟨rfl, hnil⟩ := List.cons.inj h
    exact hpoint (by rw [(List.append_eq_nil_iff.mp hnil).1])

/-! ## The name at the end -/

/-- What may stand behind the name at the end of a path: slashes, and points right behind a slash. -/
inductive Padding : List Char → Prop
  | nil : Padding []
  | slash {rest : List Char} (padding : Padding rest) : Padding ('/' :: rest)
  | point {rest : List Char} (padding : Padding rest) : Padding ('/' :: '.' :: rest)

/-- A name is the last one in a path, with nothing but padding behind it. -/
def EndsIn (path : Path) (name : String) : Prop :=
  ∃ before behind, path.chars = before ++ name.toList ++ behind ∧ Opens before ∧ Padding behind

theorem named_append_padding {text behind : List Char} (h : Padding behind) :
    named (text ++ behind) = named text := by
  induction h generalizing text with
  | nil => rw [List.append_nil]
  | @slash rest _ ih =>
    rw [List.append_cons, ih, named_append_slash, named_nil, List.append_nil]
  | @point rest _ ih =>
    have hassoc : text ++ '/' :: '.' :: rest = (text ++ '/' :: ['.']) ++ rest := by simp
    have hpoint : named ['.'] = [] := rfl
    rw [hassoc, ih, named_append_slash, hpoint, List.append_nil]

/-- Behind a slash, pieces that stand for nothing are padding. -/
theorem padding_of_named_eq_nil {text : List Char} (h : named text = []) : Padding ('/' :: text) := by
  induction start text with
  | nil => exact .slash .nil
  | point => exact .point .nil
  | @slash rest _ ih => exact .slash (ih (named_slash rest ▸ h))
  | @pointSlash rest _ ih => exact .point (ih (named_pointSlash rest ▸ h))
  | piece noSlash stands closes =>
    rw [named_piece noSlash stands closes] at h
    cases h

/-- The name at the end is that of the last piece that stands for a component. -/
theorem fileName?_eq_some_iff_named :
    path.fileName? = some name ↔ (named path.chars).getLast? = some (.normal name) := by
  have hname : path.fileName? = some name ↔ path.components.getLast? = some (.normal name) := by
    unfold fileName?
    split <;> simp_all
  have hcons : ∀ component, component ≠ .normal name →
      ((component :: named path.chars).getLast? = some (.normal name) ↔
        (named path.chars).getLast? = some (.normal name)) := by
    intro component hne
    rw [List.getLast?_cons]
    cases (named path.chars).getLast? <;> simp [hne]
  rw [hname]
  rcases path.components_eq with h | h | h
  · rw [h, hcons .root (by simp)]
  · rw [h, hcons .current (by simp)]
  · rw [h]

/-- The name of the file at a path is a name in which the path ends. -/
theorem fileName?_eq_some_iff : path.fileName? = some name ↔ IsName name ∧ path.EndsIn name := by
  rw [fileName?_eq_some_iff_named]
  constructor
  · intro hlast
    obtain ⟨init, hnamed⟩ := List.getLast?_eq_some_iff.mp hlast
    obtain ⟨before, others, hpieces, -, hothers⟩ := List.filterMap_eq_append_iff.mp hnamed
    obtain ⟨idle, piece, behind, rfl, -, hcomponent, hbehind⟩ := List.filterMap_eq_cons_iff.mp hothers
    rw [← List.append_assoc] at hpieces
    have hpiece := componentOf?_eq_normal hcomponent
    subst hpiece
    have hmem : name.toList ∈ pieces path.chars := by simp [hpieces]
    refine ⟨⟨noSlash_of_mem_pieces hmem, hcomponent⟩, ?_⟩
    obtain ⟨a, b, hchars, hopens, hrest⟩ := exists_opens_of_pieces hpieces
    refine ⟨a, b, hchars, hopens, ?_⟩
    rcases hrest with ⟨rfl, -⟩ | ⟨rest, rfl, rfl⟩
    · exact .nil
    · exact padding_of_named_eq_nil hbehind
  · rintro ⟨hname, before, behind, hchars, hopens, hpadding⟩
    obtain ⟨init, hpieces⟩ := hopens.exists_pieces name.toList
    rw [hchars, named_append_padding hpadding, named, hpieces, pieces_of_noSlash hname.1,
      filterMap_append_name hname, List.getLast?_concat]

end Path

end FocusLint
