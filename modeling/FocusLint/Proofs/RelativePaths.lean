import FocusLint.Proofs.PathTexts

/-!
Paths as seen from a directory.

As seen from a directory, the path of what some names lead to is these names with slashes between them, however the
directory is spelled (`relativeTo?_below`). Below the directory that is the same path again, letter by letter
(`join_relative`).

The components of the directory are taken from the path one by one (`dropComponents?_append`), and the rest is trimmed
(`relativeTo?_opened`), which leaves names as they are (`trim_relative`).
-/

namespace FocusLint

namespace Path

variable {path dir : Path} {name : String} {names : List String}

/-! ## Names with slashes between them -/

/-- The text of a directory before the names of its entries. -/
def opened (dir : Path) : List Char :=
  match dir.chars.getLast? with
  | none | some '/' => dir.chars
  | some _ => dir.chars ++ ['/']

def relative (names : List String) : Path := (⟨[]⟩ : Path).below names

theorem join_eq (dir : Path) (name : String) : dir.join name = ⟨dir.opened ++ name.toList⟩ := by
  unfold join opened
  cases dir.chars.getLast? with
  | none => rfl
  | some last => split <;> simp_all

theorem opened_append {b : List Char} (hb : b ≠ []) (a : List Char) : opened ⟨a ++ b⟩ = a ++ opened ⟨b⟩ := by
  unfold opened
  simp only [List.getLast?_append_of_ne_nil a hb]
  split <;> simp

theorem exists_opened (hdir : dir.chars ≠ []) :
    ∃ init, dir.opened = init ++ ['/'] ∧ (dir.chars = init ∨ dir.chars = init ++ ['/']) := by
  obtain ⟨init, last, hchars⟩ := (List.eq_nil_or_concat' dir.chars).resolve_left hdir
  by_cases hslash : last = '/'
  · refine ⟨init, ?_, .inr (hslash ▸ hchars)⟩
    simp [opened, hchars, hslash]
  · refine ⟨dir.chars, ?_, .inl rfl⟩
    unfold opened
    split <;> simp_all

theorem opened_name (hname : IsName name) : opened ⟨name.toList⟩ = name.toList ++ ['/'] := by
  have hne : (⟨name.toList⟩ : Path).chars ≠ [] := hname.toList_ne (by simp [componentOf?])
  obtain ⟨init, hopened, hinit | hinit⟩ := exists_opened hne
  · rw [hopened, ← hinit]
  · have hslash : '/' ∈ name.toList := by
      rw [show name.toList = init ++ ['/'] from hinit]
      exact List.mem_append_right init List.mem_cons_self
    exact absurd hslash hname.1

theorem relative_singleton (name : String) : (relative [name]).chars = name.toList := by
  simp [relative, below, join_eq, opened]

theorem below_eq (hnames : ∀ name ∈ names, IsName name) (hne : names ≠ []) (dir : Path) :
    dir.below names = ⟨dir.opened ++ (relative names).chars⟩ := by
  induction names generalizing dir with
  | nil => exact absurd rfl hne
  | cons name names ih =>
    obtain ⟨hname, hnames⟩ := List.forall_mem_cons.mp hnames
    have hbelow : ∀ dir : Path, dir.below (name :: names) = (dir.join name).below names := fun _ => rfl
    by_cases hnil : names = []
    · subst hnil
      rw [relative_singleton, ← join_eq]
      rfl
    · have hchars : name.toList ≠ [] := hname.toList_ne (by simp [componentOf?])
      have hrelative : relative (name :: names) = ⟨opened ⟨name.toList⟩ ++ (relative names).chars⟩ := by
        rw [relative, hbelow, join_eq, ih hnames hnil]
        rfl
      rw [hbelow, join_eq, ih hnames hnil, opened_append hchars, hrelative, List.append_assoc]

theorem relative_cons (hname : IsName name) (hnames : ∀ name ∈ names, IsName name) (hne : names ≠ []) :
    (relative (name :: names)).chars = name.toList ++ '/' :: (relative names).chars := by
  have hjoin : relative (name :: names) = (⟨name.toList⟩ : Path).below names := by
    rw [← relative_singleton]
    rfl
  rw [hjoin, below_eq hnames hne, opened_name hname, List.append_cons]
  simp

theorem join_relative (hnames : ∀ name ∈ names, IsName name) (hne : names ≠ []) (dir : Path) :
    dir.join (relative names).text = dir.below names := by
  rw [join_eq, below_eq hnames hne, text, String.toList_ofList]

/-! ## Trimming -/

theorem trimStart_piece {piece : List Char} {component : Component} (noSlash : '/' ∉ piece)
    (stands : componentOf? piece = some component) (behind : List Char) :
    trimStart (piece ++ behind) = piece ++ behind := by
  obtain ⟨hslash, hpointSlash, hpoint⟩ := piece_append_ne noSlash stands behind
  rw [trimStart.eq_def]
  split
  · next h => exact absurd h (hslash _)
  · next h => exact absurd h (hpointSlash _)
  · next h => exact absurd h hpoint
  · rfl

theorem trimBack_eq (text : List Char) : trimEnd.trimBack text = trimStart text := by
  fun_induction trimStart text with
  | case1 rest ih => rw [trimEnd.trimBack, ih]
  | case2 rest ih => rw [trimEnd.trimBack, ih]
  | case3 => rfl
  | case4 text hslash hpointSlash hpoint => rw [trimEnd.trimBack.eq_def]; split <;> simp_all

theorem trimStart_name (hname : IsName name) (behind : List Char) :
    trimStart (name.toList ++ behind) = name.toList ++ behind := trimStart_piece hname.1 hname.2 behind

theorem trimEnd_name (hname : IsName name) (before : List Char) :
    trimEnd (before ++ name.toList) = before ++ name.toList := by
  have hnone : componentOf? name.toList.reverse ≠ none := by
    rw [Ne, componentOf?_eq_none_iff, List.reverse_eq_nil_iff, List.reverse_eq_iff]
    have hsome := Option.ne_none_iff_exists'.mpr ⟨_, hname.2⟩
    rwa [Ne, componentOf?_eq_none_iff] at hsome
  obtain ⟨component, hcomponent⟩ := Option.ne_none_iff_exists'.mp hnone
  have hslash : '/' ∉ name.toList.reverse := fun h => hname.1 (List.mem_reverse.mp h)
  rw [trimEnd, trimBack_eq, List.reverse_append, trimStart_piece hslash hcomponent, ← List.reverse_append,
    List.reverse_reverse]

/-- Names with slashes between them start with a name and end with a name. -/
theorem exists_ends_relative (hnames : ∀ name ∈ names, IsName name) (hne : names ≠ []) :
    (∃ first behind, IsName first ∧ (relative names).chars = first.toList ++ behind) ∧
      ∃ before last, IsName last ∧ (relative names).chars = before ++ last.toList := by
  induction names with
  | nil => exact absurd rfl hne
  | cons name names ih =>
    obtain ⟨hname, hnames⟩ := List.forall_mem_cons.mp hnames
    by_cases hnil : names = []
    · subst hnil
      rw [relative_singleton]
      exact ⟨⟨name, [], hname, (List.append_nil _).symm⟩, [], name, hname, rfl⟩
    · obtain ⟨-, before, last, hlast, hchars⟩ := ih hnames hnil
      rw [relative_cons hname hnames hnil]
      refine ⟨⟨name, _, hname, rfl⟩, name.toList ++ '/' :: before, last, hlast, ?_⟩
      rw [hchars, List.append_assoc, List.cons_append]

theorem trim_relative (hnames : ∀ name ∈ names, IsName name) (hne : names ≠ []) :
    trimEnd (trimStart (relative names).chars) = (relative names).chars := by
  obtain ⟨⟨first, behind, hfirst, hstart⟩, before, last, hlast, hend⟩ := exists_ends_relative hnames hne
  have htrim : trimStart (relative names).chars = (relative names).chars := by
    rw [hstart, trimStart_name hfirst]
  rw [htrim, hend, trimEnd_name hlast]

theorem isAbsolute_relative (hnames : ∀ name ∈ names, IsName name) (hne : names ≠ []) :
    (relative names).isAbsolute = false := by
  obtain ⟨⟨first, behind, hfirst, hstart⟩, -⟩ := exists_ends_relative hnames hne
  obtain ⟨c, rest, hchars⟩ := List.exists_cons_of_ne_nil (hfirst.toList_ne (by simp [componentOf?]))
  have hc : c ≠ '/' := fun heq => hfirst.1 (by rw [hchars, heq]; exact List.mem_cons_self)
  simp [isAbsolute, hstart, hchars, hc]

/-! ## Components taken from the start -/

theorem trimStart_append {text : List Char} (h : named text = []) (behind : List Char) :
    trimStart (text ++ '/' :: behind) = trimStart behind := by
  induction start text with
  | nil => rfl
  | point => rfl
  | @slash rest _ ih => exact ih (named_slash rest ▸ h)
  | @pointSlash rest _ ih => exact ih (named_pointSlash rest ▸ h)
  | piece noSlash stands closes =>
    rw [named_piece noSlash stands closes] at h
    cases h

theorem takeComponent?_piece {piece behind : List Char} {component : Component} (noSlash : '/' ∉ piece)
    (stands : componentOf? piece = some component) (closes : Closes behind) :
    takeComponent? (piece ++ behind) = some (component, behind) := by
  have htake : (piece ++ behind).takeWhile (· ≠ '/') = piece := by
    have hpiece : ∀ c ∈ piece, decide (c ≠ '/') = true := by
      intro c hc
      exact decide_eq_true fun heq => noSlash (heq ▸ hc)
    rw [List.takeWhile_append_of_pos hpiece]
    rcases closes with rfl | ⟨rest, rfl⟩ <;> simp
  simp only [takeComponent?, trimStart_piece noSlash stands, htake, stands, Option.map_some, List.drop_left]

theorem takeComponent?_append {text : List Char} {component : Component} {components : List Component}
    (h : named text = component :: components) (behind : List Char) :
    ∃ rest, takeComponent? (text ++ '/' :: behind) = some (component, rest ++ '/' :: behind) ∧
      named rest = components := by
  induction start text with
  | nil => cases h
  | point => cases h
  | @slash rest _ ih => exact ih (named_slash rest ▸ h)
  | @pointSlash rest _ ih => exact ih (named_pointSlash rest ▸ h)
  | @piece piece rest first noSlash stands closes =>
    rw [named_piece noSlash stands closes] at h
    obtain ⟨rfl, rfl⟩ := List.cons.inj h
    refine ⟨rest, ?_, rfl⟩
    rw [List.append_assoc]
    exact takeComponent?_piece noSlash stands (closes.append_slash behind)

theorem dropComponents?_append (text behind : List Char) :
    dropComponents? (named text) (text ++ '/' :: behind) = some (trimEnd (trimStart behind)) := by
  generalize hnamed : named text = components
  induction components generalizing text with
  | nil => rw [dropComponents?, trimStart_append hnamed]
  | cons component components ih =>
    obtain ⟨rest, htake, hrest⟩ := takeComponent?_append hnamed behind
    rw [dropComponents?, htake]
    exact (if_pos rfl).trans (ih rest hrest)

theorem takeFirst?_piece {piece : List Char} {component : Component} (noSlash : '/' ∉ piece)
    (stands : componentOf? piece = some component) (behind : List Char) :
    takeFirst? (piece ++ behind) = takeComponent? (piece ++ behind) := by
  obtain ⟨hslash, hpointSlash, hpoint⟩ := piece_append_ne noSlash stands behind
  unfold takeFirst?
  split
  · next h => exact absurd h (hslash _)
  · next h => exact absurd h hpoint
  · next h => exact absurd h (hpointSlash _)
  · rfl

theorem components_of_piece {piece behind : List Char} (noSlash : '/' ∉ piece) (hne : piece ≠ [])
    (closes : Closes behind) (hpath : path.chars = piece ++ behind) :
    path.components = if piece = ['.'] then .current :: named path.chars else named path.chars := by
  have habsolute : path.isAbsolute = false := by
    obtain ⟨c, piece, rfl⟩ := List.exists_cons_of_ne_nil hne
    rw [List.mem_cons, not_or] at noSlash
    simp [isAbsolute, hpath, Ne.symm noSlash.1]
  have hhead : (pieces path.chars).head? = some piece := by
    rw [hpath]
    rcases closes with rfl | ⟨rest, rfl⟩
    · rw [List.append_nil, pieces_of_noSlash noSlash, List.head?_singleton]
    · rw [pieces_append_slash, pieces_of_noSlash noSlash, List.singleton_append, List.head?_cons]
  simp [components, habsolute, hhead, named]

theorem components_of_slash {rest : List Char} (hpath : path.chars = '/' :: rest) :
    path.components = .root :: named path.chars := by
  simp [components, isAbsolute, hpath, named]

/-- The components of a directory are taken from a path one by one, the first one with the start of the path. -/
theorem relativeTo?_of_takeFirst? {component : Component} {components : List Component} {rest : List Char}
    (hdir : dir.components = component :: components) (hpath : takeFirst? path.chars = some (component, rest)) :
    path.relativeTo? dir = (dropComponents? components rest).map Path.mk := by
  simp only [relativeTo?, hdir, hpath, reduceIte]

theorem relativeTo?_opened (hdir : dir.chars ≠ []) (behind : List Char) :
    (⟨dir.opened ++ behind⟩ : Path).relativeTo? dir = some ⟨trimEnd (trimStart behind)⟩ := by
  obtain ⟨init, hopened, hinit⟩ := exists_opened hdir
  rw [hopened, List.append_assoc, List.singleton_append]
  have hnamed : named dir.chars = named init := by
    rcases hinit with h | h
    · rw [h]
    · rw [h, named_append_slash, named_nil, List.append_nil]
  -- Behind its start, the text of the directory is taken component by component.
  have hdrop : ∀ text, (dropComponents? (named text) (text ++ '/' :: behind)).map Path.mk =
      some ⟨trimEnd (trimStart behind)⟩ := by
    intro text
    rw [dropComponents?_append, Option.map_some]
  have hcloses : ∀ piece rest, init = piece ++ rest → Closes rest →
      ∃ behind, dir.chars = piece ++ behind ∧ Closes behind := by
    intro piece rest heq closes
    rcases hinit with h | h
    · exact ⟨rest, h.trans heq, closes⟩
    · exact ⟨rest ++ ['/'], by rw [h, heq, List.append_assoc], closes.append_slash []⟩
  cases start init with
  | nil =>
    have hslash : dir.chars = ['/'] := hinit.resolve_left hdir
    rw [relativeTo?_of_takeFirst? (components_of_slash hslash) rfl, hnamed, named_nil, dropComponents?,
      Option.map_some]
  | @slash rest _ =>
    have hslash : ∃ rest, dir.chars = '/' :: rest := by
      rcases hinit with h | h
      · exact ⟨_, h⟩
      · exact ⟨_, h⟩
    obtain ⟨_, hslash⟩ := hslash
    rw [relativeTo?_of_takeFirst? (components_of_slash hslash) rfl, hnamed, named_slash]
    exact hdrop rest
  | point =>
    obtain ⟨others, hchars, closes⟩ := hcloses ['.'] [] rfl (.inl rfl)
    have hcomponents := components_of_piece (by decide) (by decide) closes hchars
    rw [if_pos rfl, hnamed] at hcomponents
    rw [relativeTo?_of_takeFirst? hcomponents rfl]
    exact hdrop []
  | @pointSlash rest _ =>
    obtain ⟨others, hchars, closes⟩ := hcloses ['.'] ('/' :: rest) rfl (.inr ⟨rest, rfl⟩)
    have hcomponents := components_of_piece (by decide) (by decide) closes hchars
    rw [if_pos rfl, hnamed, named_pointSlash, ← named_slash] at hcomponents
    rw [relativeTo?_of_takeFirst? hcomponents rfl]
    exact hdrop ('/' :: rest)
  | @piece piece rest component noSlash stands closes =>
    obtain ⟨others, hchars, hothers⟩ := hcloses piece rest rfl closes
    obtain ⟨hnil, hpoint⟩ := ne_of_componentOf? stands
    have hcomponents := components_of_piece noSlash hnil hothers hchars
    rw [if_neg hpoint, hnamed, named_piece noSlash stands closes] at hcomponents
    have htake : takeFirst? (piece ++ rest ++ '/' :: behind) = some (component, rest ++ '/' :: behind) := by
      rw [List.append_assoc, takeFirst?_piece noSlash stands,
        takeComponent?_piece noSlash stands (closes.append_slash behind)]
    rw [relativeTo?_of_takeFirst? hcomponents htake]
    exact hdrop rest

/-- As seen from a directory, what some names lead to below it is these names with slashes between them. -/
theorem relativeTo?_below (hnames : ∀ name ∈ names, IsName name) (hne : names ≠ []) (hdir : dir.chars ≠ []) :
    (dir.below names).relativeTo? dir = some (relative names) := by
  rw [below_eq hnames hne, relativeTo?_opened hdir, trim_relative hnames hne]

end Path

end FocusLint
