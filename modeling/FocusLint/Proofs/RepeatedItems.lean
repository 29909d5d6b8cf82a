import Mathlib.Data.List.Nodup
import FocusLint.Options

/-!
Which item a list names twice.

Main statement: `validate_names_first_repeat`. Options pass the check exactly if neither of their lists has an item
twice. If one has, the check names the list, the block list before the focus list, and the item at the first
position of that list whose item stands at an earlier one too.

The check goes through a list with the items it has seen. What it says of a list is what it says of the front of it,
or else of the rest when the front has been seen (`firstRepeat_append`), so that a list with a repeat is split in
front of the item that is named.
-/

namespace FocusLint

/-! ## Positions -/

/-- An item stands at a position, and at an earlier one already. -/
def RepeatsAt (items : List String) (position : Nat) (item : String) : Prop :=
  items[position]? = some item ∧ ∃ earlier, earlier < position ∧ items[earlier]? = some item

/-- An item stands at the first position whose item stands at an earlier one already. -/
def IsFirstRepeat (items : List String) (item : String) : Prop :=
  ∃ position, RepeatsAt items position item ∧ ∀ before < position, ∀ other, ¬ RepeatsAt items before other

variable {seen before behind items : List String} {item : String}

theorem nodup_iff_not_repeatsAt : items.Nodup ↔ ∀ position other, ¬ RepeatsAt items position other := by
  rw [List.nodup_iff_getElem?_ne_getElem?]
  constructor
  · rintro h position other ⟨hother, earlier, hlt, hearlier⟩
    have hbound : position < items.length := (List.getElem?_eq_some_iff.mp hother).1
    exact h earlier position hlt hbound (hearlier.trans hother.symm)
  · intro h earlier position hlt hbound hsame
    have hother := List.getElem?_eq_getElem hbound
    exact h position _ ⟨hother, earlier, hlt, hsame.trans hother⟩

theorem repeatsAt_append_iff {position : Nat} {other : String} (h : position < before.length) :
    RepeatsAt (before ++ behind) position other ↔ RepeatsAt before position other := by
  unfold RepeatsAt
  rw [List.getElem?_append_left h]
  refine and_congr_right fun _ => exists_congr fun earlier => and_congr_right fun hlt => ?_
  rw [List.getElem?_append_left (Nat.lt_trans hlt h)]

theorem not_repeatsAt_front_iff :
    (∀ position < before.length, ∀ other, ¬ RepeatsAt (before ++ behind) position other) ↔ before.Nodup := by
  rw [nodup_iff_not_repeatsAt]
  constructor
  · rintro h position other ⟨hother, hearlier⟩
    have hbound : position < before.length := (List.getElem?_eq_some_iff.mp hother).1
    exact h position hbound other ((repeatsAt_append_iff hbound).mpr ⟨hother, hearlier⟩)
  · intro h position hbound other hrepeats
    exact h position other ((repeatsAt_append_iff hbound).mp hrepeats)

/-- A list is split in front of its first repeat: what stands before it has no item twice, and has this one. -/
theorem isFirstRepeat_iff : IsFirstRepeat items item ↔
    ∃ before behind, items = before ++ item :: behind ∧ before.Nodup ∧ item ∈ before := by
  constructor
  · rintro ⟨position, ⟨hitem, earlier, hlt, hearlier⟩, hfirst⟩
    obtain ⟨before, behind, rfl, rfl⟩ :
        ∃ before behind, items = before ++ item :: behind ∧ before.length = position := by
      obtain ⟨hbound, rfl⟩ := List.getElem?_eq_some_iff.mp hitem
      refine ⟨items.take position, items.drop (position + 1), ?_, List.length_take_of_le (Nat.le_of_lt hbound)⟩
      rw [← List.drop_eq_getElem_cons hbound, List.take_append_drop]
    rw [List.getElem?_append_left hlt] at hearlier
    exact ⟨before, behind, rfl, not_repeatsAt_front_iff.mp hfirst, List.mem_of_getElem? hearlier⟩
  · rintro ⟨before, behind, rfl, hnodup, hmem⟩
    obtain ⟨earlier, hlt, hearlier⟩ := List.getElem_of_mem hmem
    refine ⟨before.length, ⟨by simp, earlier, hlt, ?_⟩, not_repeatsAt_front_iff.mpr hnodup⟩
    rw [List.getElem?_append_left hlt, List.getElem?_eq_getElem hlt, hearlier]

theorem isFirstRepeat_nil : ¬ IsFirstRepeat [] item := by
  rintro ⟨position, ⟨hitem, -⟩, -⟩
  simp at hitem

/-! ## The check of a list -/

theorem firstRepeat_eq_none_iff :
    firstRepeat seen items = none ↔ items.Nodup ∧ ∀ item ∈ items, item ∉ seen := by
  induction items generalizing seen with
  | nil => simp [firstRepeat]
  | cons item others ih =>
    by_cases hseen : item ∈ seen
    · simp [firstRepeat, hseen]
    · rw [firstRepeat, if_neg (by simpa using hseen), ih, List.nodup_cons, List.forall_mem_cons]
      constructor
      · rintro ⟨hnodup, hapart⟩
        refine ⟨⟨fun hmem => hapart item hmem List.mem_cons_self, hnodup⟩, hseen, ?_⟩
        exact fun other hmem hother => hapart other hmem (List.mem_cons_of_mem item hother)
      · rintro ⟨⟨hnew, hnodup⟩, -, hapart⟩
        refine ⟨hnodup, fun other hmem hother => ?_⟩
        rcases List.mem_cons.mp hother with rfl | hother
        · exact hnew hmem
        · exact hapart other hmem hother

/-- The check goes on behind the front of a list with the items seen there. -/
theorem firstRepeat_append (seen before behind : List String) :
    firstRepeat seen (before ++ behind) =
      (firstRepeat seen before).or (firstRepeat (before.reverse ++ seen) behind) := by
  induction before generalizing seen with
  | nil => rfl
  | cons item others ih =>
    rw [List.cons_append, firstRepeat, firstRepeat]
    by_cases hseen : seen.contains item = true
    · rw [if_pos hseen, if_pos hseen]
      rfl
    · rw [if_neg hseen, if_neg hseen, ih, List.reverse_cons, List.append_assoc]
      rfl

theorem firstRepeat_eq_some_iff : firstRepeat seen items = some item ↔
    ∃ before behind, items = before ++ item :: behind ∧ firstRepeat seen before = none ∧
      (item ∈ seen ∨ item ∈ before) := by
  constructor
  · intro h
    induction items generalizing seen with
    | nil => cases h
    | cons first others ih =>
      rw [firstRepeat] at h
      split at h
      · next hseen =>
        cases h
        exact ⟨[], others, rfl, rfl, .inl (List.contains_iff_mem.mp hseen)⟩
      · next hseen =>
        obtain ⟨before, behind, rfl, hpassed, hmem⟩ := ih h
        refine ⟨first :: before, behind, rfl, ?_, ?_⟩
        · rw [firstRepeat, if_neg hseen, hpassed]
        · simpa [or_comm, or_left_comm, or_assoc] using hmem
  · rintro ⟨before, behind, rfl, hpassed, hmem⟩
    have hseen : (before.reverse ++ seen).contains item = true := by
      simpa [or_comm] using hmem
    rw [firstRepeat_append, hpassed, Option.none_or, firstRepeat, if_pos hseen]

theorem firstRepeat_nil_eq_some_iff : firstRepeat [] items = some item ↔ IsFirstRepeat items item := by
  rw [firstRepeat_eq_some_iff, isFirstRepeat_iff]
  simp [firstRepeat_eq_none_iff]

/-! ## The check of options -/

variable {key found : OptionKey} {list : Option (List String)} {options : RuleOptions}

theorem checkUnique_eq_ok_iff : checkUnique key list = .ok () ↔ (list.getD []).Nodup := by
  cases list with
  | none => simp [checkUnique]
  | some items =>
    have hrepeat : firstRepeat [] items = none ↔ items.Nodup := by simp [firstRepeat_eq_none_iff]
    rw [Option.getD_some, ← hrepeat]
    cases h : firstRepeat [] items <;> simp [checkUnique, h]

theorem checkUnique_eq_error_iff : checkUnique key list = .error ⟨found, item⟩ ↔
    found = key ∧ IsFirstRepeat (list.getD []) item := by
  cases list with
  | none => simp [checkUnique, isFirstRepeat_nil]
  | some items =>
    rw [Option.getD_some, ← firstRepeat_nil_eq_some_iff]
    cases h : firstRepeat [] items <;> simp [checkUnique, h, eq_comm]

/-- The focus list is looked at once the block list has passed. -/
theorem RuleOptions.validate_of_block_ok (h : checkUnique .block options.block = .ok ()) :
    options.validate = checkUnique .focus options.focus := by
  rw [validate, h]
  rfl

theorem RuleOptions.validate_of_block_error {duplicate : DuplicateItem}
    (h : checkUnique .block options.block = .error duplicate) : options.validate = .error duplicate := by
  rw [validate, h]
  rfl

theorem RuleOptions.validate_eq_ok_iff : options.validate = .ok () ↔
    (options.block.getD []).Nodup ∧ (options.focus.getD []).Nodup := by
  rw [← @checkUnique_eq_ok_iff .block, ← @checkUnique_eq_ok_iff .focus]
  cases h : checkUnique .block options.block with
  | error duplicate => simp [validate_of_block_error h]
  | ok _ => simp [validate_of_block_ok h]

def RuleOptions.given (options : RuleOptions) : OptionKey → List String
  | .block => options.block.getD []
  | .focus => options.focus.getD []

/-- **A check finds every repeated name, and names the first one.** Options pass if and only if neither list has an
item twice, where a list that is not given has no items, and an item may be in both lists. If they do not pass, the
list that is named is the block list if that has an item twice, and else the focus list; the item that is named is
the one at the first position of that list whose item stands at an earlier position too. -/
theorem RuleOptions.validate_names_first_repeat (options : RuleOptions) :
    (options.validate = .ok () ↔ ∀ key, (options.given key).Nodup) ∧
    ∀ key item, options.validate = .error ⟨key, item⟩ ↔
      key = (if (options.given .block).Nodup then .focus else .block) ∧
      IsFirstRepeat (options.given key) item := by
  constructor
  · rw [validate_eq_ok_iff]
    constructor
    · rintro ⟨hblock, hfocus⟩ key
      cases key with
      | block => exact hblock
      | focus => exact hfocus
    · intro h
      exact ⟨h .block, h .focus⟩
  · intro key item
    cases hcheck : checkUnique .block options.block with
    | ok _ =>
      have hnodup : (options.given .block).Nodup := checkUnique_eq_ok_iff.mp hcheck
      rw [validate_of_block_ok hcheck, checkUnique_eq_error_iff, if_pos hnodup]
      refine and_congr_right fun hkey => ?_
      rw [hkey]
      rfl
    | error duplicate =>
      have hrepeats : ¬ (options.given .block).Nodup := by
        intro hnodup
        have hpassed : checkUnique .block options.block = .ok () := checkUnique_eq_ok_iff.mpr hnodup
        rw [hcheck] at hpassed
        cases hpassed
      rw [validate_of_block_error hcheck, ← hcheck, checkUnique_eq_error_iff, if_neg hrepeats]
      refine and_congr_right fun hkey => ?_
      rw [hkey]
      rfl

end FocusLint
