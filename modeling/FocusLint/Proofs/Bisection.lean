import FocusLint.LineIndex

/-!
Where bisection ends.

In an increasing array the elements that are at most a value come first, and their number is the rank of the
value (`Ranks`). Halving keeps the last of them in the part that is left (`narrow_eq`), so bisection ends there
if that element is the value, and right behind it if it is not (`bisect_eq`).
-/

namespace FocusLint

/-- The elements of an array that are at most a value are the first so many. -/
structure Ranks (values : Array Nat) (value rank : Nat) : Prop where
  le_size : rank ≤ values.size
  le_iff : ∀ i found, values[i]? = some found → (found ≤ value ↔ i < rank)

variable {values : Array Nat} {value rank : Nat}

theorem Ranks.any_lt_iff (h : Ranks values value rank) {i : Nat} (hi : i < values.size) :
    (values[i]?.any fun found => value < found) = true ↔ rank ≤ i := by
  have hget := Array.getElem?_eq_getElem hi
  have hle := h.le_iff i values[i] hget
  rw [hget, Option.any_some, decide_eq_true_eq]
  omega

/-- Halving ends at the last element that is at most the value, or at the first one if there is none, whatever
part it starts with, as long as that part holds the element and there are steps enough. -/
theorem narrow_eq (h : Ranks values value rank) (steps base size : Nat) (hsize : 0 < size)
    (hsteps : size ≤ steps + 1) (hbound : base + size ≤ values.size) (hbase : base = 0 ∨ base < rank)
    (hrank : rank ≤ base + size) : narrow values value steps base size = rank - 1 := by
  -- On the steps; the element that is looked for stays in the part that is left.
  induction steps generalizing base size with
  | zero =>
    rw [narrow]
    omega
  | succ steps ih =>
    rw [narrow]
    by_cases hone : size ≤ 1
    · rw [if_pos hone]
      omega
    · have hmiddle := h.any_lt_iff (show base + size / 2 < values.size by omega)
      rw [if_neg hone]
      simp only []
      by_cases hbehind : rank ≤ base + size / 2
      · rw [if_pos (hmiddle.mpr hbehind)]
        exact ih base _ (by omega) (by omega) (by omega) hbase (by omega)
      · rw [if_neg (fun habove => hbehind (hmiddle.mp habove))]
        exact ih _ _ (by omega) (by omega) (by omega) (.inr (by omega)) (by omega)

/-- Bisection ends at the last element that is at most the value if it is the value, and else behind it. -/
theorem bisect_eq (h : Ranks values value rank) :
    bisect values value = if values[rank - 1]? = some value then .holds (rank - 1) else .opens rank := by
  have hle := h.le_size
  by_cases hempty : values.size = 0
  · obtain rfl : rank = 0 := by omega
    have hnone : values[0]? = none := Array.getElem?_eq_none (by omega)
    have hnarrow : narrow values value values.size 0 values.size = 0 := by rw [hempty, narrow]
    simp [bisect, hnarrow, hnone]
  · have hnarrow := narrow_eq h values.size 0 values.size (by omega) (by omega) (by omega) (.inl rfl) (by omega)
    have hlt : rank - 1 < values.size := by omega
    have hget : values[rank - 1]? = some values[rank - 1] := Array.getElem?_eq_getElem hlt
    have hlast := h.le_iff _ _ hget
    simp only [bisect, hnarrow, hget, Option.some.injEq]
    by_cases hfound : values[rank - 1] = value
    · rw [if_pos hfound, if_pos hfound]
    · rw [if_neg hfound, if_neg hfound]
      by_cases hbelow : values[rank - 1] < value
      · -- The element is below the value, so there is one that is counted, and this is the last.
        rw [if_pos hbelow, Nat.sub_add_cancel (by omega)]
      · rw [if_neg hbelow]
        congr 1
        omega

theorem lineOf_bisect (h : Ranks values value (rank + 1)) :
    LineIndex.lineOf (bisect values value) = .ok rank := by
  rw [bisect_eq h]
  split <;> rfl

end FocusLint
