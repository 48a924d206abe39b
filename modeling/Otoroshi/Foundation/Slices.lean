/-
# Slices of a list

A slice is what stands at the places from one bound on and before another one. It is cut out
by a `take` and a `drop`; `between_eq_filter` says which places that keeps, and
`flatMap_between` that slices of one size, one after the other, are the list again.
-/

import Mathlib.Data.List.Basic

namespace Otoroshi

namespace Slices

variable {α : Type}

/-- The elements at the places from `low` on and before `high`. -/
def between (low high : Nat) (items : List α) : List α := (items.take high).drop low

@[simp]
theorem length_between (low high : Nat) (items : List α) :
    (between low high items).length = min high items.length - low := by
  simp [between]

theorem between_eq_nil_iff {low high : Nat} {items : List α} :
    between low high items = [] ↔ min high items.length ≤ low := by
  rw [← List.length_eq_zero_iff, length_between, Nat.sub_eq_zero_iff_le]

theorem between_of_length_le {low : Nat} {items : List α} (h : items.length ≤ low) (high : Nat) :
    between low high items = [] :=
  between_eq_nil_iff.mpr (Nat.le_trans (Nat.min_le_right _ _) h)

theorem between_of_le {low high : Nat} (h : high ≤ low) (items : List α) :
    between low high items = [] :=
  between_eq_nil_iff.mpr (Nat.le_trans (Nat.min_le_left _ _) h)

/-- A last bound before the first one is as good as the first one. -/
theorem between_max (low high : Nat) (items : List α) :
    between low (max high low) items = between low high items := by
  by_cases h : high ≤ low
  · rw [Nat.max_eq_right h, between_of_le (Nat.le_refl _), between_of_le h]
  · rw [Nat.max_eq_left (Nat.le_of_not_le h)]

theorem map_between {β : Type} (f : α → β) (low high : Nat) (items : List α) :
    (between low high items).map f = between low high (items.map f) := by
  rw [between, between, List.map_drop, List.map_take]

/-- Bounds past the end are alike. -/
theorem between_congr {high high' : Nat} {items : List α}
    (h : min high items.length = min high' items.length) (low : Nat) :
    between low high items = between low high' items := by
  rw [between, between, List.take_eq_take_iff.mpr h]

theorem getElem?_between (low high place : Nat) (items : List α) :
    (between low high items)[place]? =
      if low + place < high then items[low + place]? else none := by
  rw [between, List.getElem?_drop, List.getElem?_take]

/-- A slice is a filter over the places. The induction is on the list, from any first place. -/
private theorem map_filter_zipIdx (low high first : Nat) (items : List α) :
    ((items.zipIdx first).filter fun e => low ≤ e.2 ∧ e.2 < high).map Prod.fst =
      between (low - first) (high - first) items := by
  induction items generalizing first with
  | nil => simp [between]
  | cons item items ih =>
      rw [List.zipIdx_cons, List.filter_cons]
      by_cases hhigh : first < high
      · have hlast : high - first = high - (first + 1) + 1 := by omega
        by_cases hlow : low ≤ first
        · have hzero : low - first = 0 := by omega
          have hnext : low - (first + 1) = 0 := by omega
          rw [if_pos (by simp [hlow, hhigh]), List.map_cons, ih, hlast, hzero, hnext]
          simp [between]
        · have hnext : low - first = low - (first + 1) + 1 := by omega
          rw [if_neg (by simp [hlow]), ih, hlast, hnext]
          simp [between]
      · have hzero : high - first = 0 := by omega
        have hnext : high - (first + 1) = 0 := by omega
        rw [if_neg (by simp [hhigh]), ih, hzero, hnext]
        simp [between]

theorem between_eq_filter (low high : Nat) (items : List α) :
    between low high items =
      (items.zipIdx.filter fun e => low ≤ e.2 ∧ e.2 < high).map Prod.fst := by
  rw [map_filter_zipIdx]
  rfl

/-- Two slices that meet are one. -/
theorem between_append_between {low middle high : Nat} (hlow : low ≤ middle)
    (hhigh : middle ≤ high) (items : List α) :
    between low middle items ++ between middle high items = between low high items := by
  apply List.ext_getElem?
  intro place
  rw [List.getElem?_append, length_between, getElem?_between, getElem?_between, getElem?_between]
  by_cases hplace : place < min middle items.length - low
  · rw [if_pos hplace, if_pos (by omega), if_pos (by omega)]
  · rw [if_neg hplace]
    by_cases hend : items.length ≤ middle
    · rw [List.getElem?_eq_none (i := low + place) (by omega),
        List.getElem?_eq_none (by omega), ite_self, ite_self]
    · have hsame : middle + (place - (min middle items.length - low)) = low + place := by omega
      rw [hsame]

/-- A slice, and what stands behind it. -/
theorem between_append_drop {low high : Nat} (h : low ≤ high) (items : List α) :
    between low high items ++ items.drop high = items.drop low := by
  by_cases hlength : items.length ≤ high
  · rw [between, List.take_of_length_le hlength, List.drop_of_length_le hlength, List.append_nil]
  · have htake : low ≤ (items.take high).length := by
      rw [List.length_take]
      omega
    rw [between, ← List.drop_append_of_le_length htake, List.take_append_drop]

/-- Slices of one size, one after the other. -/
theorem flatMap_between (size count : Nat) (items : List α) :
    (List.range count).flatMap (fun number => between (number * size) ((number + 1) * size) items) =
      items.take (count * size) := by
  induction count with
  | zero => simp
  | succ count ih =>
      have hfirst : items.take (count * size) = between 0 (count * size) items := rfl
      rw [List.range_succ, List.flatMap_append, ih, List.flatMap_cons, List.flatMap_nil,
        List.append_nil, hfirst,
        between_append_between (Nat.zero_le _) (Nat.mul_le_mul_right _ (Nat.le_succ _))]
      rfl

end Slices

end Otoroshi
