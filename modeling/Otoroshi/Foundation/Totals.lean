/-
# Totals of finite maps

The total of a map is the sum of the weights of its values. It depends on nothing but what
lookups find, so each operation of a map is described by what it does to the total.
-/

import Mathlib.Algebra.BigOperators.Group.List.Basic
import Mathlib.Data.List.AList

namespace Otoroshi

namespace Totals

variable {α γ A : Type} [DecidableEq α] [AddCommMonoid A]

/-- The sum of the weights of all values. -/
def total (weight : γ → A) (map : AList fun _ : α => γ) : A :=
  (map.entries.map fun entry => weight entry.2).sum

variable {weight : γ → A} {map other : AList fun _ : α => γ} {key : α} {value old : γ}

omit [DecidableEq α] in
@[simp]
theorem total_empty : total weight (∅ : AList fun _ : α => γ) = 0 := rfl

/-- Maps with the same lookups have the same total. -/
theorem total_congr (h : ∀ key, map.lookup key = other.lookup key) :
    total weight map = total weight other := by
  have hperm : map.entries.Perm other.entries := by
    refine List.lookup_ext map.nodupKeys other.nodupKeys fun key value => ?_
    rw [show map.entries.dlookup key = other.entries.dlookup key from h key]
  exact (hperm.map _).sum_eq

/-- A value goes under a key that is free. -/
theorem total_insert_of_none (h : map.lookup key = none) :
    total weight (map.insert key value) = weight value + total weight map := by
  rw [total, AList.entries_insert_of_notMem (AList.lookup_eq_none.mp h), List.map_cons,
    List.sum_cons, total]

/-- A value is replaced. -/
theorem total_insert_of_some (h : map.lookup key = some old) :
    weight old + total weight (map.insert key value) = weight value + total weight map := by
  have hsame : total weight map = total weight (map.insert key old) := by
    refine total_congr fun other => ?_
    by_cases hother : other = key
    · rw [hother, h, AList.lookup_insert]
    · rw [AList.lookup_insert_ne hother]
  rw [hsame, total, total, AList.entries_insert, AList.entries_insert, List.map_cons,
    List.map_cons, List.sum_cons, List.sum_cons]
  exact add_left_comm ..

end Totals

end Otoroshi
