/-
# Walks that stop

A walk goes through a list and stops after the first item that does not let it go
on. `reached` are the items it gets to, the one that stops it included.
-/

import Mathlib.Data.List.Basic

namespace Otoroshi

variable {α : Type} (goesOn : α → Bool)

/-- The items that a walk gets to. -/
def reached : List α → List α
  | [] => []
  | item :: rest => item :: if goesOn item then reached rest else []

variable {goesOn} {item : α} {items : List α}

theorem reached_cons_of_goesOn (h : goesOn item = true) :
    reached goesOn (item :: items) = item :: reached goesOn items := by
  rw [reached, if_pos h]

theorem reached_cons_of_not (h : goesOn item = false) :
    reached goesOn (item :: items) = [item] := by
  rw [reached, if_neg (by simp [h])]

theorem reached_prefix : reached goesOn items <+: items := by
  induction items with
  | nil => exact List.prefix_rfl
  | cons item items ih =>
      cases hitem : goesOn item with
      | true =>
          rw [reached_cons_of_goesOn hitem]
          exact List.cons_prefix_cons.mpr ⟨rfl, ih⟩
      | false =>
          rw [reached_cons_of_not hitem]
          exact List.prefix_append [item] items

/-- A walk gets to every item exactly when none but the last could stop it. -/
theorem reached_eq_self_iff :
    reached goesOn items = items ↔ ∀ item ∈ items.dropLast, goesOn item = true := by
  induction items with
  | nil => simp [reached]
  | cons item items ih =>
      cases items with
      | nil => cases hitem : goesOn item <;> simp [reached]
      | cons following items =>
          rw [List.dropLast_cons_cons, List.forall_mem_cons, ← ih]
          cases hitem : goesOn item with
          | true => rw [reached_cons_of_goesOn hitem]; simp
          | false => rw [reached_cons_of_not hitem]; simp

end Otoroshi
