/-
# Scanning a list from the right

`lastIndexWhere` looks for the last element with a property. What stands on the
left of a hit never decides where the scan stops, whatever it is and however
long: a longer left part only shifts the position.
-/

import Mathlib.Data.List.Basic

namespace Otoroshi

variable {α : Type*}

/-- `lastIndexWhere`, with `none` where the platform answers `-1`. -/
def lastIndexWhere (p : α → Bool) : List α → Option Nat
  | [] => none
  | a :: as =>
      match lastIndexWhere p as with
      | some i => some (i + 1)
      | none => if p a then some 0 else none

variable {p : α → Bool}

theorem lastIndexWhere_eq_none_iff {as : List α} :
    lastIndexWhere p as = none ↔ ∀ a ∈ as, p a = false := by
  induction as with
  | nil => simp [lastIndexWhere]
  | cons a as ih =>
      rw [lastIndexWhere, List.forall_mem_cons, ← ih]
      cases lastIndexWhere p as with
      | some i => simp
      | none => simp

theorem exists_lastIndexWhere {as : List α} (h : ∃ a ∈ as, p a = true) :
    ∃ i, lastIndexWhere p as = some i := by
  rw [← Option.ne_none_iff_exists']
  intro hnone
  obtain ⟨a, ha, hpa⟩ := h
  rw [lastIndexWhere_eq_none_iff.mp hnone a ha] at hpa
  cases hpa

/-- The element found, with the elements on both of its sides. -/
theorem lastIndexWhere_eq_some {as : List α} {i : Nat} (h : lastIndexWhere p as = some i) :
    ∃ before found after, as = before ++ found :: after ∧ before.length = i ∧
      p found = true ∧ ∀ a ∈ after, p a = false := by
  induction as generalizing i with
  | nil => cases h
  | cons a as ih =>
      rw [lastIndexWhere] at h
      cases hlast : lastIndexWhere p as with
      | some j =>
          rw [hlast] at h
          cases h
          obtain ⟨before, found, after, rfl, rfl, hfound, hafter⟩ := ih hlast
          exact ⟨a :: before, found, after, rfl, rfl, hfound, hafter⟩
      | none =>
          rw [hlast] at h
          by_cases ha : p a = true
          · simp only [ha, if_true, Option.some.injEq] at h
            exact ⟨[], a, as, rfl, h, ha, lastIndexWhere_eq_none_iff.mp hlast⟩
          · simp [ha] at h

/-- A hit stays where it is when the list grows on the left. -/
theorem lastIndexWhere_append {left right : List α} (h : ∃ a ∈ right, p a = true) :
    lastIndexWhere p (left ++ right) = (lastIndexWhere p right).map (left.length + ·) := by
  obtain ⟨i, hi⟩ := exists_lastIndexWhere h
  induction left with
  | nil => simp
  | cons a left ih =>
      rw [List.cons_append, lastIndexWhere, ih, hi]
      simp only [Option.map_some, List.length_cons, Option.some.injEq]
      omega

end Otoroshi
