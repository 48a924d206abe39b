/-
# Attempts in order

Things are tried one after the other until one succeeds. An attempt that is refused leads to the
next one, and an attempt that throws ends them all. `firstOk` is the loop, and `ComesTo` says of
the items alone what the loop comes to.
-/

import Mathlib.Data.List.Basic

namespace Otoroshi

/-- A `Left` of the program, or an exception that nobody catches. -/
inductive Refusal (ε : Type) where
  | left (message : ε)
  | thrown
  deriving DecidableEq

variable {α β ε : Type}

/-- A sequence throws if the first part does, or the second after it. -/
theorem bind_eq_thrown_iff {program : Except (Refusal ε) α} {next : α → Except (Refusal ε) β} :
    program >>= next = .error .thrown ↔
      program = .error .thrown ∨ ∃ value, program = .ok value ∧ next value = .error .thrown := by
  cases program with
  | ok value => simp [bind, Except.bind]
  | error refusal => simp [bind, Except.bind]

/-- A sequence is refused if its first part is, or else the second. -/
theorem exists_bind_eq_left {program : Except (Refusal ε) α} {next : α → Except (Refusal ε) β}
    (hthrown : program ≠ .error .thrown)
    (hnext : ∀ value, program = .ok value → ∃ message, next value = .error (.left message)) :
    ∃ message, program >>= next = .error (.left message) := by
  cases program with
  | ok value => exact hnext value rfl
  | error refusal =>
    cases refusal with
    | left message => exact ⟨message, rfl⟩
    | thrown => exact absurd rfl hthrown

/-- The first success, or the last refusal. -/
def firstOk (attempt : α → Except (Refusal ε) β) : List α → ε → Except (Refusal ε) β
  | [], lastErr => .error (.left lastErr)
  | item :: rest, _ =>
      match attempt item with
      | .ok value => .ok value
      | .error (.left err) => firstOk attempt rest err
      | .error .thrown => .error .thrown

/-- An item of the kind that is looked for comes before all items of the kind that ends the
search, or is one of them. -/
def ComesTo (ends wanted : α → Prop) (items : List α) : Prop :=
  ∃ before item after, items = before ++ item :: after ∧ wanted item ∧
    ∀ earlier ∈ before, ¬ ends earlier

section ComesTo

variable {ends wanted wanted' : α → Prop} {items : List α} {item : α}

theorem not_comesTo_nil : ¬ ComesTo ends wanted [] := by
  rintro ⟨before, item, after, hitems, -⟩
  exact List.append_ne_nil_of_right_ne_nil _ (List.cons_ne_nil _ _) hitems.symm

theorem comesTo_cons :
    ComesTo ends wanted (item :: items) ↔
      wanted item ∨ (¬ ends item ∧ ComesTo ends wanted items) := by
  constructor
  · rintro ⟨before, found, after, hitems, hwanted, hbefore⟩
    cases before with
    | nil =>
      cases hitems
      exact .inl hwanted
    | cons earlier before =>
      cases hitems
      refine .inr ⟨hbefore _ List.mem_cons_self, before, found, after, rfl, hwanted, ?_⟩
      exact fun other hother => hbefore other (List.mem_cons_of_mem _ hother)
  · rintro (hwanted | ⟨hitem, before, found, after, hitems, hwanted, hbefore⟩)
    · exact ⟨[], item, items, rfl, hwanted, List.forall_mem_nil _⟩
    · refine ⟨item :: before, found, after, congrArg (item :: ·) hitems, hwanted, ?_⟩
      exact List.forall_mem_cons.mpr ⟨hitem, hbefore⟩

theorem ComesTo.exists_mem (h : ComesTo ends wanted items) : ∃ item ∈ items, wanted item := by
  obtain ⟨before, item, after, hitems, hwanted, -⟩ := h
  exact ⟨item, hitems ▸ List.mem_append_right _ List.mem_cons_self, hwanted⟩

/-- Where nothing ends the search, whatever is there is reached. -/
theorem comesTo_of_mem (hmem : item ∈ items) (hwanted : wanted item)
    (hends : ∀ other ∈ items, ¬ ends other) : ComesTo ends wanted items := by
  obtain ⟨before, after, hitems⟩ := List.append_of_mem hmem
  refine ⟨before, item, after, hitems, hwanted, fun earlier hearlier => ?_⟩
  exact hends earlier (hitems ▸ List.mem_append_left _ hearlier)

theorem ComesTo.mono (h : ComesTo ends wanted items)
    (hwanted : ∀ item, wanted item → wanted' item) : ComesTo ends wanted' items := by
  obtain ⟨before, item, after, hitems, hitem, hbefore⟩ := h
  exact ⟨before, item, after, hitems, hwanted item hitem, hbefore⟩

end ComesTo

section FirstOk

variable {attempt : α → Except (Refusal ε) β} {items : List α} {lastErr : ε} {value : β}

/-- The loop throws if an attempt does before any succeeds. -/
theorem firstOk_eq_thrown_iff :
    firstOk attempt items lastErr = .error .thrown ↔
      ComesTo (fun item => ∃ value, attempt item = .ok value)
        (fun item => attempt item = .error .thrown) items := by
  induction items generalizing lastErr with
  | nil =>
    rw [firstOk]
    exact iff_of_false nofun not_comesTo_nil
  | cons item items ih =>
    rw [firstOk, comesTo_cons]
    cases attempt item with
    | ok value => simp
    | error refusal =>
      cases refusal with
      | left message => simpa using ih
      | thrown => simp

/-- The loop succeeds with the first success, unless an attempt before it throws. -/
theorem firstOk_eq_ok_iff :
    firstOk attempt items lastErr = .ok value ↔
      ComesTo (fun item => ∀ message, attempt item ≠ .error (.left message))
        (fun item => attempt item = .ok value) items := by
  induction items generalizing lastErr with
  | nil =>
    rw [firstOk]
    exact iff_of_false nofun not_comesTo_nil
  | cons item items ih =>
    rw [firstOk, comesTo_cons]
    cases attempt item with
    | ok value => simp
    | error refusal =>
      cases refusal with
      | left message => simpa using ih
      | thrown => simp

/-- Only what throws keeps the loop from a success. -/
theorem exists_firstOk_eq_ok_iff :
    (∃ value, firstOk attempt items lastErr = .ok value) ↔
      ComesTo (fun item => attempt item = .error .thrown)
        (fun item => ∃ value, attempt item = .ok value) items := by
  induction items generalizing lastErr with
  | nil =>
    rw [firstOk]
    exact iff_of_false (by simp) not_comesTo_nil
  | cons item items ih =>
    rw [firstOk, comesTo_cons]
    cases attempt item with
    | ok value => simp
    | error refusal =>
      cases refusal with
      | left message => simpa using ih
      | thrown => simp

end FirstOk

end Otoroshi
