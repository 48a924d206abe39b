/-
# Maps that compare the forms of their keys

A map of which two keys are the same when a function gives them the same form, as the names of
headers are when they differ in case only. The first spelling of a key is kept. The entries are a
list here, and no two of them have keys of the same form.
-/

import Mathlib.Data.List.Basic

namespace Otoroshi

variable {κ ν α : Type} [DecidableEq ν] (form : κ → ν)

/-- No two entries have keys of the same form. -/
def FormsDiffer (entries : List (κ × α)) : Prop :=
  entries.Pairwise fun entry other => form entry.1 ≠ form other.1

@[ext]
structure NormedMap (α : Type) where
  entries : List (κ × α)
  formsDiffer : FormsDiffer form entries

namespace NormedMap

variable {form}

def empty : NormedMap form α := ⟨[], List.Pairwise.nil⟩

def get (map : NormedMap form α) (key : κ) : Option α :=
  (map.entries.find? fun entry => form entry.1 = form key).map (·.2)

/-- The entries, with another value under a key that is there. -/
def replaced (map : NormedMap form α) (key : κ) (value : α) : List (κ × α) :=
  map.entries.map fun entry => if form entry.1 = form key then (entry.1, value) else entry

theorem formsDiffer_replaced (map : NormedMap form α) (key : κ) (value : α) :
    FormsDiffer form (map.replaced key value) := by
  rw [FormsDiffer, replaced, List.pairwise_map]
  refine map.formsDiffer.imp fun {first second} h => ?_
  split_ifs <;> exact h

def put (map : NormedMap form α) (key : κ) (value : α) : NormedMap form α :=
  if h : ∃ entry ∈ map.entries, form entry.1 = form key then
    ⟨map.replaced key value, map.formsDiffer_replaced key value⟩
  else
    ⟨map.entries ++ [(key, value)], List.pairwise_append.mpr
      ⟨map.formsDiffer, List.pairwise_singleton _ _, fun entry hentry other hother => by
        rw [List.mem_singleton.mp hother]
        exact fun heq => h ⟨entry, hentry, heq⟩⟩⟩

/-- `applyOnWithOpt`: nothing is put under the key without a value. -/
def putOption (map : NormedMap form α) (key : κ) : Option α → NormedMap form α
  | some value => map.put key value
  | none => map

def filterNot (map : NormedMap form α) (p : κ → Bool) : NormedMap form α :=
  ⟨map.entries.filter fun entry => !p entry.1, map.formsDiffer.filter _⟩

/-- `map ++ entries`. -/
def putAll (map : NormedMap form α) (entries : List (κ × α)) : NormedMap form α :=
  entries.foldl (fun map entry => map.put entry.1 entry.2) map

@[simp]
theorem get_empty (key : κ) : (empty : NormedMap form α).get key = none := rfl

theorem form_of_find? {entries : List (κ × α)} {key : κ} {found : κ × α}
    (h : (entries.find? fun entry => form entry.1 = form key) = some found) :
    form found.1 = form key := by
  simpa using List.find?_some h

theorem find?_replaced (map : NormedMap form α) (key other : κ) (value : α) :
    ((map.replaced key value).find? fun entry => form entry.1 = form other) =
      (map.entries.find? fun entry => form entry.1 = form other).map fun entry =>
        if form entry.1 = form key then (entry.1, value) else entry := by
  rw [replaced, List.find?_map]
  congr 2
  funext entry
  rw [Function.comp_apply]
  split_ifs <;> rfl

theorem get_put (map : NormedMap form α) (key other : κ) (value : α) :
    (map.put key value).get other = if form key = form other then some value else map.get other := by
  rw [put]
  split
  · next h =>
      obtain ⟨entry, hentry, hkey⟩ := h
      rw [get, find?_replaced, Option.map_map, get]
      by_cases hother : form key = form other
      · have hfound : (map.entries.find? fun entry => form entry.1 = form other).isSome = true :=
          List.find?_isSome.mpr ⟨entry, hentry, decide_eq_true (hkey.trans hother)⟩
        obtain ⟨found, hfind⟩ := Option.isSome_iff_exists.mp hfound
        have hform := form_of_find? hfind
        rw [if_pos hother, hfind, Option.map_some, Function.comp_apply,
          if_pos (hform.trans hother.symm)]
      · rw [if_neg hother]
        refine Option.map_congr fun found hfind => ?_
        have hform := form_of_find? hfind
        rw [Function.comp_apply, if_neg fun heq => hother (heq.symm.trans hform)]
  · next h =>
      rw [get, List.find?_append, Option.map_or, get]
      by_cases hother : form key = form other
      · have hnone : (map.entries.find? fun entry => form entry.1 = form other) = none := by
          rw [List.find?_eq_none]
          exact fun entry hentry heq =>
            h ⟨entry, hentry, (of_decide_eq_true heq).trans hother.symm⟩
        simp [hnone, hother]
      · simp [hother]

theorem get_putOption (map : NormedMap form α) (key other : κ) (value : Option α) :
    (map.putOption key value).get other =
      if form other = form key then value.or (map.get other) else map.get other := by
  cases value with
  | none => exact (ite_self _).symm
  | some value =>
      rw [putOption, get_put]
      by_cases h : form key = form other
      · rw [if_pos h, if_pos h.symm, Option.some_or]
      · rw [if_neg h, if_neg fun heq => h heq.symm]

theorem get_filterNot (map : NormedMap form α) {p : κ → Bool}
    (hp : ∀ a b, form a = form b → p a = p b) (key : κ) :
    (map.filterNot p).get key = if p key then none else map.get key := by
  rw [get, filterNot, List.find?_filter, get]
  by_cases hkey : p key = true
  · rw [if_pos hkey, List.find?_eq_none.mpr, Option.map_none]
    intro entry _ h
    simp only [Bool.not_eq_true', decide_eq_true_eq] at h
    rw [hp _ _ h.2, hkey] at h
    cases h.1
  · rw [if_neg hkey]
    congr 2
    funext entry
    by_cases hform : form entry.1 = form key
    · simp [hform, hp _ _ hform, hkey]
    · simp [hform]

theorem find?_eq_some_of_mem {entries : List (κ × α)} (hforms : FormsDiffer form entries) {key : κ}
    {entry : κ × α} (hentry : entry ∈ entries) (hkey : form entry.1 = form key) :
    (entries.find? fun other => form other.1 = form key) = some entry := by
  induction entries with
  | nil => cases hentry
  | cons first rest ih =>
      rw [FormsDiffer, List.pairwise_cons] at hforms
      rw [List.find?_cons]
      rcases List.mem_cons.mp hentry with rfl | hrest
      · simp [hkey]
      · have hne : form first.1 ≠ form key := fun heq =>
          hforms.1 entry hrest (heq.trans hkey.symm)
        simp [hne, ih hforms.2 hrest]

/-- The entry that is found is the one whose key has the form. -/
theorem get_eq_some_iff {map : NormedMap form α} {key : κ} {value : α} :
    map.get key = some value ↔ ∃ entry ∈ map.entries, form entry.1 = form key ∧ entry.2 = value := by
  constructor
  · intro h
    obtain ⟨entry, hfind, hvalue⟩ := Option.map_eq_some_iff.mp h
    exact ⟨entry, List.mem_of_find?_eq_some hfind, form_of_find? hfind, hvalue⟩
  · rintro ⟨entry, hentry, hform, rfl⟩
    rw [get, find?_eq_some_of_mem map.formsDiffer hentry hform, Option.map_some]

/-- The entries of other keys stay. -/
theorem mem_put_iff {map : NormedMap form α} {key : κ} {value : α} {entry : κ × α}
    (h : form entry.1 ≠ form key) :
    entry ∈ (map.put key value).entries ↔ entry ∈ map.entries := by
  rw [put]
  split
  · simp only [replaced, List.mem_map]
    constructor
    · rintro ⟨other, hother, rfl⟩
      split at h
      · next hsame => exact absurd hsame h
      · next hsame => rwa [if_neg hsame]
    · intro hmem
      exact ⟨entry, hmem, if_neg h⟩
  · have hne : entry ≠ (key, value) := by
      rintro rfl
      exact h rfl
    rw [List.mem_append, List.mem_singleton]
    exact or_iff_left hne

/-- Entries of other keys are added at the end. -/
theorem entries_putAll (map : NormedMap form α) {entries : List (κ × α)}
    (h : FormsDiffer form (map.entries ++ entries)) :
    (map.putAll entries).entries = map.entries ++ entries := by
  induction entries generalizing map with
  | nil => exact (List.append_nil _).symm
  | cons entry entries ih =>
      have hnew : ¬ ∃ other ∈ map.entries, form other.1 = form entry.1 := by
        rintro ⟨other, hother, heq⟩
        exact (List.pairwise_append.mp h).2.2 other hother entry List.mem_cons_self heq
      have hput : (map.put entry.1 entry.2).entries = map.entries ++ [entry] := by
        rw [put, dif_neg hnew]
      have hrest := ih (map.put entry.1 entry.2) (by rwa [hput, List.append_assoc])
      rw [hput, List.append_assoc] at hrest
      exact hrest

theorem mem_putOption_iff {map : NormedMap form α} {key : κ} {value : Option α} {entry : κ × α}
    (h : form entry.1 ≠ form key) :
    entry ∈ (map.putOption key value).entries ↔ entry ∈ map.entries := by
  cases value with
  | none => rfl
  | some value => exact mem_put_iff h

end NormedMap

end Otoroshi
