/-
# Finite maps

The concurrent maps of the program are association lists with distinct keys here.
These are the bulk operations on them: keep the entries of some keys, take over
all entries of another map, remove some keys. Each is described by what a lookup
finds afterwards, and nothing else about the order of the entries is used.

A map that is built from a list of pairs keeps the last pair of a key.
-/

import Mathlib.Data.List.AList
import Mathlib.Data.List.Induction

namespace Otoroshi

namespace Maps

variable {α : Type} {β : α → Type} [DecidableEq α]

/-- The entries of the keys that are kept. -/
def filterKeys (keep : α → Bool) (map : AList β) : AList β :=
  ⟨map.entries.filter fun entry => keep entry.1,
    map.nodupKeys.sublist List.filter_sublist⟩

/-- `--=`. -/
def eraseAll (keys : List α) (map : AList β) : AList β :=
  keys.foldl (fun map key => map.erase key) map

/-- `++=`: the entries of `new` come before those of `old`. -/
def putAll (new old : AList β) : AList β := new ∪ old

@[simp]
theorem lookup_filterKeys (keep : α → Bool) (map : AList β) (key : α) :
    (filterKeys keep map).lookup key = if keep key = true then map.lookup key else none := by
  by_cases hkeep : keep key = true
  · rw [if_pos hkeep]
    ext value
    rw [← Option.mem_def, ← Option.mem_def, AList.mem_lookup_iff, AList.mem_lookup_iff,
      filterKeys, List.mem_filter]
    exact and_iff_left hkeep
  · rw [if_neg hkeep, AList.lookup_eq_none, AList.mem_keys]
    intro hmem
    obtain ⟨entry, hentry, rfl⟩ := List.mem_map.mp hmem
    exact hkeep (List.mem_filter.mp hentry).2

@[simp]
theorem lookup_eraseAll (keys : List α) (map : AList β) (key : α) :
    (eraseAll keys map).lookup key = if key ∈ keys then none else map.lookup key := by
  induction keys generalizing map with
  | nil => simp [eraseAll]
  | cons first keys ih =>
      rw [eraseAll, List.foldl_cons, ← eraseAll, ih]
      by_cases hfirst : key = first
      · rw [hfirst, AList.lookup_erase]
        simp
      · simp [hfirst, AList.lookup_erase_ne hfirst]

@[simp]
theorem lookup_putAll (new old : AList β) (key : α) :
    (putAll new old).lookup key = (new.lookup key).or (old.lookup key) := by
  rw [putAll]
  by_cases hmem : key ∈ new
  · obtain ⟨value, hvalue⟩ := Option.isSome_iff_exists.mp (AList.lookup_isSome.mpr hmem)
    rw [AList.lookup_union_left hmem, hvalue, Option.some_or]
  · rw [AList.lookup_union_right hmem, AList.lookup_eq_none.mpr hmem, Option.none_or]

section Entries

variable {γ : Type}

/-- `++=`, one entry after the other. -/
def insertAll (entries : List (α × γ)) (map : AList fun _ : α => γ) : AList fun _ : α => γ :=
  entries.foldl (fun map entry => map.insert entry.1 entry.2) map

theorem insertAll_cons (entry : α × γ) (entries : List (α × γ)) (map : AList fun _ : α => γ) :
    insertAll (entry :: entries) map = insertAll entries (map.insert entry.1 entry.2) := rfl

theorem lookup_insertAll {entries : List (α × γ)} (hnodup : (entries.map Prod.fst).Nodup)
    (map : AList fun _ : α => γ) (key : α) :
    (insertAll entries map).lookup key = (entries.lookup key).or (map.lookup key) := by
  induction entries generalizing map with
  | nil => rfl
  | cons entry entries ih =>
      rw [List.map_cons, List.nodup_cons] at hnodup
      rw [insertAll_cons, ih hnodup.2, List.lookup_cons]
      by_cases hkey : key = entry.1
      · have hlater : entries.lookup key = none := by
          rw [List.lookup_eq_none_iff]
          intro later hmem
          have hne : entry.1 ≠ later.1 := fun hsame =>
            hnodup.1 (List.mem_map.mpr ⟨later, hmem, hsame.symm⟩)
          exact bne_iff_ne.mpr (hkey ▸ hne)
        rw [hlater, hkey, AList.lookup_insert, beq_self_eq_true]
        rfl
      · rw [AList.lookup_insert_ne hkey, beq_false_of_ne hkey]

/-- What a lookup finds in the list of the entries. -/
theorem lookup_map_entries {δ : Type} (f : γ → δ) (map : AList fun _ : α => γ) (key : α) :
    (map.entries.map fun entry => (entry.1, f entry.2)).lookup key = (map.lookup key).map f := by
  rw [AList.lookup]
  induction map.entries with
  | nil => rfl
  | cons entry entries ih =>
      rw [List.map_cons, List.lookup_cons]
      by_cases hkey : key = entry.1
      · rw [hkey, beq_self_eq_true, List.dlookup_cons_eq]
        rfl
      · rw [beq_false_of_ne hkey, List.dlookup_cons_ne _ _ hkey, ← ih]

end Entries

end Maps

/-! ## The last write -/

/-- The last entry of a key is the one an index keeps. -/
theorem lookup_reverse_eq_some {κ ν : Type} [BEq κ] [LawfulBEq κ] {entries : List (κ × ν)}
    {key : κ} {value : ν} {order : κ × ν → κ × ν → Prop} (hrefl : ∀ entry, order entry entry)
    (horder : entries.Pairwise order) (h : entries.reverse.lookup key = some value) :
    (key, value) ∈ entries ∧
      ∀ other, (key, other) ∈ entries → order (key, other) (key, value) := by
  induction entries using List.reverseRecOn with
  | nil => simp at h
  | append_singleton entries entry ih =>
      obtain ⟨last, kept⟩ := entry
      rw [List.pairwise_append] at horder
      rw [List.reverse_append, List.reverse_singleton, List.singleton_append,
        List.lookup_cons] at h
      by_cases hkey : key = last
      · subst hkey
        simp only [beq_self_eq_true, Option.some.injEq] at h
        subst h
        constructor
        · simp
        · intro other hother
          obtain hmem | heq := List.mem_append.mp hother
          · exact horder.2.2 _ hmem _ (List.mem_singleton_self _)
          · rw [List.mem_singleton.mp heq]
            exact hrefl _
      · have hne : (key == last) = false := by simpa using hkey
        simp only [hne] at h
        obtain ⟨hmem, hothers⟩ := ih horder.1 h
        constructor
        · exact List.mem_append_left _ hmem
        · intro other hother
          obtain hmem' | heq := List.mem_append.mp hother
          · exact hothers other hmem'
          · simp [hkey] at heq

end Otoroshi
