/-
# The first match of a pattern

The platform's `replaceFirst` reads its first argument as a regular expression. A pattern of
plain characters is found where its text first is; what any other pattern finds is up to the
engine.
-/

import Mathlib.Data.List.Infix
import Otoroshi.Foundation.Splitting

namespace Otoroshi

/-- The character has no meaning of its own in a regular expression. -/
def isPlain (c : Char) : Bool := !"\\^$.|?*+()[\x7b".toList.contains c

/-- A pattern of plain characters. -/
def Plain (pattern : Str) : Prop := ∀ c ∈ pattern, isPlain c = true

instance (pattern : Str) : Decidable (Plain pattern) :=
  List.decidableBAll (fun c => isPlain c = true) pattern

/-- What stands before the first occurrence of a text, the text, and what stands after it. -/
def findText (text : Str) (s : Str) : Option (Str × Str × Str) :=
  if text.isPrefixOf s then some ([], text, s.drop text.length)
  else match s with
    | [] => none
    | c :: rest => (findText text rest).map fun found => (c :: found.1, found.2)

/-- A regular expression engine that looks for the first match of a pattern. It refuses some
patterns. -/
structure RegexFinder where
  find : Str → Str → Option (Option (Str × Str × Str))
  find_plain : ∀ pattern s, Plain pattern → find pattern s = some (findText pattern s)
  find_append : ∀ pattern s before found after,
    find pattern s = some (some (before, found, after)) → before ++ found ++ after = s

/-- What remains of a text without the match. -/
def withoutMatch (s : Str) : Option (Str × Str × Str) → Str
  | none => s
  | some (before, _, after) => before ++ after

/-- `replaceFirst(pattern, "")`. -/
def RegexFinder.removeFirst (engine : RegexFinder) (s pattern : Str) : Option Str :=
  (engine.find pattern s).map (withoutMatch s)

section Text

variable {text s : Str}

theorem findText_eq_some {before found after : Str}
    (h : findText text s = some (before, found, after)) : before ++ found ++ after = s := by
  induction s generalizing before with
  | nil =>
      rw [findText] at h
      split at h
      · next hbegins =>
          cases h
          rw [List.prefix_nil.mp (List.isPrefixOf_iff_prefix.mp hbegins)]
          rfl
      · cases h
  | cons c rest ih =>
      rw [findText] at h
      split at h
      · next hbegins =>
          cases h
          exact (List.prefix_iff_eq_append.mp (List.isPrefixOf_iff_prefix.mp hbegins))
      · obtain ⟨⟨before', found', after'⟩, hrest, heq⟩ := Option.map_eq_some_iff.mp h
        cases heq
        rw [← ih hrest]
        rfl

theorem findText_found {before found after : Str}
    (h : findText text s = some (before, found, after)) : found = text := by
  induction s generalizing before with
  | nil =>
      rw [findText] at h
      split at h
      · cases h
        rfl
      · cases h
  | cons c rest ih =>
      rw [findText] at h
      split at h
      · cases h
        rfl
      · obtain ⟨⟨before', found', after'⟩, hrest, heq⟩ := Option.map_eq_some_iff.mp h
        cases heq
        exact ih hrest

/-- What is found is found as well when the text goes on. -/
theorem findText_append {before found after : Str}
    (h : findText text s = some (before, found, after)) (more : Str) :
    findText text (s ++ more) = some (before, found, after ++ more) := by
  induction s generalizing before with
  | nil =>
      rw [findText] at h
      split at h
      · next hbegins =>
          have htext : text = [] := List.prefix_nil.mp (List.isPrefixOf_iff_prefix.mp hbegins)
          subst htext
          cases h
          rw [findText.eq_def]
          rfl
      · cases h
  | cons c rest ih =>
      rw [findText] at h
      rw [List.cons_append, findText]
      split at h
      · next hbegins =>
          have hprefix := List.isPrefixOf_iff_prefix.mp hbegins
          have hmore : text <+: c :: (rest ++ more) := hprefix.trans (List.prefix_append ..)
          cases h
          rw [if_pos (List.isPrefixOf_iff_prefix.mpr hmore), ← List.cons_append,
            List.drop_append_of_le_length hprefix.length_le]
      · next hbegins =>
          obtain ⟨⟨before', found', after'⟩, hrest, heq⟩ := Option.map_eq_some_iff.mp h
          cases heq
          have hfits : text.length ≤ (c :: rest).length := by
            have hlength := congrArg List.length (findText_eq_some hrest)
            rw [findText_found hrest, List.length_append, List.length_append] at hlength
            rw [List.length_cons]
            omega
          have hnot : ¬ text.isPrefixOf (c :: (rest ++ more)) = true := fun hmore =>
            hbegins (List.isPrefixOf_iff_prefix.mpr (List.prefix_of_prefix_length_le
              (List.isPrefixOf_iff_prefix.mp hmore) (List.prefix_append (c :: rest) more) hfits))
          rw [if_neg hnot, ih hrest]
          rfl

theorem findText_eq_none_iff : findText text s = none ↔ ¬ text <:+: s := by
  induction s with
  | nil =>
      rw [findText, List.infix_nil]
      by_cases htext : text = []
      · subst htext
        simp
      · rw [if_neg fun hbegins => htext
          (List.prefix_nil.mp (List.isPrefixOf_iff_prefix.mp hbegins))]
        exact iff_of_true rfl htext
  | cons c rest ih =>
      rw [findText, List.infix_cons_iff, not_or, ← ih]
      by_cases hbegins : text.isPrefixOf (c :: rest) = true
      · rw [if_pos hbegins]
        exact iff_of_false (Option.some_ne_none _) fun hnot =>
          hnot.1 (List.isPrefixOf_iff_prefix.mp hbegins)
      · rw [if_neg hbegins, Option.map_eq_none_iff]
        exact (and_iff_right fun h => hbegins (List.isPrefixOf_iff_prefix.mpr h)).symm

/-- A text that is not there is looked for behind a character that it does not have. -/
theorem findText_append_cons {c : Char} (hc : c ∉ text) (hne : text ≠ []) (h : ¬ text <:+: s)
    (after : Str) : findText text (s ++ c :: after) =
      (findText text after).map fun found => (s ++ c :: found.1, found.2) := by
  induction s with
  | nil =>
      have hnot : ¬ text.isPrefixOf (c :: after) = true := by
        intro hbegins
        obtain ⟨d, text', rfl⟩ := List.exists_cons_of_ne_nil hne
        have hsame := (List.cons_prefix_cons.mp (List.isPrefixOf_iff_prefix.mp hbegins)).1
        exact hc (hsame ▸ List.mem_cons_self)
      rw [List.nil_append, findText, if_neg hnot]
      rfl
  | cons d s ih =>
      rw [List.infix_cons_iff, not_or] at h
      have hnot : ¬ text.isPrefixOf (d :: (s ++ c :: after)) = true := fun hbegins =>
        h.1 (@prefix_append_cons _ (d :: s) _ _ hc (List.isPrefixOf_iff_prefix.mp hbegins))
      rw [List.cons_append, findText, if_neg hnot, ih h.2, Option.map_map]
      rfl

/-- The removal of a text is what `replaceFirst` makes of it. -/
theorem withoutMatch_findText (text s : Str) :
    withoutMatch s (findText text s) = replaceFirst s text [] := by
  induction s with
  | nil =>
      rw [findText, replaceFirst]
      split <;> rfl
  | cons c rest ih =>
      rw [findText, replaceFirst, ← ih]
      split
      · rfl
      · cases findText text rest <;> rfl

theorem replaceFirst_append (text after replacement : Str) :
    replaceFirst (text ++ after) text replacement = replacement ++ after := by
  have hbegins : text.isPrefixOf (text ++ after) = true :=
    List.isPrefixOf_iff_prefix.mpr (List.prefix_append ..)
  rw [replaceFirst.eq_def, if_pos hbegins, List.drop_left]

/-- A text that is not there is not replaced. -/
theorem replaceFirst_eq_self (h : ¬ text <:+: s) (replacement : Str) :
    replaceFirst s text replacement = s := by
  have hbegins : ¬ text.isPrefixOf s = true := fun hbegins =>
    h (List.isPrefixOf_iff_prefix.mp hbegins).isInfix
  induction s with
  | nil => rw [replaceFirst, if_neg hbegins]
  | cons c rest ih =>
      have hrest : ¬ text <:+: rest := fun hrest => h (List.infix_cons hrest)
      rw [replaceFirst, if_neg hbegins]
      exact congrArg (c :: ·) (ih hrest fun hbegins =>
        hrest (List.isPrefixOf_iff_prefix.mp hbegins).isInfix)

/-- A text that is there is replaced at one of its places. -/
theorem exists_replaceFirst_eq (h : text <:+: s) (replacement : Str) :
    ∃ before after, s = before ++ text ++ after ∧
      replaceFirst s text replacement = before ++ replacement ++ after := by
  induction s with
  | nil =>
      rw [List.infix_nil.mp h]
      exact ⟨[], [], rfl, replaceFirst_append [] [] replacement⟩
  | cons c rest ih =>
      by_cases hbegins : text.isPrefixOf (c :: rest) = true
      · obtain ⟨after, hafter⟩ := List.isPrefixOf_iff_prefix.mp hbegins
        rw [← hafter]
        exact ⟨[], after, rfl, replaceFirst_append text after replacement⟩
      · have hrest : text <:+: rest := (List.infix_cons_iff.mp h).resolve_left fun hbegins' =>
          hbegins (List.isPrefixOf_iff_prefix.mpr hbegins')
        obtain ⟨before, after, hrest, hreplaced⟩ := ih hrest
        refine ⟨c :: before, after, congrArg (c :: ·) hrest, ?_⟩
        rw [replaceFirst, if_neg hbegins]
        exact congrArg (c :: ·) hreplaced

theorem RegexFinder.removeFirst_of_plain (engine : RegexFinder) {pattern : Str}
    (h : Plain pattern) (s : Str) :
    engine.removeFirst s pattern = some (replaceFirst s pattern []) := by
  rw [removeFirst, engine.find_plain pattern s h, Option.map_some, withoutMatch_findText]

end Text

/-- The engine that reads every pattern as plain text. -/
def textFinder : RegexFinder where
  find pattern s := some (findText pattern s)
  find_plain _ _ _ := rfl
  find_append _ _ _ _ _ h := findText_eq_some (Option.some.inj h)

end Otoroshi
