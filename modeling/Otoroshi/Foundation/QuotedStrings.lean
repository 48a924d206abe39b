/-
# Quoted strings

A text with characters that would end it is sent between quotes, with a backslash in front of
every quote and every backslash. The lemmas say what a reader sees that looks for other characters
than these two and that does not remove the backslashes again: the same text, escaped.
-/

import Mathlib.Algebra.Order.Group.Nat
import Otoroshi.Foundation.Scan
import Otoroshi.Foundation.Text

namespace Otoroshi

/-! ## The place of a character -/

theorem indexOf_of_notMem {c : Char} {s : Str} (h : c ∉ s) : indexOf s c 0 = none := by
  rw [indexOf, List.drop_zero, List.findIdx?_eq_none_iff.mpr, Option.map_none]
  intro d hd
  exact beq_eq_false_iff_ne.mpr fun heq => h (heq ▸ hd)

theorem indexOf_append {c : Char} {before : Str} (h : c ∉ before) (after : Str) :
    indexOf (before ++ c :: after) c 0 = some before.length := by
  induction before with
  | nil => simp [indexOf, List.findIdx?_cons]
  | cons d before ih =>
      have hd : d ≠ c := fun heq => h (heq ▸ List.mem_cons_self)
      have hrest := ih fun hmem => h (List.mem_cons_of_mem d hmem)
      simp only [indexOf, List.drop_zero, Option.map_eq_some_iff, Nat.add_zero,
        exists_eq_right] at hrest
      simp [indexOf, List.findIdx?_cons, hd, hrest]

theorem indexOf_append_after (c : Char) (before after : Str) :
    (indexOf (before ++ c :: after) c (before.length + 1)).isNone = true ↔ c ∉ after := by
  have hdrop : (before ++ c :: after).drop (before.length + 1) = after := by
    rw [List.append_cons, List.drop_left' (by simp)]
  rw [indexOf, hdrop, Option.isNone_iff_eq_none, Option.map_eq_none_iff,
    List.findIdx?_eq_none_iff]
  simp only [beq_eq_false_iff_ne, ne_eq]
  exact ⟨fun h hmem => h c hmem rfl, fun h d hd heq => h (heq ▸ hd)⟩

theorem lastIndexOf_append {c : Char} {after : Str} (before : Str) (h : c ∉ after) :
    lastIndexWhere (· == c) (before ++ c :: after) = some before.length := by
  have hlast : lastIndexWhere (· == c) after = none := lastIndexWhere_eq_none_iff.mpr fun d hd =>
    beq_eq_false_iff_ne.mpr fun heq => h (heq ▸ hd)
  have hfound : ∃ d ∈ c :: after, (d == c) = true := ⟨c, List.mem_cons_self, beq_self_eq_true c⟩
  rw [lastIndexWhere_append hfound, lastIndexWhere, hlast]
  simp

@[simp]
theorem substring_zero_append (before after : Str) :
    substring (before ++ after) 0 before.length = before := by
  rw [substring, List.take_left', List.drop_zero]
  rfl

/-- The part in front of the first occurrence, and the part behind it. -/
theorem exists_append_of_mem {c : Char} {s : Str} (h : c ∈ s) :
    ∃ after, c ∉ s.takeWhile (· != c) ∧ s = s.takeWhile (· != c) ++ c :: after := by
  obtain ⟨before, after, rfl, hbefore⟩ := List.eq_append_cons_of_mem h
  have hall : ∀ d ∈ before, (d != c) = true := fun d hd =>
    bne_iff_ne.mpr fun heq => hbefore (heq ▸ hd)
  refine ⟨after, ?_, ?_⟩
  · exact fun hmem => bne_iff_ne.mp (@List.mem_takeWhile_imp _ (· != c) _ _ hmem) rfl
  · rw [List.takeWhile_append_of_pos hall, List.takeWhile_cons_of_neg (by simp), List.append_nil]

theorem takeWhile_of_notMem {c : Char} {s : Str} (h : c ∉ s) : s.takeWhile (· != c) = s :=
  List.takeWhile_eq_self_iff.mpr fun _ hd => bne_iff_ne.mpr fun heq => h (heq ▸ hd)

/-! ## Escaping -/

namespace QuotedString

def escape (value : Str) : Str :=
  replaceChar (replaceChar value '\\' "\\\\".toList) '"' "\\\"".toList

/-- The characters that are sent with a backslash in front of them. -/
def isEscaped (c : Char) : Bool := c == '\\' || c == '"'

@[simp]
theorem escape_nil : escape [] = [] := rfl

theorem escape_cons (c : Char) (s : Str) :
    escape (c :: s) = (if isEscaped c then ['\\', c] else [c]) ++ escape s := by
  rw [escape, escape, replaceChar, replaceChar, List.flatMap_cons, List.flatMap_append]
  congr 1
  by_cases hslash : c = '\\'
  · subst hslash
    rfl
  · by_cases hquote : c = '"'
    · subst hquote
      rfl
    · simp [isEscaped, hslash, hquote]

theorem escape_append (s t : Str) : escape (s ++ t) = escape s ++ escape t := by
  induction s with
  | nil => rfl
  | cons c s ih => rw [List.cons_append, escape_cons, escape_cons, ih, List.append_assoc]

theorem escape_cons_of_plain {c : Char} (h : isEscaped c = false) (s : Str) :
    escape (c :: s) = c :: escape s := by
  rw [escape_cons, h, if_neg Bool.false_ne_true, List.singleton_append]

@[simp]
theorem escape_eq_nil_iff {s : Str} : escape s = [] ↔ s = [] := by
  cases s with
  | nil => simp
  | cons c s => rw [escape_cons]; split <;> simp

theorem length_le_escape (s : Str) : s.length ≤ (escape s).length := by
  induction s with
  | nil => exact Nat.le_refl 0
  | cons c s ih =>
      rw [escape_cons]
      split <;> simp <;> omega

/-- Only a text without quotes and backslashes is sent as it is. -/
theorem escape_eq_self_iff {s : Str} : escape s = s ↔ ∀ c ∈ s, isEscaped c = false := by
  induction s with
  | nil => simp
  | cons c s ih =>
      rw [List.forall_mem_cons, ← ih]
      cases hescaped : isEscaped c with
      | false => rw [escape_cons_of_plain hescaped]; simp
      | true =>
          refine iff_of_false (fun h => ?_) (by simp)
          have hlength := congrArg List.length h
          rw [escape_cons, hescaped] at hlength
          have := length_le_escape s
          simp at hlength
          omega

theorem count_escape {c : Char} (h : c ≠ '\\') (s : Str) : (escape s).count c = s.count c := by
  induction s with
  | nil => rfl
  | cons d s ih =>
      rw [escape_cons, List.count_append, ih, List.count_cons]
      split
      · rw [List.count_cons_of_ne h.symm, List.count_singleton]
        omega
      · rw [List.count_singleton]
        omega

theorem mem_escape_iff {c : Char} (h : c ≠ '\\') {s : Str} : c ∈ escape s ↔ c ∈ s := by
  rw [← List.count_pos_iff, count_escape h, List.count_pos_iff]

/-- There is one backslash more for every character that is escaped. -/
theorem count_backslash_escape (s : Str) :
    (escape s).count '\\' = s.count '\\' + s.countP isEscaped := by
  induction s with
  | nil => rfl
  | cons d s ih =>
      rw [escape_cons, List.count_append, ih, List.count_cons, List.countP_cons]
      split
      · rw [List.count_cons_self, List.count_singleton]
        omega
      · rw [List.count_singleton]
        omega

theorem head?_escape {c : Char} (h : isEscaped c = false) (s : Str) :
    (escape s).head? = some c ↔ s.head? = some c := by
  cases s with
  | nil => rfl
  | cons d s =>
      rw [escape_cons]
      split
      · next hd =>
          have hslash : c ≠ '\\' := by rintro rfl; cases h
          have hne : d ≠ c := by rintro rfl; rw [hd] at h; cases h
          simp [hslash.symm, hne]
      · rfl

theorem takeWhile_escape {c : Char} (h : isEscaped c = false) (s : Str) :
    (escape s).takeWhile (· != c) = escape (s.takeWhile (· != c)) := by
  have hslash : '\\' ≠ c := by rintro rfl; cases h
  induction s with
  | nil => rfl
  | cons d s ih =>
      rw [escape_cons]
      split
      · next hd =>
          have hne : d ≠ c := by rintro rfl; rw [hd] at h; cases h
          rw [List.takeWhile_cons_of_pos (by simp [hne]), escape_cons, if_pos hd, ← ih]
          simp [hslash, hne]
      · next hd =>
          by_cases hne : d = c
          · subst hne
            simp
          · rw [List.takeWhile_cons_of_pos (by simp [hne]), escape_cons, if_neg hd, ← ih]
            simp [hne]

/-- Escaping does not give a text other ends to trim. -/
theorem trim_escape {s : Str} (h : trim s = s) : trim (escape s) = escape s := by
  have hhead := head?_trim s
  have hlast := getLast?_trim s
  rw [h] at hhead hlast
  apply trim_eq_self
  · cases s with
    | nil => nofun
    | cons c s =>
        intro d hd
        rw [escape_cons] at hd
        split at hd
        · cases hd
          rfl
        · exact hhead d hd
  · cases s using List.reverseRecOn with
    | nil => nofun
    | append_singleton s c =>
        intro d hd
        have hend : (escape (s ++ [c])).getLast? = some c := by
          rw [escape_append, escape_cons, escape_nil, List.append_nil]
          split <;> simp
        rw [hend] at hd
        exact hlast d (by simpa using hd)

/-- The first characters, compared through a translation that leaves the two characters that are
escaped to themselves. -/
theorem prefix_map_escape_iff {f : Char → Char} (hf : ∀ c, isEscaped (f c) = isEscaped c)
    {first : Str} (hfirst : ∀ c ∈ first, isEscaped c = false) {s : Str} :
    first <+: (escape s).map f ↔ first <+: s.map f := by
  induction first generalizing s with
  | nil => simp
  | cons c first ih =>
      have hc := hfirst c List.mem_cons_self
      cases s with
      | nil => rfl
      | cons d s =>
          by_cases hd : isEscaped d = true
          · have hslash : c ≠ f '\\' := fun heq => by
              have hback := hf '\\'
              rw [← heq, hc] at hback
              cases hback
            have hne : c ≠ f d := fun heq => by rw [heq, hf, hd] at hc; cases hc
            simp [escape_cons, hd, List.cons_prefix_cons, hslash, hne]
          · rw [escape_cons, if_neg hd]
            simp only [List.singleton_append, List.map_cons, List.cons_prefix_cons,
              ih fun e he => hfirst e (List.mem_cons_of_mem c he)]

/-- Behind such first characters stands the same text, escaped. -/
theorem drop_escape {f : Char → Char} (hf : ∀ c, isEscaped (f c) = isEscaped c) {first : Str}
    (hfirst : ∀ c ∈ first, isEscaped c = false) {s : Str} (h : first <+: s.map f) :
    (escape s).drop first.length = escape (s.drop first.length) := by
  induction first generalizing s with
  | nil => rfl
  | cons c first ih =>
      cases s with
      | nil => rfl
      | cons d s =>
          rw [List.map_cons, List.cons_prefix_cons] at h
          have hd : isEscaped d = false := by
            rw [← hf, ← h.1]
            exact hfirst c List.mem_cons_self
          rw [escape_cons_of_plain hd, List.length_cons, List.drop_succ_cons, List.drop_succ_cons,
            ih (fun e he => hfirst e (List.mem_cons_of_mem c he)) h.2]

end QuotedString

end Otoroshi
