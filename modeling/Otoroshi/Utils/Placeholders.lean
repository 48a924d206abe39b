/-
# Placeholders in a text

A placeholder starts with an opening and goes on to the first closing character. The
placeholders of a text are replaced one after the other, and what replaces one is not looked
at again. What replaces the next one may depend on the ones before.

A line that ends with the closing character lets no placeholder go on to the next line, so
the lines of a text can be replaced line by line (`replaceOnAsync_append`).
-/

import Mathlib.Data.List.Infix
import Otoroshi.Foundation.Text

namespace Otoroshi

namespace Placeholders

variable (opening : Str)

/-- The case of a letter does not matter in the opening. -/
def opens (text : Str) : Bool := (text.take opening.length).map Char.toLower = opening

/-- What stands before the first closing brace, and what stands after it. -/
def close : Str → Option (Str × Str)
  | [] => none
  | c :: text =>
      if c = '}' then some ([], text)
      else (close text).map fun found => (c :: found.1, found.2)

/-- A placeholder at the start of a text: what is between its braces, and what follows. -/
def placeholder (text : Str) : Option (Str × Str) :=
  if opens opening text then
    (close (text.drop opening.length)).map fun found =>
      ((text.take opening.length).drop 2 ++ found.1, found.2)
  else none

/-- `matcher.find`: what stands before the first placeholder, its expression, and the rest. -/
def find : Str → Option (Str × Str × Str)
  | [] => none
  | c :: text =>
      match placeholder opening (c :: text) with
      | some (expression, after) => some ([], expression, after)
      | none => (find text).map fun found => (c :: found.1, found.2)

variable {opening}

theorem length_close {text content after : Str} (h : close text = some (content, after)) :
    after.length < text.length := by
  induction text generalizing content with
  | nil => cases h
  | cons c text ih =>
      rw [close] at h
      split at h
      · cases h
        exact Nat.lt_succ_self _
      · obtain ⟨⟨content', after'⟩, hclose, hfound⟩ := Option.map_eq_some_iff.mp h
        cases hfound
        exact (ih hclose).trans (Nat.lt_succ_self _)

theorem length_placeholder {text expression after : Str}
    (h : placeholder opening text = some (expression, after)) : after.length < text.length := by
  rw [placeholder] at h
  split at h
  · obtain ⟨⟨content, after'⟩, hclose, hfound⟩ := Option.map_eq_some_iff.mp h
    cases hfound
    have hlength := length_close hclose
    rw [List.length_drop] at hlength
    show after'.length < text.length
    omega
  · cases h

theorem length_find {text before expression after : Str}
    (h : find opening text = some (before, expression, after)) : after.length < text.length := by
  induction text generalizing before with
  | nil => cases h
  | cons c text ih =>
      rw [find] at h
      split at h
      · next found hplaceholder =>
          cases h
          exact length_placeholder hplaceholder
      · obtain ⟨⟨before', expression', after'⟩, hfind, hfound⟩ := Option.map_eq_some_iff.mp h
        cases hfound
        exact (ih hfind).trans (Nat.lt_succ_self _)

variable (opening)

variable {σ : Type}

/-- `replaceOnAsync` -/
def replaceOnAsync (callback : Str → StateM σ Str) (text : Str) : StateM σ Str :=
  match _h : find opening text with
  | none => pure text
  | some (before, expression, after) => do
      let replacement ← callback expression
      let rest ← replaceOnAsync callback after
      pure (before ++ replacement ++ rest)
termination_by text.length
decreasing_by exact length_find _h

variable {opening} {callback : Str → StateM σ Str}

theorem replaceOnAsync_of_none {text : Str} (h : find opening text = none) :
    replaceOnAsync opening callback text = pure text := by
  rw [replaceOnAsync]
  split
  · rfl
  · next hsome => rw [hsome] at h; cases h

theorem replaceOnAsync_of_some {text before expression after : Str}
    (h : find opening text = some (before, expression, after)) :
    replaceOnAsync opening callback text = (do
      let replacement ← callback expression
      let rest ← replaceOnAsync opening callback after
      pure (before ++ replacement ++ rest)) := by
  rw [replaceOnAsync]
  split
  · next hnone => rw [hnone] at h; cases h
  · next hsome =>
      rw [hsome] at h
      cases h
      rfl

/-! ## Line by line -/

/-- Nothing is open at the end of the line. -/
def Closed (line : Str) : Prop := ∀ c ∈ line.getLast?, c = '}'

theorem Closed.suffix {line rest : Str} (h : Closed line) (hrest : rest <:+ line) :
    Closed rest := by
  obtain ⟨start, rfl⟩ := hrest
  intro c hc
  apply h c
  rw [List.getLast?_append, hc]
  rfl

theorem close_append {text : Str} (h : '}' ∈ text) (more : Str) :
    close (text ++ more) = (close text).map fun found => (found.1, found.2 ++ more) := by
  induction text with
  | nil => exact absurd h List.not_mem_nil
  | cons c text ih =>
      rw [List.cons_append, close, close]
      by_cases hc : c = '}'
      · rw [if_pos hc, if_pos hc]
        rfl
      · rw [if_neg hc, if_neg hc, ih ((List.mem_cons.mp h).resolve_left (Ne.symm hc)),
          Option.map_map, Option.map_map]
        rfl

theorem suffix_close {text content after : Str} (h : close text = some (content, after)) :
    after <:+ text := by
  induction text generalizing content with
  | nil => cases h
  | cons c text ih =>
      rw [close] at h
      split at h
      · cases h
        exact List.suffix_cons c _
      · obtain ⟨⟨content', after'⟩, hclose, hfound⟩ := Option.map_eq_some_iff.mp h
        cases hfound
        exact (ih hclose).trans (List.suffix_cons c text)

theorem suffix_find {text before expression after : Str}
    (h : find opening text = some (before, expression, after)) : after <:+ text := by
  induction text generalizing before with
  | nil => cases h
  | cons c text ih =>
      rw [find] at h
      split at h
      · next found hplaceholder =>
          cases h
          rw [placeholder] at hplaceholder
          split at hplaceholder
          · obtain ⟨⟨content, after'⟩, hclose, hfound⟩ := Option.map_eq_some_iff.mp hplaceholder
            cases hfound
            exact (suffix_close hclose).trans (List.drop_suffix _ _)
          · cases hplaceholder
      · obtain ⟨⟨before', expression', after'⟩, hfind, hfound⟩ := Option.map_eq_some_iff.mp h
        cases hfound
        exact (ih hfind).trans (List.suffix_cons c text)

/-- What is replaced first is a piece of the text. -/
theorem subset_find {text before expression after : Str}
    (h : find opening text = some (before, expression, after)) : before ⊆ text := by
  induction text generalizing before with
  | nil => cases h
  | cons c text ih =>
      rw [find] at h
      split at h
      · cases h
        exact List.nil_subset _
      · obtain ⟨⟨before', expression', after'⟩, hfind, hfound⟩ := Option.map_eq_some_iff.mp h
        cases hfound
        exact List.cons_subset_cons c (ih hfind)

theorem length_le_of_opens {text : Str} (h : opens opening text = true) :
    opening.length ≤ text.length := by
  have hlength := congrArg List.length (of_decide_eq_true h)
  rw [List.length_map, List.length_take] at hlength
  omega

/-- An opening without line breaks does not go on to the next line. -/
theorem opens_append (hopening : '\n' ∉ opening) (line more : Str) :
    opens opening (line ++ '\n' :: more) = opens opening line := by
  by_cases hlength : opening.length ≤ line.length
  · rw [opens, opens, List.take_append_of_le_length hlength]
  · have hline : opens opening line ≠ true := fun h => hlength (length_le_of_opens h)
    have hmore : opens opening (line ++ '\n' :: more) ≠ true := by
      intro h
      have heq : ((line ++ '\n' :: more).take opening.length).map Char.toLower = opening :=
        of_decide_eq_true h
      apply hopening
      rw [← heq]
      have hmem : '\n' ∈ (line ++ '\n' :: more).take opening.length := by
        obtain ⟨extra, hextra⟩ : ∃ extra, opening.length = line.length + (extra + 1) :=
          ⟨opening.length - line.length - 1, by omega⟩
        rw [hextra, List.take_length_add_append, List.take_succ_cons]
        exact List.mem_append_right _ List.mem_cons_self
      exact List.mem_map.mpr ⟨'\n', hmem, by decide⟩
    rw [Bool.eq_false_iff.mpr hline, Bool.eq_false_iff.mpr hmore]

/-- What is open in a line is closed in it. -/
theorem placeholder_append (hopening : '\n' ∉ opening) (hbrace : '}' ∉ opening) {line : Str}
    (hne : line ≠ []) (hclosed : Closed line) (more : Str) :
    placeholder opening (line ++ '\n' :: more) =
      (placeholder opening line).map fun found => (found.1, found.2 ++ '\n' :: more) := by
  rw [placeholder, placeholder, opens_append hopening]
  by_cases hopens : opens opening line = true
  · have hlength := length_le_of_opens hopens
    have hlast : line.getLast? = some '}' := by
      rw [List.getLast?_eq_some_getLast hne]
      exact congrArg some (hclosed _ (List.getLast?_eq_some_getLast hne))
    have hmem : '}' ∈ line.drop opening.length := by
      by_cases hnil : line.drop opening.length = []
      · -- the line would be the opening itself
        have htake : line.take opening.length = line := by
          rw [List.take_eq_self_iff]
          exact List.drop_eq_nil_iff.mp hnil
        have heq : (line.take opening.length).map Char.toLower = opening :=
          of_decide_eq_true hopens
        rw [htake] at heq
        refine absurd ?_ hbrace
        rw [← heq]
        exact List.mem_map.mpr ⟨'}', List.mem_of_getLast? hlast, by decide⟩
      · apply List.mem_of_getLast?
        rw [List.getLast?_drop, if_neg (by simpa using hnil), hlast]
    rw [if_pos hopens, if_pos hopens, List.drop_append_of_le_length hlength,
      List.take_append_of_le_length hlength, close_append hmem, Option.map_map, Option.map_map]
    rfl
  · rw [if_neg hopens, if_neg hopens]
    rfl

theorem not_opens_newline (hopening : '\n' ∉ opening) (hne : opening ≠ []) (more : Str) :
    opens opening ('\n' :: more) = false := by
  have h := opens_append hopening [] more
  rw [List.nil_append] at h
  rw [h, Bool.eq_false_iff]
  intro hopens
  exact hne (List.length_eq_zero_iff.mp (Nat.le_zero.mp (length_le_of_opens hopens)))

theorem find_append (hopening : '\n' ∉ opening) (hbrace : '}' ∉ opening) (hne : opening ≠ [])
    {line : Str} (hclosed : Closed line) (more : Str) :
    find opening (line ++ '\n' :: more) =
      match find opening line with
      | some (before, expression, after) => some (before, expression, after ++ '\n' :: more)
      | none => (find opening more).map fun found => (line ++ '\n' :: found.1, found.2) := by
  induction line with
  | nil =>
      have hnone : placeholder opening ('\n' :: more) = none := by
        rw [placeholder, not_opens_newline hopening hne]
        rfl
      have hnext : find opening ('\n' :: more) =
          (find opening more).map fun found => ('\n' :: found.1, found.2) := by
        rw [find, hnone]
      rw [List.nil_append, hnext]
      rfl
  | cons c line ih =>
      have hplaceholder := placeholder_append hopening hbrace (List.cons_ne_nil c line) hclosed more
      rw [List.cons_append] at hplaceholder ⊢
      rw [find, hplaceholder, find]
      cases placeholder opening (c :: line) with
      | some found => rfl
      | none =>
          show (find opening (line ++ '\n' :: more)).map _ = _
          rw [ih (hclosed.suffix (List.suffix_cons c line))]
          cases find opening line with
          | some found => rfl
          | none =>
              show ((find opening more).map _).map _ = _
              rw [Option.map_map]
              rfl

/-- The lines of a text are replaced one after the other. -/
theorem replaceOnAsync_append (hopening : '\n' ∉ opening) (hbrace : '}' ∉ opening)
    (hne : opening ≠ []) (line more : Str) (hclosed : Closed line) :
    replaceOnAsync opening callback (line ++ '\n' :: more) = (do
      let first ← replaceOnAsync opening callback line
      let rest ← replaceOnAsync opening callback more
      pure (first ++ '\n' :: rest)) := by
  have hfind := find_append hopening hbrace hne hclosed more
  cases hline : find opening line with
  | none =>
      rw [hline] at hfind
      rw [replaceOnAsync_of_none hline, pure_bind]
      cases hmore : find opening more with
      | none =>
          rw [hmore] at hfind
          rw [replaceOnAsync_of_none hfind, replaceOnAsync_of_none hmore, pure_bind]
      | some found =>
          obtain ⟨before, expression, after⟩ := found
          rw [hmore] at hfind
          rw [replaceOnAsync_of_some hfind, replaceOnAsync_of_some hmore]
          simp only [bind_assoc, pure_bind, List.append_assoc, List.cons_append]
  | some found =>
      obtain ⟨before, expression, after⟩ := found
      rw [hline] at hfind
      have hsuffix := suffix_find hline
      rw [replaceOnAsync_of_some hfind, replaceOnAsync_of_some hline,
        replaceOnAsync_append hopening hbrace hne after more (hclosed.suffix hsuffix)]
      simp only [bind_assoc, pure_bind, List.append_assoc]
termination_by line.length
decreasing_by exact length_find hline

/-- No line break comes in. -/
theorem newline_notMem_replaceOnAsync
    (hcallback : ∀ expression state, '\n' ∉ (callback expression state).1) (line : Str)
    (hline : '\n' ∉ line) (state : σ) :
    '\n' ∉ (replaceOnAsync opening callback line state).1 := by
  cases hfind : find opening line with
  | none =>
      rw [replaceOnAsync_of_none hfind]
      exact hline
  | some found =>
      obtain ⟨before, expression, after⟩ := found
      rw [replaceOnAsync_of_some hfind]
      show '\n' ∉ before ++ (callback expression state).1 ++
        (replaceOnAsync opening callback after (callback expression state).2).1
      have hrest := newline_notMem_replaceOnAsync hcallback after
        (fun h => hline ((suffix_find hfind).subset h)) (callback expression state).2
      simp only [List.mem_append, not_or]
      exact ⟨⟨fun h => hline (subset_find hfind h), hcallback expression state⟩, hrest⟩
termination_by line.length
decreasing_by exact length_find hfind

/-- A character that starts no opening stays where it is. -/
theorem exists_replaceOnAsync_cons {c : Char} (hc : c.toLower ∉ opening) (hne : opening ≠ [])
    (text : Str) (state : σ) :
    ∃ rest, (replaceOnAsync opening callback (c :: text) state).1 = c :: rest := by
  have hopens : opens opening (c :: text) = false := by
    rw [Bool.eq_false_iff]
    intro h
    have heq : ((c :: text).take opening.length).map Char.toLower = opening := of_decide_eq_true h
    obtain ⟨first, opening, rfl⟩ := List.exists_cons_of_ne_nil hne
    rw [List.length_cons, List.take_succ_cons, List.map_cons] at heq
    exact hc (List.mem_cons.mpr (Or.inl (List.cons.inj heq).1))
  have hfind : find opening (c :: text) =
      (find opening text).map fun found => (c :: found.1, found.2) := by
    rw [find, placeholder, hopens]
    rfl
  cases htext : find opening text with
  | none =>
      rw [htext] at hfind
      rw [replaceOnAsync_of_none hfind]
      exact ⟨text, rfl⟩
  | some found =>
      obtain ⟨before, expression, after⟩ := found
      rw [htext] at hfind
      rw [replaceOnAsync_of_some hfind]
      exact ⟨_, rfl⟩

end Placeholders

end Otoroshi
