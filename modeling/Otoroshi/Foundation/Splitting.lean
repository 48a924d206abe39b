/-
# Splitting at a text

`split` at a pattern that is a text of plain characters, not only at one character. The pieces are
found from the left, and the empty ones at the end are dropped.

The first separator cuts the text in two, and the rest is split by itself (`pieces_append`). No piece
has the separator in it, and where there is one, every piece is shorter than the text by at least it
(`length_le_of_mem_pieces`).
-/

import Mathlib.Data.List.Infix
import Otoroshi.Foundation.Text

namespace Otoroshi

/-- A character in front of the first piece. -/
def ontoFirst (c : Char) : List Str → List Str
  | [] => [[c]]
  | piece :: pieces => (c :: piece) :: pieces

/-- The pieces of a text, with the number of characters that are still part of a separator. -/
def piecesSkipping (separator : Str) : Nat → Str → List Str
  | _, [] => [[]]
  | 0, c :: s =>
      if separator.isPrefixOf (c :: s) then
        [] :: piecesSkipping separator (separator.length - 1) s
      else ontoFirst c (piecesSkipping separator 0 s)
  | skipped + 1, _ :: s => piecesSkipping separator skipped s

/-- The pieces between the separators. -/
def pieces (separator s : Str) : List Str := piecesSkipping separator 0 s

/-- `split` at a pattern of plain characters. -/
def splitText (separator s : Str) : List Str :=
  if separator <:+: s then (pieces separator s).rdropWhile List.isEmpty else [s]

/-- A text goes on over no character that it does not have. -/
theorem prefix_append_cons {text before after : Str} {c : Char} (hc : c ∉ text)
    (h : text <+: before ++ c :: after) : text <+: before := by
  induction before generalizing text with
  | nil =>
      cases text with
      | nil => exact List.nil_prefix
      | cons d text =>
          obtain ⟨rfl, -⟩ := List.cons_prefix_cons.mp h
          exact absurd List.mem_cons_self hc
  | cons d before ih =>
      cases text with
      | nil => exact List.nil_prefix
      | cons e text =>
          obtain ⟨rfl, htext⟩ := List.cons_prefix_cons.mp h
          exact List.cons_prefix_cons.mpr ⟨rfl, ih (List.not_mem_of_not_mem_cons hc) htext⟩

theorem infix_append_cons {text before after : Str} {c : Char} (hc : c ∉ text)
    (h : text <:+: before ++ c :: after) : text <:+: before ∨ text <:+: after := by
  induction before with
  | nil =>
      rcases List.infix_cons_iff.mp h with hbegins | hafter
      · exact Or.inl (@prefix_append_cons text [] after c hc hbegins).isInfix
      · exact Or.inr hafter
  | cons d before ih =>
      rcases List.infix_cons_iff.mp h with hbegins | hlater
      · exact Or.inl (@prefix_append_cons text (d :: before) after c hc hbegins).isInfix
      · exact (ih hlater).imp_left fun h => h.trans (List.suffix_cons d before).isInfix

section Pieces

variable {separator s : Str}

theorem ontoFirst_cons (c : Char) (piece : Str) (others : List Str) :
    ontoFirst c (piece :: others) = (c :: piece) :: others := rfl

theorem piecesSkipping_drop (skipped : Nat) (s : Str) :
    piecesSkipping separator skipped s = pieces separator (s.drop skipped) := by
  induction skipped generalizing s with
  | zero => rfl
  | succ skipped ih =>
      cases s with
      | nil => rfl
      | cons c s => exact ih s

/-- A separator at the start. -/
theorem pieces_of_prefix {c : Char} (h : separator <+: c :: s) (hseparator : separator ≠ []) :
    pieces separator (c :: s) = [] :: pieces separator ((c :: s).drop separator.length) := by
  rw [pieces, piecesSkipping, if_pos (List.isPrefixOf_iff_prefix.mpr h), piecesSkipping_drop]
  obtain ⟨first, rest, rfl⟩ := List.exists_cons_of_ne_nil hseparator
  rfl

theorem pieces_cons_of_not {c : Char} (h : ¬ separator <+: c :: s) :
    pieces separator (c :: s) = ontoFirst c (pieces separator s) := by
  rw [pieces, piecesSkipping, if_neg (mt List.isPrefixOf_iff_prefix.mp h)]
  rfl

/-- There is always a piece. -/
theorem exists_pieces_eq_cons (separator s : Str) :
    ∃ piece others, pieces separator s = piece :: others := by
  cases s with
  | nil => exact ⟨[], [], rfl⟩
  | cons c s =>
      rw [pieces, piecesSkipping]
      split_ifs
      · exact ⟨_, _, rfl⟩
      · cases piecesSkipping separator 0 s with
        | nil => exact ⟨_, _, rfl⟩
        | cons piece others => exact ⟨_, _, rfl⟩

theorem pieces_eq_singleton (h : ¬ separator <:+: s) : pieces separator s = [s] := by
  induction s with
  | nil => rfl
  | cons c s ih =>
      rw [pieces_cons_of_not fun hbegins => h hbegins.isInfix, ih fun hinside =>
        h (hinside.trans (List.suffix_cons c s).isInfix)]
      rfl

/-- The text is cut at the first separator. -/
theorem pieces_append (hseparator : separator ≠ []) {before : Str}
    (hbefore : ¬ separator <:+: before ++ separator.dropLast) (after : Str) :
    pieces separator (before ++ (separator ++ after)) = before :: pieces separator after := by
  induction before with
  | nil =>
      obtain ⟨c, rest, rfl⟩ := List.exists_cons_of_ne_nil hseparator
      have hcut : pieces (c :: rest) (c :: (rest ++ after)) = _ :=
        pieces_of_prefix (List.prefix_append (c :: rest) after) hseparator
      rw [← List.cons_append, List.drop_left] at hcut
      exact hcut
  | cons c before ih =>
      have hbegins : ¬ separator <+: c :: (before ++ (separator ++ after)) := by
        intro hbegins
        apply hbefore
        have hsplit : c :: (before ++ (separator ++ after)) =
            (c :: before ++ separator.dropLast) ++ (separator.getLast hseparator :: after) := by
          conv_lhs => rw [← List.dropLast_append_getLast hseparator]
          simp
        rw [hsplit] at hbegins
        refine (List.prefix_of_prefix_length_le hbegins (List.prefix_append ..) ?_).isInfix
        rw [List.cons_append, List.length_cons, List.length_append, List.length_dropLast]
        omega
      rw [List.cons_append, pieces_cons_of_not hbegins, ih fun hinside =>
        hbefore (hinside.trans (List.suffix_cons c _).isInfix), ontoFirst_cons]

/-- Where a separator is for the first time. -/
theorem exists_first (hseparator : separator ≠ []) (h : separator <:+: s) :
    ∃ before after, s = before ++ (separator ++ after) ∧
      ¬ separator <:+: before ++ separator.dropLast := by
  induction s with
  | nil => exact absurd (List.infix_nil.mp h) hseparator
  | cons c s ih =>
      by_cases hbegins : separator <+: c :: s
      · obtain ⟨after, hafter⟩ := hbegins
        refine ⟨[], after, hafter.symm, fun hinside => ?_⟩
        have hlength := hinside.length_le
        rw [List.nil_append, List.length_dropLast] at hlength
        have hpos := List.length_pos_of_ne_nil hseparator
        omega
      · obtain ⟨before, after, rfl, hbefore⟩ := ih ((List.infix_cons_iff.mp h).resolve_left hbegins)
        refine ⟨c :: before, after, rfl, fun hinside => ?_⟩
        rcases List.infix_cons_iff.mp hinside with hstart | hlater
        · refine hbegins (hstart.trans ?_)
          refine List.cons_prefix_cons.mpr ⟨rfl, (List.prefix_append_right_inj before).mpr ?_⟩
          exact (List.dropLast_prefix separator).trans (List.prefix_append separator after)
        · exact hbefore hlater

/-- What holds of a text and its pieces if it goes on from one separator to the next. -/
theorem pieces_induction (hseparator : separator ≠ []) {motive : Str → List Str → Prop}
    (none : ∀ s, ¬ separator <:+: s → motive s [s])
    (cut : ∀ before after, ¬ separator <:+: before ++ separator.dropLast →
      motive after (pieces separator after) →
        motive (before ++ (separator ++ after)) (before :: pieces separator after)) (s : Str) :
    motive s (pieces separator s) := by
  by_cases h : separator <:+: s
  · obtain ⟨before, after, hsplit, hbefore⟩ := exists_first hseparator h
    have hshorter : after.length < s.length := by
      have hpos := List.length_pos_of_ne_nil hseparator
      rw [hsplit, List.length_append, List.length_append]
      omega
    rw [hsplit, pieces_append hseparator hbefore]
    exact cut before after hbefore (pieces_induction hseparator none cut after)
  · rw [pieces_eq_singleton h]
    exact none s h
termination_by s.length

/-- A piece is a part of the text. -/
theorem infix_of_mem_pieces (hseparator : separator ≠ []) {piece : Str}
    (h : piece ∈ pieces separator s) : piece <:+: s := by
  revert piece
  refine pieces_induction hseparator (motive := fun s ps => ∀ {piece}, piece ∈ ps → piece <:+: s)
    (fun s _ piece hpiece => ?_) (fun before after _ ih piece hpiece => ?_) s
  · exact List.mem_singleton.mp hpiece ▸ List.infix_rfl
  · rcases List.mem_cons.mp hpiece with rfl | hafter
    · exact (List.prefix_append _ _).isInfix
    · exact (ih hafter).trans ((List.suffix_append _ _).trans (List.suffix_append _ _)).isInfix

/-- No separator is left in a piece. -/
theorem not_infix_of_mem_pieces (hseparator : separator ≠ []) {piece : Str}
    (h : piece ∈ pieces separator s) : ¬ separator <:+: piece := by
  revert piece
  refine pieces_induction hseparator
    (motive := fun _ ps => ∀ {piece}, piece ∈ ps → ¬ separator <:+: piece)
    (fun s hs piece hpiece => ?_) (fun before after hbefore ih piece hpiece => ?_) s
  · rwa [List.mem_singleton.mp hpiece]
  · rcases List.mem_cons.mp hpiece with rfl | hafter
    · exact fun hinside => hbefore (hinside.trans (List.prefix_append _ _).isInfix)
    · exact ih hafter

/-- Where there is a separator, it is missing in every piece. -/
theorem length_le_of_mem_pieces (hseparator : separator ≠ []) (hs : separator <:+: s) {piece : Str}
    (h : piece ∈ pieces separator s) : piece.length + separator.length ≤ s.length := by
  obtain ⟨before, after, rfl, hbefore⟩ := exists_first hseparator hs
  rw [pieces_append hseparator hbefore] at h
  rw [List.length_append, List.length_append]
  rcases List.mem_cons.mp h with rfl | hafter
  · omega
  · have hlength := (infix_of_mem_pieces hseparator hafter).length_le
    omega

theorem mem_pieces_of_mem_splitText {piece : Str} (h : piece ∈ splitText separator s) :
    piece ∈ pieces separator s := by
  rw [splitText] at h
  split_ifs at h with hs
  · exact (List.rdropWhile_prefix _ _).subset h
  · rwa [pieces_eq_singleton hs]

/-- Only empty pieces at the end are dropped. -/
theorem rdropWhile_cons_of_ne_nil {piece : Str} (h : piece ≠ []) (others : List Str) :
    (piece :: others).rdropWhile List.isEmpty = piece :: others.rdropWhile List.isEmpty := by
  induction others using List.reverseRec with
  | nil =>
      rw [List.rdropWhile_singleton, if_neg (by simpa using h), List.rdropWhile_nil]
  | append_singleton others last ih =>
      rw [← List.cons_append, List.rdropWhile_concat, List.rdropWhile_concat, ih]
      split_ifs <;> rfl

/-- A text whose last piece is not empty is split into all of its pieces. -/
theorem splitText_eq_pieces
    (hlast : ∀ piece ∈ (pieces separator s).getLast?, piece ≠ []) :
    splitText separator s = pieces separator s := by
  rw [splitText]
  split_ifs with hs
  · rw [List.rdropWhile_eq_self_iff]
    intro hne
    rw [List.isEmpty_iff]
    exact hlast _ (List.getLast?_eq_some_getLast hne)
  · rw [pieces_eq_singleton hs]

end Pieces

end Otoroshi
