/-
# Patterns of text and groups

A pattern of characters, dots and groups, where a dot is any one character and a group any number of
them. Line terminators are neither. A pattern has to match a whole text, and its groups take as much
as they can, the first one first.

So a separator between two groups is the last one of the text (`unapply_pair`).
-/

import Mathlib.Algebra.Ring.Nat
import Mathlib.Data.List.Infix
import Otoroshi.Foundation.Text

namespace Otoroshi

namespace Captures

/-- What a dot does not match. -/
def isLineTerminator (c : Char) : Bool :=
  c == '\n' || c == '\r' || c == '\u0085' || c == '\u2028' || c == '\u2029'

/-- `.` and `(.*)` besides the characters. -/
inductive Item
  | char (c : Char)
  | any
  | group
  deriving DecidableEq

/-- A group that takes as much as it can, before what comes next. -/
def greedy (next : Str → Option (List Str)) : Str → Option (List Str)
  | [] => (next []).map ([] :: ·)
  | c :: text =>
      if isLineTerminator c then (next (c :: text)).map ([] :: ·)
      else
        match greedy next text with
        | some (capture :: captures) => some ((c :: capture) :: captures)
        | _ => (next (c :: text)).map ([] :: ·)

/-- What the groups of a pattern capture in a text. -/
def unapply : List Item → Str → Option (List Str)
  | [], text => if text.isEmpty then some [] else none
  | .char _ :: _, [] => none
  | .char c :: items, d :: text => if c = d then unapply items text else none
  | .any :: _, [] => none
  | .any :: items, d :: text => if isLineTerminator d then none else unapply items text
  | .group :: items, text => greedy (unapply items) text

/-- The items that are left behind a text that no group takes part of. -/
def advance : List Item → Str → Option (List Item)
  | items, [] => some items
  | .char c :: items, d :: text => if c = d then advance items text else none
  | .any :: items, d :: text => if isLineTerminator d then none else advance items text
  | _, _ => none

/-- The pattern and the text differ before the first group. -/
def clash : List Item → Str → Bool
  | .char c :: items, d :: text => c != d || clash items text
  | .any :: items, d :: text => isLineTerminator d || clash items text
  | [], _ :: _ => true
  | _, _ => false

/-- The captures and the characters make up the text. -/
inductive Fits : List Item → List Str → Str → Prop
  | nil : Fits [] [] []
  | char {c items captures text} (h : Fits items captures text) :
      Fits (.char c :: items) captures (c :: text)
  | any {d items captures text} (h : Fits items captures text) :
      Fits (.any :: items) captures (d :: text)
  | group {capture items captures text} (h : Fits items captures text) :
      Fits (.group :: items) (capture :: captures) (capture ++ text)

variable {items rest : List Item} {lead text : Str} {captures : List Str}

theorem unapply_of_advance (h : advance items lead = some rest) (text : Str) :
    unapply items (lead ++ text) = unapply rest text := by
  induction lead generalizing items with
  | nil =>
      rw [advance] at h
      rw [Option.some.inj h, List.nil_append]
  | cons d lead ih =>
      cases items with
      | nil => cases h
      | cons item items =>
          cases item with
          | char c =>
              rw [advance] at h
              split_ifs at h with hc
              rw [List.cons_append, unapply, if_pos hc, ih h]
          | any =>
              rw [advance] at h
              split_ifs at h with hd
              rw [List.cons_append, unapply, if_neg hd, ih h]
          | group => cases h

theorem unapply_of_clash (h : clash items lead = true) (text : Str) :
    unapply items (lead ++ text) = none := by
  induction lead generalizing items with
  | nil =>
      cases items with
      | nil => cases h
      | cons item items => cases item <;> cases h
  | cons d lead ih =>
      cases items with
      | nil => rfl
      | cons item items =>
          cases item with
          | char c =>
              rw [clash, Bool.or_eq_true, bne_iff_ne] at h
              rw [List.cons_append, unapply]
              split_ifs with hc
              · exact ih (h.resolve_left fun hne => hne hc)
              · rfl
          | any =>
              rw [clash, Bool.or_eq_true] at h
              rw [List.cons_append, unapply]
              split_ifs with hd
              · rfl
              · exact ih (h.resolve_left hd)
          | group => cases h

/-- A group that takes nothing. -/
theorem exists_of_empty {next : Str → Option (List Str)}
    (h : (next text).map ([] :: ·) = some captures) :
    ∃ capture others rest, captures = capture :: others ∧ text = capture ++ rest ∧
      next rest = some others ∧ ∀ c ∈ capture, isLineTerminator c = false := by
  obtain ⟨others, hothers, rfl⟩ := Option.map_eq_some_iff.mp h
  exact ⟨[], others, text, rfl, rfl, hothers, nofun⟩

/-- What a group takes is the start of the text, without line terminators. -/
theorem greedy_eq_some {next : Str → Option (List Str)} (h : greedy next text = some captures) :
    ∃ capture others rest, captures = capture :: others ∧ text = capture ++ rest ∧
      next rest = some others ∧ ∀ c ∈ capture, isLineTerminator c = false := by
  induction text generalizing captures with
  | nil => exact exists_of_empty h
  | cons c text ih =>
      rw [greedy] at h
      split_ifs at h with hc
      · exact exists_of_empty h
      · split at h
        · next capture others hgreedy =>
            cases h
            obtain ⟨capture', others', rest, heq, rfl, hrest, hfree⟩ := ih hgreedy
            obtain ⟨rfl, rfl⟩ := List.cons.inj heq
            exact ⟨c :: capture, others, rest, rfl, rfl, hrest,
              List.forall_mem_cons.mpr ⟨Bool.eq_false_iff.mpr hc, hfree⟩⟩
        · exact exists_of_empty h

theorem fits_of_unapply (h : unapply items text = some captures) : Fits items captures text := by
  induction items generalizing text captures with
  | nil =>
      rw [unapply] at h
      split_ifs at h with htext
      rw [List.isEmpty_iff.mp htext, ← Option.some.inj h]
      exact .nil
  | cons item items ih =>
      cases item with
      | char c =>
          cases text with
          | nil => cases h
          | cons d text =>
              rw [unapply] at h
              split_ifs at h with hc
              subst hc
              exact .char (ih h)
      | any =>
          cases text with
          | nil => cases h
          | cons d text =>
              rw [unapply] at h
              split_ifs at h
              exact .any (ih h)
      | group =>
          obtain ⟨capture, others, rest, rfl, rfl, hrest, -⟩ := greedy_eq_some h
          exact .group (ih hrest)

theorem Fits.char_inv {c : Char} (h : Fits (.char c :: items) captures text) :
    ∃ rest, text = c :: rest ∧ Fits items captures rest := by
  cases h with
  | char hrest => exact ⟨_, rfl, hrest⟩

theorem Fits.any_inv (h : Fits (.any :: items) captures text) :
    ∃ d rest, text = d :: rest ∧ Fits items captures rest := by
  cases h with
  | any hrest => exact ⟨_, _, rfl, hrest⟩

theorem Fits.group_inv {capture : Str} (h : Fits (.group :: items) (capture :: captures) text) :
    ∃ rest, text = capture ++ rest ∧ Fits items captures rest := by
  cases h with
  | group hrest => exact ⟨_, rfl, hrest⟩

/-- There is a capture for each group, -/
theorem Fits.length_captures (h : Fits items captures text) :
    captures.length = items.count .group := by
  induction h with
  | nil => rfl
  | char _ ih => rw [ih, List.count_cons_of_ne (by nofun)]
  | any _ ih => rw [ih, List.count_cons_of_ne (by nofun)]
  | group _ ih => rw [List.length_cons, ih, List.count_cons_self]

/-- and one character for each other item. -/
theorem Fits.length_text (h : Fits items captures text) :
    text.length = (captures.map List.length).sum + items.countP (· != .group) := by
  induction h with
  | nil => rfl
  | char _ ih => rw [List.length_cons, ih, List.countP_cons_of_pos (by rfl), Nat.add_assoc]
  | any _ ih => rw [List.length_cons, ih, List.countP_cons_of_pos (by rfl), Nat.add_assoc]
  | group _ ih =>
      rw [List.length_append, ih, List.countP_cons_of_neg (by decide), List.map_cons,
        List.sum_cons, Nat.add_assoc]

/-- A line terminator is only matched by itself. -/
theorem unapply_of_lineTerminator {c : Char} (hc : isLineTerminator c = true) (hmem : c ∈ text)
    (hitems : Item.char c ∉ items) : unapply items text = none := by
  cases hunapply : unapply items text with
  | none => rfl
  | some captures =>
      exfalso
      induction items generalizing text captures with
      | nil =>
          rw [unapply] at hunapply
          split_ifs at hunapply with htext
          rw [List.isEmpty_iff.mp htext] at hmem
          cases hmem
      | cons item items ih =>
          have hlater := fun h => hitems (List.mem_cons_of_mem _ h)
          cases item with
          | char d =>
              cases text with
              | nil => cases hunapply
              | cons e text =>
                  rw [unapply] at hunapply
                  split_ifs at hunapply with hd
                  subst hd
                  rcases List.mem_cons.mp hmem with rfl | hmem
                  · exact hitems List.mem_cons_self
                  · exact ih hmem hlater _ hunapply
          | any =>
              cases text with
              | nil => cases hunapply
              | cons e text =>
                  rw [unapply] at hunapply
                  split_ifs at hunapply with he
                  rcases List.mem_cons.mp hmem with rfl | hmem
                  · exact he hc
                  · exact ih hmem hlater _ hunapply
          | group =>
              obtain ⟨capture, others, rest, -, rfl, hrest, hfree⟩ := greedy_eq_some hunapply
              rcases List.mem_append.mp hmem with hcapture | hrestmem
              · rw [hfree c hcapture] at hc
                cases hc
              · exact ih hrestmem hlater _ hrest

/-- A group at the end takes the rest of the text. -/
theorem unapply_group (h : ∀ c ∈ text, isLineTerminator c = false) :
    unapply [.group] text = some [text] := by
  show greedy (unapply []) text = some [text]
  induction text with
  | nil => rfl
  | cons c text ih =>
      rw [greedy, if_neg (Bool.eq_false_iff.mp (h c List.mem_cons_self)),
        ih fun d hd => h d (List.mem_cons_of_mem _ hd)]

/-- A separator between two groups is found where it is for the last time. -/
theorem unapply_pair {separator : Char} {name last : Str} (hseparator : separator ∉ last)
    (hname : ∀ c ∈ name, isLineTerminator c = false)
    (hlast : ∀ c ∈ last, isLineTerminator c = false) :
    unapply [.group, .char separator, .group] (name ++ separator :: last) = some [name, last] := by
  show greedy (unapply [.char separator, .group]) _ = _
  have hhere : unapply [.char separator, .group] (separator :: last) = some [last] := by
    rw [unapply, if_pos rfl, unapply_group hlast]
  induction name with
  | nil =>
      have hnone : greedy (unapply [.char separator, .group]) last = none := by
        cases hgreedy : greedy (unapply [.char separator, .group]) last with
        | none => rfl
        | some captures =>
            obtain ⟨capture, others, rest, -, rfl, hrest, -⟩ := greedy_eq_some hgreedy
            cases rest with
            | nil => cases hrest
            | cons c rest =>
                rw [unapply] at hrest
                split_ifs at hrest with hc
                subst hc
                exact absurd (List.mem_append_right _ List.mem_cons_self) hseparator
      rw [List.nil_append, greedy, hnone, hhere]
      split_ifs <;> rfl
  | cons c name ih =>
      rw [List.cons_append, greedy, if_neg (Bool.eq_false_iff.mp (hname c List.mem_cons_self)),
        ih fun d hd => hname d (List.mem_cons_of_mem _ hd)]

end Captures

end Otoroshi
