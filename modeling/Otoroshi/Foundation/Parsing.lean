/-
# Parsers over the rest of a text

A parser is a computation whose state is the part of the text that is not read yet. A loop
of the program that reads on while something is ahead is `whileDo`, for a body that reads
at least one character each time.

`Reads` says that a parser reads what a writer wrote, whatever follows, as long as what
follows cannot be taken for a part of it. It composes along sequences, and along loops
over the items of a list that is written with separators.
-/

import Mathlib.Data.List.TakeWhile
import Otoroshi.Foundation.Stateful
import Otoroshi.Foundation.Text

namespace Otoroshi

open Stateful

abbrev TextParser (ε α : Type) := Stateful Str ε α

namespace TextParser

variable {ε α β ι : Type}

/-! ## Progress -/

/-- A value is returned after at least `n` characters. -/
def TakesAtLeast (n : Nat) (parser : TextParser ε α) : Prop :=
  ∀ text value rest, parser text = (.ok value, rest) → rest.length + n ≤ text.length

variable {n : Nat} {parser : TextParser ε α} {next : α → TextParser ε β}

theorem TakesAtLeast.zero (h : TakesAtLeast n parser) : TakesAtLeast 0 parser := by
  intro text value rest hrun
  have hle := h text value rest hrun
  omega

theorem takesAtLeast_pure (value : α) : TakesAtLeast 0 (pure value : TextParser ε α) := by
  intro text value' rest hrun
  cases hrun
  exact le_refl _

theorem takesAtLeast_throw (e : ε) : TakesAtLeast n (throw e : TextParser ε α) := by
  intro text value rest hrun
  cases hrun

/-- In a sequence it is enough that one part takes that much. -/
theorem takesAtLeast_bind_left (hparser : TakesAtLeast n parser)
    (hnext : ∀ a, TakesAtLeast 0 (next a)) : TakesAtLeast n (parser >>= next) := by
  intro text value rest hrun
  obtain ⟨a, middle, hfirst, hsecond⟩ := exists_of_bind hrun
  have hle := hparser text a middle hfirst
  have hle' := hnext a middle value rest hsecond
  omega

theorem takesAtLeast_bind_right (hparser : TakesAtLeast 0 parser)
    (hnext : ∀ a, TakesAtLeast n (next a)) : TakesAtLeast n (parser >>= next) := by
  intro text value rest hrun
  obtain ⟨a, middle, hfirst, hsecond⟩ := exists_of_bind hrun
  have hle := hparser text a middle hfirst
  have hle' := hnext a middle value rest hsecond
  omega

/-- `while (p(peek)) i += 1`, for the characters that were passed. -/
def takeWhile (p : Char → Bool) : TextParser ε Str := fun text =>
  (.ok (text.takeWhile p), text.dropWhile p)

theorem takesAtLeast_takeWhile (p : Char → Bool) :
    TakesAtLeast 0 (takeWhile p : TextParser ε Str) := by
  intro text value rest hrun
  cases hrun
  exact (List.dropWhile_suffix p).length_le

theorem takesAtLeast_get : TakesAtLeast 0 (get : TextParser ε Str) := by
  intro text value rest hrun
  cases hrun
  exact le_refl _

/-- Some of the characters ahead are passed. -/
theorem takesAtLeast_modify {f : Str → Str} (hf : ∀ text, f text <:+ text) :
    TakesAtLeast 0 (modify f : TextParser ε Unit) := by
  intro text value rest hrun
  cases hrun
  exact (hf text).length_le

/-! ## Loops -/

section While

variable (continues : Str → Bool) (parser : TextParser ε α)

/-- `while (continues) out += parser` -/
def whileDo (hparser : TakesAtLeast 1 parser) (text : Str) : Except ε (List α) × Str :=
  if continues text then
    match _hrun : parser text with
    | (.ok value, rest) =>
        match whileDo hparser rest with
        | (.ok values, after) => (.ok (value :: values), after)
        | (.error e, after) => (.error e, after)
    | (.error e, rest) => (.error e, rest)
  else (.ok [], text)
  termination_by text.length
  decreasing_by
    have hle := hparser text value rest _hrun
    omega

variable {continues parser} {hparser : TakesAtLeast 1 parser} {text rest : Str}

theorem whileDo_of_not (h : continues text = false) :
    whileDo continues parser hparser text = (.ok [], text) := by
  rw [whileDo, if_neg (by simp [h])]

theorem whileDo_of_ok {value : α} {values : List α} {after : Str} (h : continues text = true)
    (hrun : parser text = (.ok value, rest))
    (hvalues : whileDo continues parser hparser rest = (.ok values, after)) :
    whileDo continues parser hparser text = (.ok (value :: values), after) := by
  rw [whileDo, if_pos h]
  split
  · next value' rest' hrun' =>
      rw [hrun] at hrun'
      cases hrun'
      rw [hvalues]
  · next e rest' hrun' =>
      rw [hrun] at hrun'
      cases hrun'

theorem takesAtLeast_whileDo : TakesAtLeast 0 (whileDo continues parser hparser) := by
  intro text values rest hrun
  induction text using whileDo.induct continues parser hparser generalizing values rest with
  | case1 text hcontinues value middle hfirst values' after hrest ih =>
      have hle := hparser text value middle hfirst
      have hle' := ih values' after hrest
      rw [whileDo_of_ok hcontinues hfirst hrest] at hrun
      cases hrun
      omega
  | case2 text hcontinues value middle hfirst e after hrest ih =>
      rw [whileDo, if_pos hcontinues] at hrun
      split at hrun
      · next value' middle' hfirst' =>
          rw [hfirst] at hfirst'
          cases hfirst'
          rw [hrest] at hrun
          cases hrun
      · cases hrun
  | case3 text hcontinues e middle hfirst =>
      rw [whileDo, if_pos hcontinues] at hrun
      split at hrun
      · next value' middle' hfirst' =>
          rw [hfirst] at hfirst'
          cases hfirst'
      · cases hrun
  | case4 text hcontinues =>
      rw [whileDo, if_neg hcontinues] at hrun
      cases hrun
      exact le_refl _

end While

/-! ## Reading what is written -/

/-- The parser reads the text as the value, whatever follows that it stops at. -/
def Reads (stops : Str → Prop) (parser : TextParser ε α) (text : Str) (value : α) : Prop :=
  ∀ rest, stops rest → parser (text ++ rest) = (.ok value, rest)

section Reads

variable {stops stops' : Str → Prop} {text text' : Str} {value : α} {result : β}

theorem Reads.mono (h : Reads stops parser text value) (hstops : ∀ rest, stops' rest → stops rest) :
    Reads stops' parser text value :=
  fun rest hrest => h rest (hstops rest hrest)

/-- The first of the characters ahead, if there is one, is not one of these. -/
def NotAhead (p : Char → Bool) (rest : Str) : Prop := ∀ c ∈ rest.head?, p c = false

theorem reads_takeWhile {p : Char → Bool} (htext : ∀ c ∈ text, p c = true) :
    Reads (NotAhead p) (takeWhile p : TextParser ε Str) text text := by
  intro rest hrest
  have hstop : rest.takeWhile p = [] ∧ rest.dropWhile p = rest := by
    cases rest with
    | nil => simp
    | cons c rest => simp [hrest c rfl]
  rw [takeWhile, List.takeWhile_append_of_pos htext, List.dropWhile_append_of_pos htext,
    hstop.1, hstop.2, List.append_nil]

theorem intercalate_nil_eq_flatten (texts : List Str) :
    List.intercalate [] texts = texts.flatten := by
  induction texts with
  | nil => rfl
  | cons text texts ih =>
      cases texts with
      | nil => simp
      | cons other texts =>
          rw [List.intercalate_cons_cons, ih, List.append_nil]
          rfl

theorem exists_intercalate_cons (separator first : Str) (others : List Str) :
    ∃ more, List.intercalate separator (first :: others) = first ++ more := by
  cases others with
  | nil => exact ⟨[], by simp⟩
  | cons other others =>
      exact ⟨separator ++ List.intercalate separator (other :: others), by
        rw [List.intercalate_cons_cons, List.append_assoc]⟩

/-- A loop over what was written with separators, for a body that reads a separator along
with the item before it. -/
theorem reads_whileDo {continues : Str → Bool} {hparser : TakesAtLeast 1 parser} {separator : Str}
    {write : ι → Str} {read : ι → α} {items : List ι}
    (hcontinues : ∀ item ∈ items, ∀ rest, continues (write item ++ rest) = true)
    (hdone : ∀ rest, stops rest → continues rest = false)
    (hnext : ∀ item ∈ items, ∀ other ∈ items, ∀ rest,
      parser (write item ++ (separator ++ (write other ++ rest))) =
        (.ok (read item), write other ++ rest))
    (hlast : ∀ item ∈ items, Reads stops parser (write item) (read item)) :
    Reads stops (whileDo continues parser hparser)
      (List.intercalate separator (items.map write)) (items.map read) := by
  intro rest hrest
  induction items with
  | nil => exact whileDo_of_not (hdone rest hrest)
  | cons item items ih =>
      have hitem : item ∈ item :: items := List.mem_cons_self
      cases items with
      | nil =>
          rw [List.map_singleton, List.intercalate_singleton]
          exact whileDo_of_ok (hcontinues item hitem rest) (hlast item hitem rest hrest)
            (whileDo_of_not (hdone rest hrest))
      | cons other items =>
          have hother : other ∈ item :: other :: items := by simp
          obtain ⟨more, hmore⟩ := exists_intercalate_cons separator (write other) (items.map write)
          have htail : whileDo continues parser hparser
              (List.intercalate separator ((other :: items).map write) ++ rest) =
                (.ok ((other :: items).map read), rest) := by
            apply ih
            · intro i hi
              exact hcontinues i (List.mem_cons_of_mem _ hi)
            · intro i hi j hj
              exact hnext i (List.mem_cons_of_mem _ hi) j (List.mem_cons_of_mem _ hj)
            · intro i hi
              exact hlast i (List.mem_cons_of_mem _ hi)
          rw [List.map_cons, hmore, List.append_assoc] at htail
          rw [List.map_cons, List.map_cons, List.map_cons, List.intercalate_cons_cons, hmore]
          simp only [List.append_assoc]
          exact whileDo_of_ok (hcontinues item hitem _)
            (hnext item hitem other hother (more ++ rest)) htail

end Reads

end TextParser

end Otoroshi
