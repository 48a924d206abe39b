/-
# Values on lines

Labelled values are put on a line each. The labels are known, so the text says what the
values are, as long as they have no line breaks of their own. `values_eq_of_lines_eq` asks
for less: two texts are only the same for different values when a value breaks its line in
one of them, and a later one does in the other.
-/

import Mathlib.Data.List.Basic
import Otoroshi.Foundation.Text

namespace Otoroshi

/-- A label, with its value in one text and in another. -/
structure LabelledValues where
  label : Str
  first : Str
  second : Str

namespace LabelledValues

def line (label value : Str) : Str := label ++ (value ++ ['\n'])

/-- The text with one of the values of each. -/
def lines (value : LabelledValues → Str) (items : List LabelledValues) : Str :=
  items.flatMap fun item => line item.label (value item)

/-- Neither value of the one breaks its line together with the other value of the other. -/
def Apart (x y : LabelledValues) : Prop :=
  ¬ ('\n' ∈ x.first ∧ '\n' ∈ y.second) ∧ ¬ ('\n' ∈ x.second ∧ '\n' ∈ y.first)

variable {items : List LabelledValues}

/-- The line breaks of a text are those of the labels, of the values, and one each. -/
theorem count_lines_le {value other : LabelledValues → Str}
    (h : ∀ item ∈ items, '\n' ∉ value item) :
    (lines value items).count '\n' ≤ (lines other items).count '\n' := by
  induction items with
  | nil => exact le_refl _
  | cons item items ih =>
      rw [List.forall_mem_cons] at h
      have hfree : (value item).count '\n' = 0 := List.count_eq_zero.mpr h.1
      have hrest := ih h.2
      simp only [lines, line, List.flatMap_cons, List.count_append] at hrest ⊢
      omega

/-- Of two texts that begin with different values, the one with the shorter value has more
line breaks after it. -/
theorem count_lt_of_append_eq {v v' rest rest' : Str}
    (h : v ++ '\n' :: rest = v' ++ '\n' :: rest') (hlength : v'.length < v.length) :
    '\n' ∈ v ∧ rest.count '\n' < rest'.count '\n' := by
  obtain ⟨more, hv', -⟩ | ⟨more, hv, hrest⟩ := List.append_eq_append_iff.mp h
  · rw [hv', List.length_append] at hlength
    omega
  · cases more with
    | nil =>
        rw [hv, List.append_nil] at hlength
        omega
    | cons c more =>
        obtain ⟨rfl, hrest'⟩ := List.cons.inj hrest
        have hmore : rest' = more ++ '\n' :: rest := hrest'
        constructor
        · rw [hv]
          simp
        · rw [hmore, List.count_append, List.count_cons_self]
          omega

/-- Labelled texts that are the same have the same values, unless values break lines in
both. -/
theorem values_eq_of_lines_eq (hitems : items.Pairwise Apart)
    (h : lines first items = lines second items) : ∀ item ∈ items, item.first = item.second := by
  induction items with
  | nil => exact List.forall_mem_nil _
  | cons item items ih =>
      obtain ⟨hitem, hrest⟩ := List.pairwise_cons.mp hitems
      have htexts : item.first ++ '\n' :: lines first items =
          item.second ++ '\n' :: lines second items := by
        have hlines := List.append_cancel_left
          (by simpa [lines, line] using h :
            item.label ++ (item.first ++ '\n' :: lines first items) =
              item.label ++ (item.second ++ '\n' :: lines second items))
        exact hlines
      have hvalue : item.first = item.second := by
        by_contra hne
        obtain hlt | heq | hgt := lt_trichotomy item.first.length item.second.length
        · -- the second value breaks its line, so no first value does later on
          obtain ⟨hbreak, hcount⟩ := count_lt_of_append_eq htexts.symm hlt
          have hfree : ∀ other ∈ items, '\n' ∉ other.first := by
            intro other hother hmem
            exact (hitem other hother).2 ⟨hbreak, hmem⟩
          have hle := @count_lines_le items first second hfree
          omega
        · exact hne (List.append_inj_left htexts heq)
        · obtain ⟨hbreak, hcount⟩ := count_lt_of_append_eq htexts hgt
          have hfree : ∀ other ∈ items, '\n' ∉ other.second := by
            intro other hother hmem
            exact (hitem other hother).1 ⟨hbreak, hmem⟩
          have hle := @count_lines_le items second first hfree
          omega
      have hsame : lines first items = lines second items := by
        rw [hvalue] at htexts
        exact (List.cons.inj (List.append_cancel_left htexts)).2
      rw [List.forall_mem_cons]
      exact ⟨hvalue, ih hrest hsame⟩

end LabelledValues

end Otoroshi
