/-
# Intersections up to an equality

A type may have an equality that is coarser than being the same. Sequences over it are
intersected as multisets, and turned into sets, with that equality.

`length_distinct_inter_eq_iff` says when an intersection has as many different elements as one
of the two sequences has elements: that sequence has to be within the other one, and without
repetitions.
-/

import Mathlib.Data.List.Lattice
import Mathlib.Data.List.Perm.Subperm

namespace Otoroshi

namespace UpToEquality

variable {α : Type} [BEq α] {items others : List α} {item : α}

/-- An equal element is there. -/
def Among (item : α) (items : List α) : Prop := ∃ other ∈ items, (item == other) = true

/-- Along the first elements, each with the ones that are not equal to it. -/
@[elab_as_elim]
theorem eraseDups_induction {motive : List α → Prop} (hnil : motive [])
    (hcons : ∀ item items, motive (items.filter fun other => !other == item) →
      motive (item :: items)) : ∀ items, motive items
  | [] => hnil
  | item :: items => hcons item items (eraseDups_induction hnil hcons _)
termination_by items => items.length
decreasing_by exact Nat.lt_succ_of_le (List.length_filter_le _ _)

theorem eraseDups_subset (items : List α) : items.eraseDups ⊆ items := by
  induction items using eraseDups_induction with
  | hnil => exact List.nil_subset _
  | hcons item items ih =>
      rw [List.eraseDups_cons]
      exact List.cons_subset_cons item fun other hother => (List.mem_filter.mp (ih hother)).1

theorem among_of_elem (h : items.elem item = true) : Among item items := by
  rw [List.elem_eq_contains, List.contains_iff_exists_mem_beq] at h
  exact h

theorem nil_bagInter (others : List α) : ([] : List α).bagInter others = [] := by
  cases others <;> rfl

theorem bagInter_nil (items : List α) : items.bagInter [] = [] := by
  cases items <;> rfl

theorem bagInter_cons (item : α) (items others : List α) :
    (item :: items).bagInter others =
      if others.elem item then item :: items.bagInter (others.erase item)
      else items.bagInter others := by
  cases others with
  | nil =>
      rw [bagInter_nil, bagInter_nil]
      rfl
  | cons other others =>
      rw [List.bagInter]
      exact List.cons_ne_nil other others

theorem bagInter_subset (items others : List α) : items.bagInter others ⊆ items := by
  induction items generalizing others with
  | nil =>
      rw [nil_bagInter]
      exact List.nil_subset _
  | cons item items ih =>
      rw [bagInter_cons]
      split
      · exact List.cons_subset_cons item (ih _)
      · exact List.subset_cons_of_subset item (ih others)

theorem among_of_mem_bagInter (h : item ∈ items.bagInter others) : Among item others := by
  induction items generalizing others with
  | nil =>
      rw [nil_bagInter] at h
      exact absurd h List.not_mem_nil
  | cons first items ih =>
      rw [bagInter_cons] at h
      split at h
      · next helem =>
          obtain rfl | hrest := List.mem_cons.mp h
          · exact among_of_elem helem
          · obtain ⟨other, hother, hequal⟩ := ih hrest
            exact ⟨other, List.mem_of_mem_erase hother, hequal⟩
      · exact ih h

section Equivalence

variable [EquivBEq α]

theorem pairwise_eraseDups (items : List α) :
    items.eraseDups.Pairwise fun first second => (first == second) = false := by
  induction items using eraseDups_induction with
  | hnil => exact List.Pairwise.nil
  | hcons item items ih =>
      rw [List.eraseDups_cons, List.pairwise_cons]
      refine ⟨fun other hother => ?_, ih⟩
      have hmem := List.mem_filter.mp (eraseDups_subset _ hother)
      rw [BEq.comm]
      simpa using hmem.2

theorem among_eraseDups (h : item ∈ items) : Among item items.eraseDups := by
  induction items using eraseDups_induction with
  | hnil => exact absurd h List.not_mem_nil
  | hcons first items ih =>
      rw [List.eraseDups_cons]
      by_cases hequal : (item == first) = true
      · exact ⟨first, List.mem_cons_self, hequal⟩
      · have hne : item ≠ first := fun hsame => hequal (by rw [hsame]; exact BEq.rfl)
        have hrest : item ∈ items.filter fun other => !other == first := by
          rw [List.mem_filter]
          exact ⟨(List.mem_cons.mp h).resolve_left hne, by simpa using hequal⟩
        obtain ⟨other, hother, hsame⟩ := ih hrest
        exact ⟨other, List.mem_cons_of_mem _ hother, hsame⟩

/-- What is in both sequences is in their intersection. -/
theorem among_bagInter (h : Among item items) (h' : Among item others) :
    Among item (items.bagInter others) := by
  induction items generalizing others with
  | nil =>
      obtain ⟨other, hother, -⟩ := h
      exact absurd hother List.not_mem_nil
  | cons first items ih =>
      rw [bagInter_cons]
      by_cases hfirst : (item == first) = true
      · have helem : others.elem first = true := by
          obtain ⟨other, hother, hequal⟩ := h'
          rw [List.elem_eq_contains, List.contains_iff_exists_mem_beq]
          exact ⟨other, hother, BEq.trans (BEq.symm hfirst) hequal⟩
        rw [if_pos helem]
        exact ⟨first, List.mem_cons_self, hfirst⟩
      · have hrest : Among item items := by
          obtain ⟨other, hother, hequal⟩ := h
          obtain rfl | hmem := List.mem_cons.mp hother
          · exact absurd hequal hfirst
          · exact ⟨other, hmem, hequal⟩
        split
        · obtain ⟨other, hother, hequal⟩ := h'
          have hother' : other ∈ others.erase first := by
            rw [List.erase_eq_eraseP', List.mem_eraseP_of_neg]
            · exact hother
            · exact fun hsame => hfirst (BEq.trans hequal hsame)
          obtain ⟨found, hfound, hsame⟩ := ih hrest ⟨other, hother', hequal⟩
          exact ⟨found, List.mem_cons_of_mem _ hfound, hsame⟩
        · exact ih hrest h'

/-- The classes of equal elements. -/
def classes (α : Type) [BEq α] [EquivBEq α] : Setoid α where
  r first second := (first == second) = true
  iseqv := ⟨fun _ => BEq.rfl, BEq.symm, BEq.trans⟩

theorem mk_eq_iff {first second : α} :
    Quotient.mk (classes α) first = Quotient.mk (classes α) second ↔ (first == second) = true :=
  ⟨Quotient.exact, fun h => Quotient.sound h⟩

theorem nodup_map_mk_iff :
    (items.map (Quotient.mk (classes α))).Nodup ↔
      items.Pairwise fun first second => (first == second) = false := by
  rw [List.Nodup, List.pairwise_map]
  apply List.Pairwise.iff
  intro first second
  rw [ne_eq, mk_eq_iff, Bool.not_eq_true]

theorem mk_mem_map_iff :
    Quotient.mk (classes α) item ∈ items.map (Quotient.mk (classes α)) ↔ Among item items := by
  rw [List.mem_map]
  refine exists_congr fun other => and_congr_right fun _ => ?_
  rw [eq_comm, mk_eq_iff]

theorem length_distinct_inter_eq_iff :
    (items.bagInter others).eraseDups.length = others.length ↔
      others.Pairwise (fun first second => (first == second) = false) ∧
        ∀ other ∈ others, Among other items := by
  let mk := Quotient.mk (classes α)
  have hnodup : ((items.bagInter others).eraseDups.map mk).Nodup :=
    nodup_map_mk_iff.mpr (pairwise_eraseDups _)
  have hsubset : (items.bagInter others).eraseDups.map mk ⊆ others.map mk := by
    intro quotient hquotient
    obtain ⟨item, hitem, rfl⟩ := List.mem_map.mp hquotient
    exact mk_mem_map_iff.mpr (among_of_mem_bagInter (eraseDups_subset _ hitem))
  rw [← List.length_map mk, ← @List.length_map _ _ others mk, ← nodup_map_mk_iff]
  constructor
  · intro hlength
    have hperm := (hnodup.subperm hsubset).perm_of_length_le (Nat.le_of_eq hlength.symm)
    refine ⟨hperm.nodup_iff.mp hnodup, fun other hother => ?_⟩
    have hmem := hperm.mem_iff.mpr (List.mem_map_of_mem hother)
    obtain ⟨item, hitem, hequal⟩ := mk_mem_map_iff.mp hmem
    exact ⟨item, bagInter_subset _ _ (eraseDups_subset _ hitem), hequal⟩
  · rintro ⟨hdistinct, hall⟩
    refine Nat.le_antisymm (hnodup.subperm hsubset).length_le ?_
    refine (hdistinct.subperm fun quotient hquotient => ?_).length_le
    obtain ⟨other, hother, rfl⟩ := List.mem_map.mp hquotient
    obtain ⟨item, hitem, hequal⟩ :=
      among_bagInter (hall other hother) ⟨other, hother, BEq.rfl⟩
    obtain ⟨found, hfound, hsame⟩ := among_eraseDups hitem
    exact mk_mem_map_iff.mpr ⟨found, hfound, BEq.trans hequal hsame⟩

end Equivalence

end UpToEquality

end Otoroshi
