/-
# Pages of a store

`streamedFind` goes through all keys of a store, a group of keys at a time, keeps the entities
that are asked for, and cuts out a page of them. Pages are counted from 1. Where the page
starts is computed in 32 bits.

`streamedFind_eq_requested_iff` says which pages are cut out right.
-/

import Mathlib.Data.List.ReduceOption
import Mathlib.Tactic.Linarith

namespace Otoroshi

namespace Pages

variable {E : Type}

def maxInt : Nat := 2147483647

/-- What is under the keys of a store, in the order of the keys. There is nothing where a
key has just gone, or its value can not be read. -/
structure Stored (E : Type) where
  contents : List (Option E)
  size : contents.length ≤ maxInt

/-- `grouped`. -/
def grouped {α : Type} (n : Nat) (hn : 0 < n) : List α → List (List α)
  | [] => []
  | item :: items =>
      (item :: items).take n :: grouped n hn ((item :: items).drop n)
  termination_by items => items.length
  decreasing_by
    rw [List.length_drop, List.length_cons]
    omega

theorem flatten_grouped {α : Type} (n : Nat) (hn : 0 < n) (items : List α) :
    (grouped n hn items).flatten = items := by
  fun_induction grouped n hn items with
  | case1 => rfl
  | case2 item items ih => rw [List.flatten_cons, ih, List.take_append_drop]

/-- The first position of a page. -/
def position (page pageSize : Int32) : Int32 := (page - 1) * pageSize

/-- `drop(n)`, which drops nothing for a negative number. -/
def drop {α : Type} (n : Int32) (items : List α) : List α := items.drop n.toInt.toNat

/-- `take(n)`, which takes nothing for a negative number. -/
def take {α : Type} (n : Int32) (items : List α) : List α := items.take n.toInt.toNat

def streamedFind (predicate : E → Bool) (fetchSize page pageSize : Int32) (stored : Stored E) :
    Except String (List E) :=
  if hsize : 0 < fetchSize.toInt.toNat then
    let items := ((grouped fetchSize.toInt.toNat hsize stored.contents).map
      List.reduceOption).flatten
    .ok (take pageSize (drop (position page pageSize) (items.filter predicate)))
  else .error "FetchSize should be positive"

/-- The entities that are asked for. -/
def Stored.matching (predicate : E → Bool) (stored : Stored E) : List E :=
  stored.contents.reduceOption.filter predicate

variable {predicate : E → Bool} {fetchSize page pageSize : Int32} {stored : Stored E}

theorem Stored.length_matching_le : (stored.matching predicate).length ≤ maxInt :=
  ((List.length_filter_le _ _).trans (List.reduceOption_length_le _)).trans stored.size

/-- The size of the groups makes no difference. -/
theorem streamedFind_eq (hsize : 0 < fetchSize.toInt.toNat) :
    streamedFind predicate fetchSize page pageSize stored =
      .ok (take pageSize (drop (position page pageSize) (stored.matching predicate))) := by
  have hitems : ((grouped fetchSize.toInt.toNat hsize stored.contents).map
      List.reduceOption).flatten = stored.contents.reduceOption := by
    calc ((grouped fetchSize.toInt.toNat hsize stored.contents).map List.reduceOption).flatten
        = (grouped fetchSize.toInt.toNat hsize stored.contents).flatten.reduceOption :=
          List.filterMap_flatten.symm
      _ = stored.contents.reduceOption := by rw [flatten_grouped]
  rw [streamedFind, dif_pos hsize, hitems]
  rfl

/-! ## Pages that are asked for -/

/-- The defaults stand for everything. -/
abbrev IsDefault (page pageSize : Int32) : Prop := page = 0 ∧ pageSize = Int32.maxValue

/-- The elements of a page. There is no page before the first one. -/
def requestedPage (page pageSize : Int32) (items : List E) : List E :=
  if IsDefault page pageSize then items
  else if 1 ≤ page.toInt then
    (items.drop ((page.toInt - 1) * pageSize.toInt).toNat).take pageSize.toInt.toNat
  else []

/-- The position of the page is a number of 32 bits, or nothing is left after what is left of
it in 32 bits. -/
def InRange (count : Nat) (page pageSize : Int32) : Prop :=
  IsDefault page pageSize ∨ pageSize.toInt ≤ 0 ∨
    1 ≤ page.toInt ∧ (page.toInt - 1) * pageSize.toInt ≤ maxInt ∨
    count ≤ (((page.toInt - 1) * pageSize.toInt).bmod (2 ^ 32)).toNat

theorem toInt_position : (position page pageSize).toInt =
    ((page.toInt - 1) * pageSize.toInt).bmod (2 ^ 32) := by
  rw [position, Int32.toInt_mul, Int32.toInt_sub]
  simp

theorem cut_eq_nil_iff {items : List E} (hpos : 0 < pageSize.toInt) (start : Int32) :
    take pageSize (drop start items) = [] ↔ items.length ≤ start.toInt.toNat := by
  rw [take, drop, List.take_eq_nil_iff, List.drop_eq_nil_iff]
  exact or_iff_right (by omega)

/-- Everything is cut out for the defaults. -/
theorem cut_of_isDefault {items : List E} (h : IsDefault page pageSize)
    (hsize : items.length ≤ maxInt) :
    take pageSize (drop (position page pageSize) items) = requestedPage page pageSize items := by
  rw [requestedPage, if_pos h, take, drop]
  obtain ⟨rfl, rfl⟩ := h
  exact List.take_of_length_le hsize

theorem cut_of_not_pos {items : List E} (h : pageSize.toInt ≤ 0) (start : Int32) :
    take pageSize (drop start items) = requestedPage page pageSize items := by
  have hzero : pageSize.toInt.toNat = 0 := Int.toNat_of_nonpos h
  have hdefault : ¬ IsDefault page pageSize := by
    rintro ⟨-, rfl⟩
    exact absurd h (by decide)
  rw [requestedPage, if_neg hdefault, take, hzero, List.take_zero]
  split <;> simp

theorem cut_of_le {items : List E} (hdefault : ¬ IsDefault page pageSize)
    (hpage : 1 ≤ page.toInt) (hpos : 0 < pageSize.toInt)
    (hstart : (page.toInt - 1) * pageSize.toInt ≤ maxInt) :
    take pageSize (drop (position page pageSize) items) = requestedPage page pageSize items := by
  have hnonneg : 0 ≤ (page.toInt - 1) * pageSize.toInt :=
    Int.mul_nonneg (by omega) (by omega)
  rw [maxInt] at hstart
  have hposition : (position page pageSize).toInt = (page.toInt - 1) * pageSize.toInt := by
    rw [toInt_position]
    exact Int.bmod_eq_of_le (by omega) (by omega)
  rw [requestedPage, if_neg hdefault, if_pos hpage, take, drop, hposition]

/-- There is no such page, or it starts after the last element. -/
theorem requestedPage_eq_nil {items : List E} (hdefault : ¬ IsDefault page pageSize)
    (hsize : items.length ≤ maxInt)
    (h : ¬ (1 ≤ page.toInt ∧ (page.toInt - 1) * pageSize.toInt ≤ maxInt)) :
    requestedPage page pageSize items = [] := by
  rw [requestedPage, if_neg hdefault]
  by_cases hpage : 1 ≤ page.toInt
  · have hstart : ¬ (page.toInt - 1) * pageSize.toInt ≤ maxInt := fun hle => h ⟨hpage, hle⟩
    rw [if_pos hpage, List.drop_of_length_le (by omega), List.take_nil]
  · rw [if_neg hpage]

/-- The page that is asked for is cut out, if and only if its position fits into 32 bits, or
nothing is there. -/
theorem streamedFind_eq_requested_iff (hsize : 0 < fetchSize.toInt.toNat) :
    streamedFind predicate fetchSize page pageSize stored =
        .ok (requestedPage page pageSize (stored.matching predicate)) ↔
      InRange (stored.matching predicate).length page pageSize := by
  rw [streamedFind_eq hsize, Except.ok.injEq, InRange]
  by_cases hdefault : IsDefault page pageSize
  · exact iff_of_true (cut_of_isDefault hdefault stored.length_matching_le) (.inl hdefault)
  by_cases hpos : pageSize.toInt ≤ 0
  · exact iff_of_true (cut_of_not_pos hpos _) (.inr (.inl hpos))
  by_cases hpage : 1 ≤ page.toInt ∧ (page.toInt - 1) * pageSize.toInt ≤ maxInt
  · exact iff_of_true (cut_of_le hdefault hpage.1 (by omega) hpage.2) (.inr (.inr (.inl hpage)))
  · rw [requestedPage_eq_nil hdefault stored.length_matching_le hpage,
      cut_eq_nil_iff (by omega), toInt_position]
    simp only [hdefault, hpos, hpage, false_or]

end Pages

end Otoroshi
