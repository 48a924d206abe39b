/-
# Ranges of a list

A range command names the first and the last element it is about. An index counts from the
start, or, when it is negative, from the end; what lies beyond either end is left out.
`designated` says which elements these are. `listRange` turns the two indices into the bounds
of a slice, in 64 bits and with the second bound after the last element, so the largest index
of all has no bound.
-/

import Otoroshi.Foundation.Slices
import Otoroshi.Storage.InMemoryRedis

namespace Otoroshi

namespace ListRanges

open SwappableInMemoryRedis Slices

/-- The place an index means. -/
def place (length index : Int) : Int := if index < 0 then length + index else index

/-- The elements that a range command is about. -/
def designated (start stop : Int) (elements : List ByteString) : List ByteString :=
  (elements.zipIdx.filter fun e =>
    max (place elements.length start) 0 ≤ e.2 ∧
      (e.2 : Int) ≤ min (place elements.length stop) (elements.length - 1)).map Prod.fst

variable {elements : List ByteString} {start stop : Int}

theorem designated_eq_between : designated start stop elements =
    between (max (place elements.length start) 0).toNat
      (min (place elements.length stop + 1) elements.length).toNat elements := by
  rw [designated, between_eq_filter]
  congr 2
  funext e
  rw [decide_eq_decide]
  omega

theorem slice_eq_between (range : Int × Int) :
    slice range elements = between range.1.toNat range.2.toNat elements := rfl

/-- The place after the last element, as it is computed. -/
def afterLast (length stop : Int) : Int :=
  if stop < 0 then wrapLong (wrapLong (length + stop) + 1) else wrapLong (stop + 1)

/-- Bounds in 32 bits. A first bound past the end is replaced by the end, and may leave any
second one. -/
theorem slice_listRange (hlength : elements.length < 2 ^ 31) (hstart : isLong start = true) :
    slice (listRange elements.length start stop) elements =
      between (max (place elements.length start) 0).toNat
        (min (afterLast elements.length stop) elements.length).toNat elements := by
  rw [isLong, Bool.and_eq_true, decide_eq_true_eq, decide_eq_true_eq] at hstart
  have hfirst : (if start < 0 then wrapLong (elements.length + start) else start) =
      place elements.length start := by
    rw [place]
    split
    · exact Int.bmod_eq_of_le (by omega) (by omega)
    · rfl
  have hbound : longToInt (min (max (place elements.length start) 0) elements.length) =
      min (max (place elements.length start) 0) elements.length :=
    Int.bmod_eq_of_le (by omega) (by omega)
  rw [slice_eq_between, listRange, hfirst, ← afterLast, hbound]
  by_cases hend : elements.length ≤ (max (place elements.length start) 0).toNat
  · rw [between_of_length_le hend, between_of_length_le]
    omega
  · have hlast : longToInt (max (min (afterLast elements.length stop) elements.length)
        (max (place elements.length start) 0)) =
        max (min (afterLast elements.length stop) elements.length)
          (max (place elements.length start) 0) :=
      Int.bmod_eq_of_le (by omega) (by omega)
    have hmax : (max (min (afterLast elements.length stop) elements.length)
        (max (place elements.length start) 0)).toNat =
        max (min (afterLast elements.length stop) elements.length).toNat
          (max (place elements.length start) 0).toNat := by omega
    have hmin : (min (max (place elements.length start) 0) elements.length).toNat =
        (max (place elements.length start) 0).toNat := by omega
    rw [hlast, hmax, hmin, between_max]

/-- The bound after the last element is right, unless the last place is the largest number. -/
theorem afterLast_of_ne (hlength : elements.length < 2 ^ 31) (hstop : isLong stop = true)
    (h : stop ≠ 2 ^ 63 - 1) :
    afterLast elements.length stop = place elements.length stop + 1 := by
  rw [isLong, Bool.and_eq_true, decide_eq_true_eq, decide_eq_true_eq] at hstop
  rw [afterLast, place]
  split
  · have hsum : wrapLong (elements.length + stop) = elements.length + stop :=
      Int.bmod_eq_of_le (by omega) (by omega)
    rw [hsum]
    exact Int.bmod_eq_of_le (by omega) (by omega)
  · exact Int.bmod_eq_of_le (by omega) (by omega)

theorem afterLast_largest (length : Int) : afterLast length (2 ^ 63 - 1) = -2 ^ 63 := rfl

theorem slice_listRange_of_ne (hlength : elements.length < 2 ^ 31) (hstart : isLong start = true)
    (hstop : isLong stop = true) (h : stop ≠ 2 ^ 63 - 1) :
    slice (listRange elements.length start stop) elements = designated start stop elements := by
  rw [slice_listRange hlength hstart, afterLast_of_ne hlength hstop h, designated_eq_between]

/-- Nothing is before the smallest number. -/
theorem slice_listRange_largest (hlength : elements.length < 2 ^ 31)
    (hstart : isLong start = true) :
    slice (listRange elements.length start (2 ^ 63 - 1)) elements = [] := by
  rw [slice_listRange hlength hstart, afterLast_largest]
  exact between_of_le (by omega) elements

theorem designated_largest_eq_nil_iff (hlength : elements.length < 2 ^ 31) :
    designated start (2 ^ 63 - 1) elements = [] ↔ elements = [] ∨ elements.length ≤ start := by
  rw [designated_eq_between, between_eq_nil_iff, ← List.length_eq_zero_iff, place, place]
  split <;> split <;> omega

/-- The elements that are asked for are given, unless the last one is asked for by the largest
number and there is an element to give. -/
theorem slice_listRange_eq_designated_iff (hlength : elements.length < 2 ^ 31)
    (hstart : isLong start = true) (hstop : isLong stop = true) :
    slice (listRange elements.length start stop) elements = designated start stop elements ↔
      (stop = 2 ^ 63 - 1 → elements = [] ∨ elements.length ≤ start) := by
  by_cases h : stop = 2 ^ 63 - 1
  · subst h
    rw [slice_listRange_largest hlength hstart, eq_comm, designated_largest_eq_nil_iff hlength]
    exact ⟨fun hright _ => hright, fun hright => hright rfl⟩
  · exact iff_of_true (slice_listRange_of_ne hlength hstart hstop h) fun hlargest =>
      absurd hlargest h

theorem slice_listRange_eq_designated_of_example :
    slice (listRange 3 (-2) (-1)) [[1], [2], [3]] = designated (-2) (-1) [[1], [2], [3]] :=
  (@slice_listRange_eq_designated_iff [[1], [2], [3]] _ _ (by decide) rfl rfl).mpr
    fun h => absurd h (by decide)

/-- A whole list is asked for by the largest number, and nothing is given. -/
theorem exists_slice_listRange_ne :
    ¬ ∀ (elements : List ByteString) (start stop : Int), elements.length < 2 ^ 31 →
      isLong start = true → isLong stop = true →
        slice (listRange elements.length start stop) elements =
          designated start stop elements := by
  intro h
  exact absurd (h [[1]] 0 (2 ^ 63 - 1) (by decide) rfl rfl) (by decide)

/-! ## The commands -/

section Commands

variable {P : StorePlatform} {impl : Implementation} {memory : Memory} {key : Str}

/-- Both stores answer the same slice of a list. -/
theorem exec_lrange (now : Int) (h : memory.value? key = some (.list elements)) :
    impl.exec P now (.lrange key start stop) memory =
      (.ok (.elements (slice (listRange elements.length start stop) elements)), memory) := by
  cases impl with
  | modern =>
      have hread : Memory.getTypedOrUpdate Value.asList key (.list []) memory =
          (.ok elements, memory) := Memory.getTypedOrUpdate_of_some h
      simp only [Implementation.exec, ModernSwappableInMemoryRedis.lrange,
        Stateful.bind_of_ok hread, bind_assoc]
      rfl
  | legacy =>
      have hread : Memory.getTypedOrElse Value.asList key (.list []) memory =
          (.ok elements, memory) := Memory.getTypedOrElse_of_some h
      simp only [Implementation.exec, SwappableInMemoryRedis.lrange,
        Stateful.bind_of_ok hread, bind_assoc]
      rfl

/-- And both keep the same slice. -/
theorem exec_ltrim (now : Int) (h : memory.value? key = some (.list elements)) :
    impl.exec P now (.ltrim key start stop) memory =
      (.ok (.bool true),
        { memory with
          store := memory.store.insert key
            (.list (slice (listRange elements.length start stop) elements)) }) := by
  have hread : Memory.getTypedOrUpdate Value.asList key (.list []) memory =
      (.ok elements, memory) := Memory.getTypedOrUpdate_of_some h
  cases impl <;>
    (simp only [Implementation.exec, RedisLike.ltrim, Stateful.bind_of_ok hread, bind_assoc]; rfl)

/-- A trim leaves the elements it names. -/
theorem value?_exec_ltrim (now : Int) (h : memory.value? key = some (.list elements))
    (hlength : elements.length < 2 ^ 31) (hstart : isLong start = true)
    (hstop : isLong stop = true) (hlast : stop ≠ 2 ^ 63 - 1) :
    ((impl.exec P now (.ltrim key start stop) memory).2).value? key =
      some (.list (designated start stop elements)) := by
  rw [exec_ltrim now h, slice_listRange_of_ne hlength hstart hstop hlast]
  exact AList.lookup_insert memory.store

end Commands

end ListRanges

end Otoroshi
