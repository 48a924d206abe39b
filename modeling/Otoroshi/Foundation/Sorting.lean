/-
# Sorting by a key

`sortWith` is a stable sort: what comes first of two elements with one key is what came
first before. So a list in some order, sorted by a key, is in the order that looks at the
key first and at the old order second.
-/

import Mathlib.Data.List.Nodup
import Mathlib.Order.Lattice

namespace Otoroshi

variable {α κ : Type}

def sortWith (lt : α → α → Bool) (list : List α) : List α :=
  list.mergeSort fun x y => !lt y x

section Key

variable [LinearOrder κ] (key : α → κ)

def sortBy (list : List α) : List α :=
  sortWith (fun x y => decide (key x < key y)) list

variable {key}

@[simp]
theorem mem_sortBy {x : α} {list : List α} : x ∈ sortBy key list ↔ x ∈ list :=
  List.mem_mergeSort

/-- The order by a key, and by another order where the keys are equal. -/
def ByKey (key : α → κ) (order : α → α → Prop) (x y : α) : Prop :=
  key x < key y ∨ key x = key y ∧ order x y

theorem byKey_of_le {order : α → α → Prop} {x y : α} (hkey : key x ≤ key y)
    (horder : order x y) : ByKey key order x y := by
  obtain hlt | heq := lt_or_eq_of_le hkey
  · exact Or.inl hlt
  · exact Or.inr ⟨heq, horder⟩

theorem pairwise_sortBy {order : α → α → Prop} {list : List α} (hlist : list.Pairwise order) :
    (sortBy key list).Pairwise (ByKey key order) := by
  have trans : ∀ x y z : α, (!decide (key y < key x)) = true →
      (!decide (key z < key y)) = true → (!decide (key z < key x)) = true := by
    intro x y z hxy hyz
    simp only [Bool.not_eq_true', decide_eq_false_iff_not, not_lt] at hxy hyz ⊢
    exact le_trans hxy hyz
  have total : ∀ x y : α, ((!decide (key y < key x)) || !decide (key x < key y)) = true := by
    intro x y
    simpa using le_total (key x) (key y)
  induction list with
  | nil => simp [sortBy, sortWith]
  | cons x list ih =>
      obtain ⟨hx, hrest⟩ := List.pairwise_cons.mp hlist
      -- the sorted list is the sorted rest, with `x` before the first that is not smaller
      obtain ⟨smaller, others, hsort, hsortRest, hsmaller⟩ :=
        List.mergeSort_cons trans total x list
      have hmem : ∀ y ∈ smaller ++ others, y ∈ list := by
        intro y hy
        rwa [← hsortRest, List.mem_mergeSort] at hy
      have hsorted := List.pairwise_mergeSort trans total (x :: list)
      specialize ih hrest
      rw [sortBy, sortWith, hsortRest, List.pairwise_append] at ih
      rw [hsort, List.pairwise_append, List.pairwise_cons] at hsorted
      rw [sortBy, sortWith, hsort, List.pairwise_append, List.pairwise_cons]
      constructor
      · exact ih.1
      constructor
      · constructor
        · intro y hy
          apply byKey_of_le
          · simpa using hsorted.2.1.1 y hy
          · exact hx y (hmem y (by simp [hy]))
        · exact ih.2.1
      · intro y hy z hz
        obtain rfl | hz := List.mem_cons.mp hz
        · exact Or.inl (by simpa using hsmaller y hy)
        · exact ih.2.2 y hy z hz

theorem byKey_irrefl {order : α → α → Prop} (horder : ∀ x, ¬ order x x) (x : α) :
    ¬ ByKey key order x x := by
  simp [ByKey, horder]

theorem byKey_asymm {order : α → α → Prop} (horder : ∀ x y, order x y → ¬ order y x) (x y : α)
    (h : ByKey key order x y) : ¬ ByKey key order y x := by
  intro h'
  obtain hlt | ⟨heq, hxy⟩ := h
  · obtain hlt' | ⟨heq', -⟩ := h'
    · exact lt_asymm hlt hlt'
    · exact absurd heq'.symm (ne_of_lt hlt)
  · obtain hlt' | ⟨-, hyx⟩ := h'
    · exact absurd heq.symm (ne_of_lt hlt')
    · exact horder x y hxy hyx

theorem nodup_of_byKey {order : α → α → Prop} (horder : ∀ x, ¬ order x x) {list : List α}
    (hlist : list.Pairwise (ByKey key order)) : list.Nodup := by
  apply hlist.imp
  intro x y hxy heq
  subst heq
  exact byKey_irrefl horder x hxy

end Key

section Before

variable {before order : α → α → Prop} {list : List α}

/-- In a list that is in order, what comes before what is a matter of the elements. -/
theorem pairwise_iff_of_pairwise (hirrefl : ∀ x, ¬ before x x)
    (hasymm : ∀ x y, before x y → ¬ before y x) (hlist : list.Pairwise before) :
    list.Pairwise order ↔ ∀ x ∈ list, ∀ y ∈ list, before x y → order x y := by
  constructor
  · intro horder
    have hself : ∀ x ∈ list, before x x → order x x := by
      intro x _ h
      exact absurd h (hirrefl x)
    have hforth : list.Pairwise fun x y => before x y → order x y := by
      apply horder.imp
      intro x y h _
      exact h
    have hback : list.Pairwise fun x y => before y x → order y x := by
      apply hlist.imp
      intro x y hxy hyx
      exact absurd hyx (hasymm x y hxy)
    intro x hx y hy
    exact hforth.forall_of_forall_of_flip hself hback hx hy
  · intro h
    apply hlist.imp_of_mem
    intro x y hx hy hxy
    exact h x hx y hy hxy

end Before

/-! ## Comparators that are no order

The platform sorts by any comparator. Where the comparator orders the elements by some
key, the result is the stable sort; otherwise nothing is promised, and the sort may
refuse the list. -/

/-- The comparator orders the elements of the list, at different places, by the key. -/
def ComparesBy {κ : Type} [LinearOrder κ] (key : α → κ) (lt : α → α → Bool) (list : List α) :
    Prop :=
  list.Pairwise fun x y =>
    lt x y = decide (key x < key y) ∧ lt y x = decide (key y < key x)

/-- What a sort promises. -/
def SortsOrders {ε : Type} (sort : (α → α → Bool) → List α → Except ε (List α)) : Prop :=
  ∀ (κ : Type) [LinearOrder κ] (key : α → κ) (lt : α → α → Bool) (list : List α),
    ComparesBy key lt list → sort lt list = .ok (sortBy key list)

/-- What a sort answers has the elements of the list. -/
def SortPermutes {ε : Type} (sort : (α → α → Bool) → List α → Except ε (List α)) : Prop :=
  ∀ lt list sorted, sort lt list = .ok sorted → sorted.Perm list

/-- Two keys that order the elements of a list alike sort it alike. -/
theorem sortBy_eq_of_comparesBy {κ₁ κ₂ : Type} [LinearOrder κ₁] [LinearOrder κ₂]
    {key₁ : α → κ₁} {key₂ : α → κ₂} {lt : α → α → Bool} {list : List α}
    (h₁ : ComparesBy key₁ lt list) (h₂ : ComparesBy key₂ lt list) :
    sortBy key₁ list = sortBy key₂ list := by
  have hforth : list.Pairwise fun x y =>
      decide (key₁ x < key₁ y) = decide (key₂ x < key₂ y) := by
    apply (h₁.and h₂).imp
    rintro x y ⟨hfirst, hsecond⟩
    rw [← hfirst.1, ← hsecond.1]
  have hback : list.Pairwise fun x y =>
      decide (key₁ y < key₁ x) = decide (key₂ y < key₂ x) := by
    apply (h₁.and h₂).imp
    rintro x y ⟨hfirst, hsecond⟩
    rw [← hfirst.2, ← hsecond.2]
  have hself : ∀ x ∈ list, decide (key₁ x < key₁ x) = decide (key₂ x < key₂ x) := by
    intro x _
    rw [decide_eq_false (lt_irrefl _), decide_eq_false (lt_irrefl _)]
  have hagree : ∀ x ∈ list, ∀ y ∈ list, (!decide (key₁ y < key₁ x)) =
      !decide (key₂ y < key₂ x) := by
    intro x hx y hy
    rw [hforth.forall_of_forall_of_flip hself hback hy hx]
  have hmap : (list.mergeSort fun x y => !decide (key₁ y < key₁ x)).map id =
      (list.map id).mergeSort fun x y => !decide (key₂ y < key₂ x) := List.map_mergeSort hagree
  rw [List.map_id, List.map_id] at hmap
  exact hmap

open Classical in
/-- A sort that promises no more: it refuses a list that is not ordered. -/
noncomputable def strictSort {ε : Type} (e : ε) (lt : α → α → Bool) (list : List α) :
    Except ε (List α) :=
  if h : ∃ sorted : List α, ∃ (κ : Type) (_ : LinearOrder κ) (key : α → κ),
      ComparesBy key lt list ∧ sorted = sortBy key list then .ok h.choose
  else .error e

theorem sortsOrders_strictSort {ε : Type} (e : ε) :
    SortsOrders (strictSort (α := α) e) := by
  intro κ hκ key lt list hkey
  have hsorted : ∃ sorted : List α, ∃ (κ : Type) (_ : LinearOrder κ) (key : α → κ),
      ComparesBy key lt list ∧ sorted = sortBy key list := ⟨_, κ, hκ, key, hkey, rfl⟩
  rw [strictSort, dif_pos hsorted]
  obtain ⟨κ', hκ', key', hkey', heq⟩ := hsorted.choose_spec
  rw [heq, sortBy_eq_of_comparesBy hkey' hkey]

theorem sortPermutes_strictSort {ε : Type} (e : ε) : SortPermutes (strictSort (α := α) e) := by
  intro lt list sorted h
  rw [strictSort] at h
  split at h
  case isTrue hsorted =>
    obtain ⟨κ, hκ, key, -, heq⟩ := hsorted.choose_spec
    rw [Except.ok.injEq] at h
    rw [← h, heq]
    exact List.mergeSort_perm _ _
  case isFalse => contradiction

/-- Two elements that each come before the other are in no order. -/
theorem strictSort_of_not_asymm {ε : Type} (e : ε) {lt : α → α → Bool} {list : List α}
    (h : ¬ list.Pairwise fun x y => ¬ (lt x y = true ∧ lt y x = true)) :
    strictSort e lt list = .error e := by
  rw [strictSort, dif_neg]
  rintro ⟨-, κ, hκ, key, hkey, -⟩
  apply h
  apply hkey.imp
  rintro x y ⟨hxy, hyx⟩ ⟨hbefore, hafter⟩
  rw [hxy, decide_eq_true_eq] at hbefore
  rw [hyx, decide_eq_true_eq] at hafter
  exact lt_asymm hbefore hafter

section Distinct

variable [BEq α] [LawfulBEq α]

/-- Erasing what comes twice changes nothing where nothing does. -/
theorem eraseDups_of_nodup {list : List α} (hlist : list.Nodup) : list.eraseDups = list := by
  induction list with
  | nil => rfl
  | cons x list ih =>
      obtain ⟨hx, hrest⟩ := List.nodup_cons.mp hlist
      have hfilter : list.filter (fun y => !y == x) = list := by
        rw [List.filter_eq_self]
        intro y hy
        have hne : y ≠ x := fun heq => hx (heq ▸ hy)
        simpa using hne
      rw [List.eraseDups_cons, hfilter, ih hrest]

/-- Nothing comes twice once what comes twice is erased. -/
theorem nodup_eraseDups (list : List α) : list.eraseDups.Nodup := by
  induction hn : list.length using Nat.strongRecOn generalizing list with
  | _ n ih =>
      cases list with
      | nil => exact List.nodup_nil
      | cons x list =>
          rw [List.eraseDups_cons, List.nodup_cons]
          constructor
          · simp [List.mem_eraseDups]
          · apply ih _ _ _ rfl
            have hle := List.length_filter_le (fun y => !y == x) list
            rw [List.length_cons] at hn
            omega

theorem eraseDups_append_of_nodup {first second : List α} (hsecond : second.Nodup) :
    (first ++ second).eraseDups = first.eraseDups ++ second.removeAll first := by
  have hrest : (second.removeAll first).Nodup := hsecond.filter _
  rw [List.eraseDups_append, eraseDups_of_nodup hrest]

end Distinct

end Otoroshi
