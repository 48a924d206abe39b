/-
# Buckets that are filled up late

A bucket holds an amount of at most its capacity. Something is taken out of it now and
then, and now and then it is filled up for the time since it was last filled up, at a
steady rate. It may be a little late with that: what it is filled up with belongs to the
time since it was last looked at, and at most `slack` belongs to the time before.

`taken_le` bounds what is taken in an interval. The capacity and what comes in during the
interval are not enough, for a bucket that is full at the start of the interval can be
emptied just before it is filled up late.
-/

import Mathlib.Algebra.BigOperators.Group.List.Basic
import Mathlib.Algebra.Order.Ring.Defs
import Mathlib.Tactic.Linarith
import Mathlib.Tactic.Ring
import Otoroshi.Foundation.Run

namespace Otoroshi

variable {𝕜 : Type} [CommRing 𝕜] [LinearOrder 𝕜] [IsStrictOrderedRing 𝕜]

structure Bucket (𝕜 : Type) where
  capacity : 𝕜
  rate : 𝕜
  slack : 𝕜

/-- What is in a bucket, when it was last filled up and when it was last looked at. -/
structure Level (𝕜 : Type) where
  amount : 𝕜
  filled : 𝕜
  seen : 𝕜

namespace Bucket

variable (bucket : Bucket 𝕜)

/-- At an instant something is added, and then something is taken. -/
structure Step (now added taken : 𝕜) (before after : Level 𝕜) : Prop where
  later : before.seen ≤ now
  seen : after.seen = now
  amount : after.amount = before.amount + added - taken
  taken : 0 ≤ taken ∧ taken ≤ before.amount + added
  fits : before.amount + added ≤ bucket.capacity
  late : added ≤ bucket.rate * (now - before.seen) + bucket.slack
  filled : (after.filled = now ∧ added ≤ bucket.rate * (now - before.filled)) ∨
    (after.filled = before.filled ∧ added = 0)

/-- Steps at these instants, each of which takes this much. -/
def Takes (bucket : Bucket 𝕜) : List (𝕜 × 𝕜) → Level 𝕜 → Level 𝕜 → Prop :=
  Steps fun item before after => ∃ added, bucket.Step item.1 added item.2 before after

structure Proper (level : Level 𝕜) : Prop where
  nonneg : 0 ≤ level.amount
  le_capacity : level.amount ≤ bucket.capacity
  filled_le : level.filled ≤ level.seen

variable {bucket} {now added taken total start : 𝕜} {before after : Level 𝕜}
  {items : List (𝕜 × 𝕜)}

theorem Proper.step (h : bucket.Proper before) (hstep : bucket.Step now added taken before after) :
    bucket.Proper after where
  nonneg := by
    have htaken := hstep.taken.2
    rw [hstep.amount]
    linarith
  le_capacity := by
    have htaken := hstep.taken.1
    have hfits := hstep.fits
    rw [hstep.amount]
    linarith
  filled_le := by
    rw [hstep.seen]
    obtain ⟨hfilled, -⟩ | ⟨hfilled, -⟩ := hstep.filled
    · exact hfilled.le
    · rw [hfilled]
      exact h.filled_le.trans hstep.later

/-- Something more is taken. -/
theorem Step.take (h : bucket.Step now added taken before after) {more : 𝕜}
    (hmore : 0 ≤ more ∧ more ≤ after.amount) :
    bucket.Step now added (taken + more) before { after with amount := after.amount - more } where
  later := h.later
  seen := h.seen
  amount := by
    rw [h.amount]
    ring
  taken := by
    have htaken := h.taken
    have hamount := h.amount
    constructor
    · linarith
    · linarith
  fits := h.fits
  late := h.late
  filled := h.filled

theorem Proper.takes (h : bucket.Proper before) (hrun : bucket.Takes items before after) :
    bucket.Proper after := by
  induction items generalizing before with
  | nil =>
      cases hrun
      exact h
  | cons item items ih =>
      obtain ⟨middle, ⟨added, hstep⟩, hrest⟩ := hrun
      exact ih (h.step hstep) hrest

/-- What was taken since `start`, with what is left: no more than was there, or no more
than was there, came late and came in until the bucket was last filled up. -/
structure Within (bucket : Bucket 𝕜) (start total : 𝕜) (level : Level 𝕜) : Prop where
  seen : total = 0 ∨ start ≤ level.seen
  bound : total + level.amount ≤ bucket.capacity ∨
    (start ≤ level.filled ∧ total + level.amount ≤
      bucket.capacity + min bucket.capacity bucket.slack + bucket.rate * (level.filled - start))

omit [IsStrictOrderedRing 𝕜] in
theorem within_start (h : bucket.Proper before) : Within bucket start 0 before where
  seen := Or.inl rfl
  bound := by
    rw [zero_add]
    exact Or.inl h.le_capacity

/-- The first time that the bucket is filled up after something was taken. -/
theorem bound_of_late (hrate : 0 ≤ bucket.rate) (hstart : start ≤ before.seen)
    (hnow : start ≤ now) (hnonneg : 0 ≤ before.amount)
    (hbefore : total + before.amount ≤ bucket.capacity)
    (hstep : bucket.Step now added taken before after) :
    total + (before.amount + added) ≤
      bucket.capacity + min bucket.capacity bucket.slack + bucket.rate * (now - start) := by
  have hsince : bucket.rate * (now - before.seen) ≤ bucket.rate * (now - start) :=
    mul_le_mul_of_nonneg_left (by linarith) hrate
  have hpassed : 0 ≤ bucket.rate * (now - start) := mul_nonneg hrate (by linarith)
  have hlate := hstep.late
  have hfits := hstep.fits
  obtain ⟨hmin, -⟩ | ⟨hmin, -⟩ := min_cases bucket.capacity bucket.slack
  · rw [hmin]
    linarith
  · rw [hmin]
    linarith

theorem Within.step (h : Within bucket start total before) (hrate : 0 ≤ bucket.rate)
    (hproper : bucket.Proper before) (hnow : start ≤ now)
    (hstep : bucket.Step now added taken before after) :
    Within bucket start (total + taken) after where
  seen := by
    rw [hstep.seen]
    exact Or.inr hnow
  bound := by
    have hsum : total + taken + after.amount = total + (before.amount + added) := by
      rw [hstep.amount]
      ring
    rw [hsum]
    obtain ⟨hfilled, hadded⟩ | ⟨hfilled, hadded⟩ := hstep.filled
    · rw [hfilled]
      obtain hbefore | ⟨hstart, hbefore⟩ := h.bound
      · obtain hnone | hseen := h.seen
        · rw [hnone, zero_add]
          exact Or.inl hstep.fits
        · exact Or.inr ⟨hnow, bound_of_late hrate hseen hnow hproper.nonneg hbefore hstep⟩
      · have hsplit : bucket.rate * (now - start) =
            bucket.rate * (before.filled - start) + bucket.rate * (now - before.filled) := by
          ring
        refine Or.inr ⟨hnow, ?_⟩
        rw [hsplit]
        linarith
    · rw [hfilled, hadded, add_zero]
      exact h.bound

theorem Within.takes (h : Within bucket start total before) (hrate : 0 ≤ bucket.rate)
    (hproper : bucket.Proper before) (hstart : ∀ item ∈ items, start ≤ item.1)
    (hrun : bucket.Takes items before after) :
    Within bucket start (total + (items.map Prod.snd).sum) after := by
  induction items generalizing total before with
  | nil =>
      cases hrun
      rw [List.map_nil, List.sum_nil, add_zero]
      exact h
  | cons item items ih =>
      obtain ⟨middle, ⟨added, hstep⟩, hrest⟩ := hrun
      rw [List.forall_mem_cons] at hstart
      rw [List.map_cons, List.sum_cons, ← add_assoc]
      exact ih (h.step hrate hproper hstart.1 hstep) (hproper.step hstep) hstart.2 hrest

omit [IsStrictOrderedRing 𝕜] in
theorem seen_le_of_takes {last : 𝕜} (hseen : before.seen ≤ last)
    (hlast : ∀ item ∈ items, item.1 ≤ last) (hrun : bucket.Takes items before after) :
    after.seen ≤ last := by
  induction items generalizing before with
  | nil =>
      cases hrun
      exact hseen
  | cons item items ih =>
      obtain ⟨middle, ⟨added, hstep⟩, hrest⟩ := hrun
      rw [List.forall_mem_cons] at hlast
      apply ih _ hlast.2 hrest
      rw [hstep.seen]
      exact hlast.1

/-- In an interval no more is taken than the capacity, what may come late, and what comes
in during the interval. -/
theorem taken_le {last : 𝕜} (hrate : 0 ≤ bucket.rate) (hslack : 0 ≤ bucket.slack)
    (hproper : bucket.Proper before) (hinterval : start ≤ last)
    (hitems : ∀ item ∈ items, start ≤ item.1 ∧ item.1 ≤ last)
    (hrun : bucket.Takes items before after) :
    (items.map Prod.snd).sum ≤
      bucket.capacity + min bucket.capacity bucket.slack + bucket.rate * (last - start) := by
  have hafter := hproper.takes hrun
  have hcapacity : 0 ≤ bucket.capacity := hproper.nonneg.trans hproper.le_capacity
  have hmin : 0 ≤ min bucket.capacity bucket.slack := le_min hcapacity hslack
  have hpassed : 0 ≤ bucket.rate * (last - start) := mul_nonneg hrate (by linarith)
  have hwithin := (within_start hproper).takes hrate hproper
    (fun item hitem => (hitems item hitem).1) hrun
  rw [zero_add] at hwithin
  cases items with
  | nil =>
      rw [List.map_nil, List.sum_nil]
      linarith
  | cons item items =>
      have hnonneg := hafter.nonneg
      rw [List.forall_mem_cons] at hitems
      obtain ⟨middle, ⟨added, hstep⟩, hrest⟩ := hrun
      have hseen : middle.seen ≤ last := by
        rw [hstep.seen]
        exact hitems.1.2
      have hlast := seen_le_of_takes hseen (fun item hitem => (hitems.2 item hitem).2) hrest
      obtain hbound | ⟨hstart, hbound⟩ := hwithin.bound
      · linarith
      · have hfilled : bucket.rate * (after.filled - start) ≤ bucket.rate * (last - start) :=
          mul_le_mul_of_nonneg_left (by linarith [hafter.filled_le]) hrate
        linarith

omit [IsStrictOrderedRing 𝕜] in
/-- No step is before the bucket was last looked at. -/
theorem le_of_takes (hrun : bucket.Takes items before after) :
    ∀ item ∈ items, before.seen ≤ item.1 := by
  induction items generalizing before with
  | nil =>
      intro item hitem
      cases hitem
  | cons item items ih =>
      obtain ⟨middle, ⟨added, hstep⟩, hrest⟩ := hrun
      rw [List.forall_mem_cons]
      refine ⟨hstep.later, fun later hlater => ?_⟩
      have hle := ih hrest later hlater
      rw [hstep.seen] at hle
      exact hstep.later.trans hle

omit [IsStrictOrderedRing 𝕜] in
/-- The steps up to an instant are the first ones. -/
theorem exists_takes_filter (last : 𝕜) (hrun : bucket.Takes items before after) :
    ∃ middle, bucket.Takes (items.filter fun item => item.1 ≤ last) before middle := by
  induction items generalizing before with
  | nil => exact ⟨before, rfl⟩
  | cons item items ih =>
      have hlater := le_of_takes hrun
      obtain ⟨next, ⟨added, hstep⟩, hrest⟩ := hrun
      by_cases hlast : item.1 ≤ last
      · obtain ⟨middle, hmiddle⟩ := ih hrest
        rw [List.filter_cons, if_pos (decide_eq_true hlast)]
        exact ⟨middle, next, ⟨added, hstep⟩, hmiddle⟩
      · have hnone : (item :: items).filter (fun item => item.1 ≤ last) = [] := by
          rw [List.filter_eq_nil_iff, List.forall_mem_cons]
          constructor
          · rw [decide_eq_true_eq]
            exact hlast
          · intro later hmem
            have hle := le_of_takes hrest later hmem
            rw [hstep.seen] at hle
            rw [decide_eq_true_eq]
            exact fun hbefore => hlast (hle.trans hbefore)
        rw [hnone]
        exact ⟨before, rfl⟩

/-- The bound for the steps of a run that fall in an interval. -/
theorem taken_between_le {last : 𝕜} (hrate : 0 ≤ bucket.rate) (hslack : 0 ≤ bucket.slack)
    (hproper : bucket.Proper before) (hinterval : start ≤ last)
    (hrun : bucket.Takes items before after) :
    ((items.filter fun item => start ≤ item.1 ∧ item.1 ≤ last).map Prod.snd).sum ≤
      bucket.capacity + min bucket.capacity bucket.slack + bucket.rate * (last - start) := by
  induction items generalizing before with
  | nil =>
      have hnone : bucket.Takes [] before before := rfl
      exact taken_le hrate hslack hproper hinterval (fun _ hitem => nomatch hitem) hnone
  | cons item items ih =>
      by_cases hstart : start ≤ item.1
      · obtain ⟨middle, htakes⟩ := exists_takes_filter last hrun
        have hlater : ∀ later ∈ item :: items, start ≤ later.1 := by
          obtain ⟨next, ⟨added, hstep⟩, hrest⟩ := hrun
          rw [List.forall_mem_cons]
          refine ⟨hstart, fun later hmem => ?_⟩
          have hle := le_of_takes hrest later hmem
          rw [hstep.seen] at hle
          exact hstart.trans hle
        have hfilter : (item :: items).filter (fun item => start ≤ item.1 ∧ item.1 ≤ last) =
            (item :: items).filter fun item => item.1 ≤ last := by
          apply List.filter_congr
          intro later hmem
          rw [decide_eq_decide]
          exact and_iff_right (hlater later hmem)
        rw [hfilter]
        apply taken_le hrate hslack hproper hinterval _ htakes
        intro later hmem
        rw [List.mem_filter, decide_eq_true_eq] at hmem
        exact ⟨hlater later hmem.1, hmem.2⟩
      · obtain ⟨next, ⟨added, hstep⟩, hrest⟩ := hrun
        have hbefore : ¬ (start ≤ item.1 ∧ item.1 ≤ last) := fun hwithin => hstart hwithin.1
        rw [List.filter_cons, decide_eq_false hbefore, if_neg Bool.false_ne_true]
        exact ih (hproper.step hstep) hrest

end Bucket

end Otoroshi
