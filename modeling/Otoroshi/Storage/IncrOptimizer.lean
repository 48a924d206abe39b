/-
# Increments that are batched

A gateway that counts its operations puts a small counter in front of every counter of the
store. An increment is added to the amount that is pending, and only when there were too many
of them, or the last time that the store was asked is too long ago, the store is asked to add
what has come together. What it stored is taken from the pending amount when it has answered,
and other increments go on in the meantime.

`conserves_iff` says in which runs no increment is lost.
-/

import Mathlib.Algebra.BigOperators.Group.List.Basic
import Mathlib.Data.BitVec
import Mathlib.Tactic.Abel
import Otoroshi.Foundation.Run

namespace Otoroshi

namespace IncrOptimizer

/-- `IncrOptimizerItem`, but for its limits. -/
structure Item where
  last : BitVec 64
  /-- what is pending -/
  incr : BitVec 64
  current : BitVec 64
  curOps : BitVec 32
  deriving DecidableEq

/-- What comes of an increment: a value at once, or a call of the store. -/
inductive Reply
  | current (value : BitVec 64)
  | store (total : BitVec 64)

/-- The limits of the operations and of the time between two calls of the store. -/
structure Limits where
  ops : BitVec 32
  time : BitVec 32

variable (limits : Limits)

namespace Item

def tooMuchOps (item : Item) : Bool := limits.ops.slt (item.curOps + 1)

def tooMuchTime (item : Item) (now : BitVec 64) : Bool :=
  limits.time.toInt < (now - item.last).toInt

/-- `IncrOptimizerItem.incrBy`, until the store answers. -/
def incrBy (item : Item) (increment now : BitVec 64) : Item × Reply :=
  if item.tooMuchOps limits || item.tooMuchTime limits now then
    ({ item with curOps := item.curOps + 1 }, .store (item.incr + increment))
  else
    ({ item with
        curOps := item.curOps + 1
        current := item.current + increment
        incr := item.incr + increment },
      .current (item.current + increment))

/-- `IncrOptimizerItem.incrBy`, when the store has answered. -/
def answered (item : Item) (total r now : BitVec 64) : Item where
  last := now
  incr := item.incr + (0 - total)
  current := r
  curOps := item.curOps + (0 - limits.ops)

/-- The item of the first increment of a counter. -/
def first (r now : BitVec 64) : Item where
  last := now
  incr := 0
  current := r
  curOps := 0

end Item

/-- The operations of `SwappableRedisLikeMetricsWrapper`. -/
inductive Op
  | incr
  | incrby (increment : BitVec 64)

/-- The amount of an operation. -/
def Op.increment : Op → BitVec 64
  | incr => 1
  | incrby increment => increment

/-- What the operation asks the store to add, of a total. An `incr` does not look at it. -/
def Op.stores : Op → BitVec 64 → BitVec 64
  | incr, _ => 1
  | incrby _, total => total

/-- A call of the store: what it adds, the total that it is made for, and its answer. The
first call for a counter has no item yet. -/
structure Call where
  first : Bool
  total : BitVec 64
  stores : BitVec 64
  answer : Option (BitVec 64) := none

/-- A counter in the store, with its item, if there is one, and the calls that are under
way. -/
structure Counter where
  stored : BitVec 64
  cache : Option Item := none
  underWay : List Call := []

/-- What happens to a counter: an operation, a call that the store carries out, and its answer
that arrives. -/
inductive Event
  | operation (op : Op) (now : BitVec 64)
  | carriedOut (idx : Nat)
  | arrived (idx : Nat) (now : BitVec 64)

namespace Counter

/-- `IncrOptimizer.incrBy`. -/
def incrBy (counter : Counter) (op : Op) (now : BitVec 64) : Counter :=
  match counter.cache with
  | none =>
      { counter with
        underWay := counter.underWay ++
          [{ first := true, total := op.increment, stores := op.stores op.increment }] }
  | some item =>
      match item.incrBy limits op.increment now with
      | (item, .current _) => { counter with cache := some item }
      | (item, .store total) =>
          { counter with
            cache := some item
            underWay := counter.underWay ++
              [{ first := false, total := total, stores := op.stores total }] }

/-- The store adds what a call asks for. -/
def carriedOut (counter : Counter) (idx : Nat) : Counter :=
  match counter.underWay[idx]? with
  | some call => match call.answer with
      | none =>
          let r := counter.stored + call.stores
          { counter with
            stored := r
            underWay := counter.underWay.set idx { call with answer := some r } }
      | some _ => counter
  | none => counter

/-- The item after the answer of a call. The first of several first calls makes it. -/
def itemAfter (cache : Option Item) (call : Call) (r now : BitVec 64) : Option Item :=
  if call.first then some (cache.getD (.first r now))
  else cache.map fun item => item.answered limits call.total r now

/-- The answer of a call arrives. -/
def arrived (counter : Counter) (idx : Nat) (now : BitVec 64) : Counter :=
  match counter.underWay[idx]? with
  | some call => match call.answer with
      | none => counter
      | some r =>
          { counter with
            cache := itemAfter limits counter.cache call r now
            underWay := counter.underWay.eraseIdx idx }
  | none => counter

def step (event : Event) (counter : Counter) : Counter :=
  match event with
  | .operation op now => counter.incrBy limits op now
  | .carriedOut idx => counter.carriedOut idx
  | .arrived idx now => counter.arrived limits idx now

/-- The amount that is pending. -/
def pending (counter : Counter) : BitVec 64 := (counter.cache.map Item.incr).getD 0

/-- What a counter loses by an operation: where this calls the store, an `incrby` loses its
own increment, and an `incr` what is pending and its own. -/
def lost (counter : Counter) (op : Op) (now : BitVec 64) : BitVec 64 :=
  match counter.cache with
  | none => 0
  | some item =>
      if item.tooMuchOps limits || item.tooMuchTime limits now then
        match op with
        | .incr => item.incr + 1
        | .incrby increment => increment
      else 0

end Counter

/-- The amount of an event. -/
def Event.amount : Event → BitVec 64
  | operation op _ => op.increment
  | _ => 0

/-- What a counter loses by an event. -/
def Event.lost (event : Event) (counter : Counter) : BitVec 64 :=
  match event with
  | .operation op now => counter.lost limits op now
  | _ => 0

/-- The amounts of all operations. -/
def amounts (events : List Event) : BitVec 64 := (events.map Event.amount).sum

/-- What a counter loses in a run. -/
def losses : Counter → List Event → BitVec 64
  | _, [] => 0
  | counter, event :: events =>
      event.lost limits counter + losses (Counter.step limits event counter) events

/-! ## What a counter stands for -/

variable {limits} {counter : Counter} {idx : Nat} {call : Call}

/-- What a call still changes of the stored and the pending amount together. -/
def Call.remaining (call : Call) : BitVec 64 :=
  (if call.answer = none then call.stores else 0) - if call.first then 0 else call.total

theorem sum_eraseIdx {calls : List Call} (h : calls[idx]? = some call) :
    call.remaining + ((calls.eraseIdx idx).map Call.remaining).sum =
      (calls.map Call.remaining).sum := by
  obtain ⟨hlt, rfl⟩ := List.getElem?_eq_some_iff.mp h
  have hlength : idx < (calls.map Call.remaining).length := by rwa [List.length_map]
  rw [← List.eraseIdx_map, ← List.getElem_map Call.remaining (h := hlength)]
  exact List.CommMonoid.add_sum_eraseIdx hlength

theorem sum_set {calls : List Call} (h : calls[idx]? = some call) (other : Call) :
    ((calls.set idx other).map Call.remaining).sum =
      (calls.map Call.remaining).sum + (other.remaining - call.remaining) := by
  have hlt := (List.getElem?_eq_some_iff.mp h).1
  have hother := sum_eraseIdx (List.getElem?_set_self (a := other) hlt)
  rw [List.eraseIdx_set_eq] at hother
  rw [← hother, ← sum_eraseIdx h]
  abel

namespace Counter

/-- A call that was not made for lack of an item has one. -/
def HasItem (counter : Counter) : Prop :=
  ∀ call ∈ counter.underWay, call.first = false → counter.cache ≠ none

/-- What is stored and pending when all calls that are under way have been answered. -/
def settled (counter : Counter) : BitVec 64 :=
  counter.stored + counter.pending + (counter.underWay.map Call.remaining).sum

/-- An operation adds its amount, but for what is lost. -/
theorem settled_incrBy (op : Op) (now : BitVec 64) :
    (counter.incrBy limits op now).settled =
      counter.settled + op.increment - counter.lost limits op now := by
  obtain ⟨stored, cache, underWay⟩ := counter
  cases cache with
  | none =>
      cases op <;>
        simp [incrBy, lost, settled, pending, Call.remaining, Op.stores, Op.increment, add_assoc]
  | some item =>
      simp only [incrBy, lost, Item.incrBy]
      by_cases hflush : item.tooMuchOps limits || item.tooMuchTime limits now
      · simp only [if_pos hflush]
        cases op with
        | incr =>
            simp [settled, pending, Call.remaining, Op.stores, Op.increment]
            abel
        | incrby increment =>
            simp [settled, pending, Call.remaining, Op.stores, Op.increment]
      · simp only [if_neg hflush]
        simp [settled, pending]
        abel

/-- What the store adds was to be added. -/
theorem settled_carriedOut (idx : Nat) : (counter.carriedOut idx).settled = counter.settled := by
  rw [carriedOut]
  split
  · next call hcall =>
      split
      · next hanswer =>
          have hremaining : Call.remaining
              { call with answer := some (counter.stored + call.stores) } =
              call.remaining - call.stores := by
            simp [Call.remaining, hanswer]
          simp only [settled, pending, sum_set hcall, hremaining]
          abel
      · rfl
  · rfl

/-- The answer of a call takes from the pending amount what it was made for. -/
theorem settled_arrived (hitem : counter.HasItem) (idx : Nat) (now : BitVec 64) :
    (counter.arrived limits idx now).settled = counter.settled := by
  rw [arrived]
  split
  · next call hcall =>
      split
      · rfl
      · next r hanswer =>
          have hsum := sum_eraseIdx hcall
          rw [Call.remaining, hanswer, if_neg (Option.some_ne_none r)] at hsum
          simp only [settled, pending, ← hsum, itemAfter]
          cases hfirst : call.first with
          | true =>
              cases hcache : counter.cache <;> simp [Item.first]
          | false =>
              obtain ⟨item, hcache⟩ := Option.ne_none_iff_exists'.mp
                (hitem call (List.mem_of_getElem? hcall) hfirst)
              simp [hcache, Item.answered]
              abel
  · rfl

/-- What an event does to what a counter stands for. -/
theorem settled_step (hitem : counter.HasItem) (event : Event) :
    (step limits event counter).settled =
      counter.settled + event.amount - event.lost limits counter := by
  cases event with
  | operation op now => exact settled_incrBy op now
  | carriedOut idx => exact (settled_carriedOut idx).trans (by simp [Event.amount, Event.lost])
  | arrived idx now =>
      exact (settled_arrived hitem idx now).trans (by simp [Event.amount, Event.lost])

theorem itemAfter_ne_none {cache : Option Item} (h : cache ≠ none) (r now : BitVec 64) :
    itemAfter limits cache call r now ≠ none := by
  obtain ⟨item, rfl⟩ := Option.ne_none_iff_exists'.mp h
  rw [itemAfter]
  split <;> exact Option.some_ne_none _

theorem hasItem_incrBy (hitem : counter.HasItem) (op : Op) (now : BitVec 64) :
    (counter.incrBy limits op now).HasItem := by
  intro call hcall hfirst
  cases hcache : counter.cache with
  | none =>
      simp only [incrBy, hcache] at hcall
      rcases List.mem_append.mp hcall with hcall | hcall
      · exact absurd hcache (hitem call hcall hfirst)
      · rw [List.mem_singleton.mp hcall] at hfirst
        cases hfirst
  | some item =>
      simp only [incrBy, hcache]
      split <;> exact Option.some_ne_none _

theorem hasItem_carriedOut (hitem : counter.HasItem) (idx : Nat) :
    (counter.carriedOut idx).HasItem := by
  rw [carriedOut]
  split
  · next call hcall =>
      split
      · intro other hother hfirst
        rcases List.mem_or_eq_of_mem_set hother with hother | rfl
        · exact hitem other hother hfirst
        · exact hitem call (List.mem_of_getElem? hcall) hfirst
      · exact hitem
  · exact hitem

theorem hasItem_arrived (hitem : counter.HasItem) (idx : Nat) (now : BitVec 64) :
    (counter.arrived limits idx now).HasItem := by
  rw [arrived]
  split
  · next call hcall =>
      split
      · exact hitem
      · intro other hother hfirst
        exact itemAfter_ne_none (hitem other (List.mem_of_mem_eraseIdx hother) hfirst) _ _
  · exact hitem

theorem hasItem_step (hitem : counter.HasItem) (event : Event) :
    (step limits event counter).HasItem := by
  cases event with
  | operation op now => exact hasItem_incrBy hitem op now
  | carriedOut idx => exact hasItem_carriedOut hitem idx
  | arrived idx now => exact hasItem_arrived hitem idx now

/-- What a run does to what a counter stands for. -/
theorem settled_runAll (hitem : counter.HasItem) (events : List Event) :
    (runAll (step limits) counter events).settled =
      counter.settled + amounts events - losses limits counter events := by
  induction events generalizing counter with
  | nil => exact (sub_zero _).symm.trans (congrArg (· - 0) (add_zero _).symm)
  | cons event events ih =>
      have hrun : runAll (step limits) counter (event :: events) =
        runAll (step limits) (step limits event counter) events := rfl
      rw [hrun, ih (hasItem_step hitem event), settled_step hitem, amounts, amounts,
        List.map_cons, List.sum_cons, losses]
      abel

theorem settled_of_underWay (h : counter.underWay = []) :
    counter.settled = counter.stored + counter.pending := by
  rw [settled, h, List.map_nil, List.sum_nil, add_zero]

end Counter

open Counter

/-- When all calls of the store have been answered, what is stored and pending is the sum of
the amounts exactly if nothing was lost. -/
theorem conserves_iff (limits : Limits) (stored : BitVec 64) (events : List Event)
    (hdone : (runAll (step limits) { stored } events).underWay = []) :
    (runAll (step limits) { stored } events).stored +
        (runAll (step limits) { stored } events).pending = stored + amounts events ↔
      losses limits { stored } events = 0 := by
  have hitem : HasItem { stored } := nofun
  rw [← settled_of_underWay hdone, settled_runAll hitem,
    @settled_of_underWay { stored } rfl, sub_eq_iff_eq_add]
  show stored + 0 + _ = _ ↔ _
  rw [add_zero, left_eq_add]

section Examples

/-- The limits of the gateway. -/
def metricsLimits : Limits := ⟨200, 10000⟩

/-- The first increment of a counter, which the store answers, and another one. -/
def twoIncrements : List Event :=
  [.operation (.incrby 1) 0, .carriedOut 0, .arrived 0 0, .operation (.incrby 5) 1]

theorem conserves_iff_example :
    (runAll (step metricsLimits) { stored := 0 } twoIncrements).stored +
        (runAll (step metricsLimits) { stored := 0 } twoIncrements).pending =
          0 + amounts twoIncrements ↔
      losses metricsLimits { stored := 0 } twoIncrements = 0 :=
  conserves_iff metricsLimits 0 twoIncrements rfl

/-- An increment that comes when the store was asked too long ago is stored with what is
pending, and taken from the pending amount as well, where it never was. -/
theorem exists_not_conserves :
    ¬ ∀ (limits : Limits) (stored : BitVec 64) (events : List Event),
      (runAll (step limits) { stored } events).underWay = [] →
        (runAll (step limits) { stored } events).stored +
          (runAll (step limits) { stored } events).pending = stored + amounts events := by
  intro h
  have hsum := h metricsLimits 0 (twoIncrements ++
    [.operation (.incrby 7) 20000, .carriedOut 0, .arrived 0 20000]) rfl
  exact absurd hsum (by decide)

end Examples

end IncrOptimizer

end Otoroshi
