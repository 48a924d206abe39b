/-
# Changes of plans reach subscriptions

When a plan changes or goes, the subscriptions to it are fetched page by page, and each
page is handed on. Every fetch asks for all that is left, from page 0 on. The pages 0 and 1
are both the whole store, and there is nothing on page 2.

`propagates_iff` says when every subscription is handed on exactly once.
-/

import Otoroshi.Foundation.Text
import Otoroshi.Storage.Pages

namespace Otoroshi

namespace Apis

open Pages

inductive ApiKind where
  | apikey
  | mtls
  | keyless
  | oauth2Local
  | oauth2Remote
  | jwt
  deriving DecidableEq, Repr

/-- The consumers call with an apikey. -/
def ApiKind.hasApikeys : ApiKind → Bool
  | .apikey | .oauth2Local => true
  | .mtls | .keyless | .oauth2Remote | .jwt => false

/-- What a change looks at in a subscription, or in the draft of one. A draft may have a
content that can not be read as a subscription. -/
structure StoredSubscription where
  id : Str
  planRef : Str
  apiRef : Str
  subscriptionKind : Option ApiKind
  deriving DecidableEq, Repr

/-- A plan is gone, or it has changed and may be closed now. -/
inductive PlanChange where
  | deleted
  | updated (closed : Bool)

/-- The change can be applied to a subscription. -/
def PlanChange.applies : PlanChange → StoredSubscription → Bool
  | .deleted, _ => true
  | .updated _, subscription => subscription.subscriptionKind.isSome

/-- A subscription is still there after the change. -/
def PlanChange.keeps : PlanChange → StoredSubscription → Bool
  | .deleted, _ => false
  | .updated closed, subscription =>
      !(closed && subscription.subscriptionKind.any ApiKind.hasApikeys)

/-! ## Batches -/

/-- The order in which a store lists its keys, which may be another one for every page. -/
structure KeyOrder where
  order : Int32 → List (Option StoredSubscription) → List (Option StoredSubscription)
  perm (page : Int32) (contents : List (Option StoredSubscription)) :
    (order page contents).Perm contents

abbrev Subscriptions := Stored StoredSubscription

namespace Subscriptions

variable (stored : Subscriptions)

/-- What is listed for a page. -/
def listed (orders : KeyOrder) (page : Int32) : Subscriptions where
  contents := orders.order page stored.contents
  size := (orders.perm page stored.contents).length_eq.trans_le stored.size

/-- What is left when the change was applied to some subscriptions. -/
def after (change : PlanChange) (predicate : StoredSubscription → Bool) : Subscriptions where
  contents := stored.contents.map fun content => content.filter fun subscription =>
    !predicate subscription || change.keeps subscription
  size := (List.length_map _).trans_le stored.size

end Subscriptions

/-- The subscriptions that were handed on, and what stopped the propagation. -/
structure Propagated where
  handed : List StoredSubscription
  error : Option String := none

def batchSize : Nat := 50

section Batches

variable (orders : KeyOrder) (change : PlanChange) (planId apiId : Str)

/-- The subscriptions of a plan. Two apis can give the same id to their plans. -/
def subscribes (subscription : StoredSubscription) : Bool :=
  subscription.planRef == planId && subscription.apiRef == apiId

/-- `_batchSubscriptionsUpdates`. -/
def batchFrom : Nat → Int32 → Subscriptions → Option Propagated
  | 0, _, _ => none
  | fuel + 1, page, stored =>
      match streamedFind (subscribes planId apiId) 50 page Int32.maxValue
        (stored.listed orders page) with
      | .error message => some { handed := [], error := some message }
      | .ok subscriptions =>
          if subscriptions.isEmpty then some { handed := [] }
          else if !subscriptions.all change.applies then
            some { handed := subscriptions.takeWhile change.applies
                   error := some "None.get" }
          else if subscriptions.length < batchSize then some { handed := subscriptions }
          else
            (batchFrom fuel (page + 1) (stored.after change (subscribes planId apiId))).map
              fun rest => { rest with handed := subscriptions ++ rest.handed }

def batchSubscriptionsUpdates (fuel : Nat) (stored : Subscriptions) : Option Propagated :=
  batchFrom orders change planId apiId fuel 0 stored

/-- The propagation ends, and every subscription of the plan was handed on once. -/
def Propagates (stored : Subscriptions) : Prop :=
  ∃ fuel propagated, batchSubscriptionsUpdates orders change planId apiId fuel stored =
      some propagated ∧ propagated.error = none ∧
    propagated.handed.Perm (stored.matching (subscribes planId apiId))

end Batches

variable {orders : KeyOrder} {change : PlanChange} {planId apiId : Str} {stored : Subscriptions}

/-! ## The pages of a batch -/

theorem matching_listed (page : Int32) :
    ((stored.listed orders page).matching (subscribes planId apiId)).Perm
      (stored.matching (subscribes planId apiId)) :=
  ((orders.perm page stored.contents).filterMap _).filter _

theorem matching_after :
    (stored.after change (subscribes planId apiId)).matching (subscribes planId apiId) =
      (stored.matching (subscribes planId apiId)).filter change.keeps := by
  show ((stored.contents.map _).filterMap id).filter _ =
    ((stored.contents.filterMap id).filter _).filter _
  rw [List.filter_filter, List.filterMap_map, List.filter_filterMap, List.filter_filterMap]
  congr 1
  funext content
  rw [Function.comp_apply, id_eq, id_eq, Option.filter_filter]
  congr 1
  funext subscription
  cases subscribes planId apiId subscription <;> cases change.keeps subscription <;> rfl

/-- All subscriptions are on page 0. -/
theorem fetch_zero : streamedFind (subscribes planId apiId) 50 0 Int32.maxValue stored =
    .ok (stored.matching (subscribes planId apiId)) := by
  rw [streamedFind_eq (by decide)]
  exact congrArg _ (List.take_of_length_le stored.length_matching_le)

/-- They are also on page 1. -/
theorem fetch_one : streamedFind (subscribes planId apiId) 50 1 Int32.maxValue stored =
    .ok (stored.matching (subscribes planId apiId)) := by
  rw [streamedFind_eq (by decide)]
  exact congrArg _ (List.take_of_length_le stored.length_matching_le)

/-! ## One page -/

section Page

variable {page : Int32} {subscriptions : List StoredSubscription} {fuel : Nat}
  (hfetch : streamedFind (subscribes planId apiId) 50 page Int32.maxValue
    (stored.listed orders page) = .ok subscriptions)

include hfetch

/-- A page that is not full is the last one. -/
theorem batchFrom_of_lt (happlies : subscriptions.all change.applies)
    (hshort : subscriptions.length < batchSize) :
    batchFrom orders change planId apiId (fuel + 1) page stored =
      some { handed := subscriptions } := by
  simp only [batchFrom, hfetch, happlies, hshort]
  cases subscriptions <;> rfl

theorem batchFrom_of_le (happlies : subscriptions.all change.applies)
    (hfull : batchSize ≤ subscriptions.length) :
    batchFrom orders change planId apiId (fuel + 1) page stored =
      (batchFrom orders change planId apiId fuel (page + 1)
        (stored.after change (subscribes planId apiId))).map
          fun rest => { rest with handed := subscriptions ++ rest.handed } := by
  have hnonempty : subscriptions.isEmpty = false := by
    cases subscriptions with
    | nil => exact absurd hfull (by decide)
    | cons => rfl
  simp only [batchFrom, hfetch, happlies, hnonempty]
  exact if_neg hfull.not_gt

theorem applies_of_batchFrom {propagated : Propagated}
    (h : batchFrom orders change planId apiId fuel page stored = some propagated)
    (herror : propagated.error = none) : subscriptions.all change.applies := by
  cases fuel with
  | zero => cases h
  | succ fuel =>
    simp only [batchFrom, hfetch] at h
    split at h
    · next hempty => simp [List.isEmpty_iff.mp hempty]
    · split at h
      · cases h
        cases herror
      · next happlies => simpa using happlies

/-- What is handed on starts with the page. -/
theorem prefix_of_batchFrom {propagated : Propagated}
    (h : batchFrom orders change planId apiId fuel page stored = some propagated)
    (herror : propagated.error = none) : subscriptions <+: propagated.handed := by
  have happlies := applies_of_batchFrom hfetch h herror
  cases fuel with
  | zero => cases h
  | succ fuel =>
    rcases lt_or_ge subscriptions.length batchSize with hshort | hfull
    · rw [batchFrom_of_lt hfetch happlies hshort] at h
      cases h
      exact List.prefix_refl subscriptions
    · rw [batchFrom_of_le hfetch happlies hfull, Option.map_eq_some_iff] at h
      obtain ⟨rest, -, rfl⟩ := h
      exact List.prefix_append subscriptions rest.handed

end Page

/-! ## All pages -/

/-- What a change keeps is handed on twice, if the first page is full. -/
theorem keeps_eq_false_of_propagates
    (h : Propagates orders change planId apiId stored)
    (hfull : batchSize ≤ (stored.matching (subscribes planId apiId)).length) :
    ∀ subscription ∈ stored.matching (subscribes planId apiId),
      change.keeps subscription = false := by
  obtain ⟨fuel, propagated, hbatch, herror, hperm⟩ := h
  have hfirst : ((stored.listed orders 0).matching (subscribes planId apiId)).Perm
      (stored.matching (subscribes planId apiId)) := matching_listed 0
  have happlies := applies_of_batchFrom fetch_zero hbatch herror
  cases fuel with
  | zero => cases hbatch
  | succ fuel =>
    rw [batchSubscriptionsUpdates,
      batchFrom_of_le fetch_zero happlies (hfull.trans hfirst.length_eq.ge),
      Option.map_eq_some_iff] at hbatch
    obtain ⟨rest, hrest, rfl⟩ := hbatch
    have hnil : rest.handed = [] := by
      have hlength := hperm.length_eq
      rw [List.length_append, hfirst.length_eq] at hlength
      exact List.length_eq_zero_iff.mp (by omega)
    have hsecond := prefix_of_batchFrom fetch_one hrest herror
    rw [hnil, List.prefix_nil] at hsecond
    have hleft := (hsecond ▸ matching_listed 1).nil_eq
    rw [matching_after, eq_comm, List.filter_eq_nil_iff] at hleft
    exact fun subscription hmem => Bool.eq_false_iff.mpr (hleft subscription hmem)

theorem propagates_of_applies
    (happlies : ∀ subscription ∈ stored.matching (subscribes planId apiId),
      change.applies subscription)
    (h : (stored.matching (subscribes planId apiId)).length < batchSize ∨
      ∀ subscription ∈ stored.matching (subscribes planId apiId),
        change.keeps subscription = false) :
    Propagates orders change planId apiId stored := by
  have hfirst : ((stored.listed orders 0).matching (subscribes planId apiId)).Perm
      (stored.matching (subscribes planId apiId)) := matching_listed 0
  have happlies' : ((stored.listed orders 0).matching (subscribes planId apiId)).all
      change.applies :=
    List.all_eq_true.mpr fun subscription hmem => happlies _ (hfirst.mem_iff.mp hmem)
  rcases lt_or_ge ((stored.listed orders 0).matching (subscribes planId apiId)).length batchSize
    with hshort | hfull
  · exact ⟨1, _, batchFrom_of_lt fetch_zero happlies' hshort, rfl, hfirst⟩
  · have hkeeps := h.resolve_left (hfull.trans hfirst.length_eq.le).not_gt
    have hleft : ((stored.after change (subscribes planId apiId)).listed orders 1).matching
        (subscribes planId apiId) = [] := by
      refine List.Perm.eq_nil ((matching_listed 1).trans (.of_eq ?_))
      rw [matching_after, List.filter_eq_nil_iff]
      exact fun subscription hmem => Bool.eq_false_iff.mp (hkeeps subscription hmem)
    refine ⟨2, _, (batchFrom_of_le fetch_zero happlies' hfull).trans (congrArg _
      (batchFrom_of_lt (fetch_one.trans (congrArg _ hleft)) rfl (by decide))), rfl, ?_⟩
    exact (List.Perm.of_eq (List.append_nil _)).trans hfirst

/-- Every subscription is handed on once, if and only if the change can be applied to all of
them and there are fewer than a page, or none of them is kept. -/
theorem propagates_iff : Propagates orders change planId apiId stored ↔
    (∀ subscription ∈ stored.matching (subscribes planId apiId),
      change.applies subscription) ∧
    ((stored.matching (subscribes planId apiId)).length < batchSize ∨
      ∀ subscription ∈ stored.matching (subscribes planId apiId),
        change.keeps subscription = false) := by
  constructor
  · intro h
    constructor
    · obtain ⟨fuel, propagated, hbatch, herror, -⟩ := h
      have happlies := applies_of_batchFrom fetch_zero hbatch herror
      exact fun subscription hmem => List.all_eq_true.mp happlies subscription
        ((matching_listed 0).mem_iff.mpr hmem)
    · exact (lt_or_ge _ _).imp_right (keeps_eq_false_of_propagates h)
  · exact fun ⟨happlies, h⟩ => propagates_of_applies happlies h

/-- Pages are right, for any store, if and only if their positions are in range; and a change
is handed on to every subscription once in the cases of `propagates_iff`. -/
theorem handed_once_iff {E : Type} {found : Stored E} {predicate : E → Bool}
    {fetchSize page pageSize : Int32} (hsize : 0 < fetchSize.toInt.toNat) :
    (streamedFind predicate fetchSize page pageSize found =
        .ok (requestedPage page pageSize (found.matching predicate)) ↔
      InRange (found.matching predicate).length page pageSize) ∧
    (Propagates orders change planId apiId stored ↔
      (∀ subscription ∈ stored.matching (subscribes planId apiId),
        change.applies subscription) ∧
      ((stored.matching (subscribes planId apiId)).length < batchSize ∨
        ∀ subscription ∈ stored.matching (subscribes planId apiId),
          change.keeps subscription = false)) :=
  ⟨streamedFind_eq_requested_iff hsize, propagates_iff⟩

/-! ## A full page -/

namespace Crowded

def byKey : KeyOrder where
  order _ contents := contents
  perm _ _ := .refl _

def subscription (n : Nat) : StoredSubscription where
  id := (toString n).toList
  planRef := "gold".toList
  apiRef := "orders".toList
  subscriptionKind := some .apikey

def store : Subscriptions where
  contents := (List.range 50).map fun n => some (subscription n)
  size := by decide

end Crowded

/-- A page after the last one is empty, and a plan that has gone is handed on to each of its
subscriptions once. -/
theorem handed_once_iff_example :
    (streamedFind (fun _ => true) 50 2 1
        ⟨[some (Crowded.subscription 0)], by decide⟩ = .ok [] ∧
      InRange 1 2 1) ∧
    Propagates Crowded.byKey .deleted "gold".toList "orders".toList Crowded.store := by
  have h := @handed_once_iff Crowded.byKey .deleted "gold".toList "orders".toList
    Crowded.store StoredSubscription ⟨[some (Crowded.subscription 0)], by decide⟩ (fun _ => true)
    50 2 1 (by decide)
  have hrange : InRange 1 2 1 := .inr (.inr (.inl (by decide)))
  exact ⟨⟨h.1.mpr hrange, hrange⟩, h.2.mpr ⟨fun _ _ => rfl, .inr fun _ _ => rfl⟩⟩

/-- The subscriptions to a plan that is still open are not handed on just once if they fill a
page. -/
theorem exists_not_propagates :
    (Crowded.store.matching (subscribes "gold".toList "orders".toList)).length = 50 ∧
    ¬ Propagates Crowded.byKey (.updated false) "gold".toList "orders".toList
      Crowded.store := by
  have hmatching : Crowded.store.matching (subscribes "gold".toList "orders".toList) =
      (List.range 50).map Crowded.subscription := by decide +kernel
  rw [hmatching, propagates_iff, hmatching]
  refine ⟨rfl, fun h => ?_⟩
  rcases h.2 with hshort | hkeeps
  · exact absurd hshort (by decide)
  · exact absurd (hkeeps _ (List.mem_map_of_mem (List.mem_range.mpr (by decide : 0 < 50))))
      (by decide)

end Apis

end Otoroshi
