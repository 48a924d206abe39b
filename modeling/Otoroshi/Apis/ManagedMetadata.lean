/-
# Metadata of an apikey that comes from a plan

The apikey of a subscription carries the entries of its plan and of its subscription. Which
entries these are is written into its metadata, as lists of keys in two more entries. When
the plan or the subscription changes, the entries that are named there are left out, and
what is left goes on top of the new ones.

`follows_iff` says after which runs of changes the apikey has the right entries. The lists
are among what is left, so they stay as they were written first; and a key with a space in
it is not found in a list.
-/

import Otoroshi.Foundation.Maps
import Otoroshi.Foundation.Run
import Otoroshi.Foundation.Text

namespace Otoroshi

namespace Apis

abbrev Metadata := AList fun _ : Str => Str

/-- The template of a plan. `Settings` are those that an apikey takes over as they are. -/
structure PlanTemplate (Settings : Type) where
  metadata : Metadata := ∅
  tags : List Str := []
  settings : Settings

structure Subscription where
  metadata : Metadata := ∅
  tags : List Str := []
  disabled : Bool := false

structure PlanApikey (Settings : Type) where
  enabled : Bool
  clientId : Str
  clientSecret : Str
  metadata : Metadata
  tags : List Str
  settings : Settings

/-! ## Managed entries -/

def planMetadataKey : Str := "plan_metadata".toList

def subscriptionMetadataKey : Str := "subscription_metadata".toList

def planTagsKey : Str := "plan_tags".toList

def subscriptionTagsKey : Str := "subscription_tags".toList

/-- The keys of the entries that hold lists. -/
def listKeys : List Str :=
  [planMetadataKey, subscriptionMetadataKey, planTagsKey, subscriptionTagsKey]

def coreMetadata : List Str := ["updated_at".toList]

/-- `mkString` with the separator. -/
def writeList (keys : List Str) : Str := List.intercalate " | ".toList keys

/-- `split` with the separator, which is a pattern here: a space, or a space. -/
def readList (text : Option Str) : List Str := (text.map (split ' ')).getD []

section Update

variable {Settings : Type} (plan : PlanTemplate Settings) (subscription : Subscription)

def generateNewApikeyFromPlan (clientId clientSecret : Str) : PlanApikey Settings where
  enabled := !subscription.disabled
  clientId
  clientSecret
  metadata :=
    ((((Maps.putAll subscription.metadata plan.metadata).insert
        planMetadataKey (writeList plan.metadata.keys)).insert
        subscriptionMetadataKey (writeList subscription.metadata.keys)).insert
        planTagsKey (writeList plan.tags)).insert
        subscriptionTagsKey (writeList subscription.tags)
  tags := plan.tags ++ subscription.tags
  settings := plan.settings

def managedKeys (metadata : Metadata) : List Str :=
  readList (metadata.lookup planMetadataKey) ++ readList (metadata.lookup subscriptionMetadataKey)

def managedTags (metadata : Metadata) : List Str :=
  readList (metadata.lookup planTagsKey) ++ readList (metadata.lookup subscriptionTagsKey)

def removeManagedMetadata (metadata : Metadata) : Metadata :=
  Maps.filterKeys
    (fun key => !(managedKeys metadata).contains key && !coreMetadata.contains key) metadata

def removeManagedTags (metadata : Metadata) (tags : List Str) : List Str :=
  tags.filter fun tag => !(managedTags metadata).contains tag

/-- The apikey after a change of its plan or its subscription. -/
def updateApikeyFromPlan (apikey : PlanApikey Settings) : PlanApikey Settings :=
  let newApikey := generateNewApikeyFromPlan plan subscription apikey.clientId apikey.clientSecret
  { newApikey with
    metadata := Maps.putAll (removeManagedMetadata apikey.metadata) newApikey.metadata
    tags := newApikey.tags ++ removeManagedTags apikey.metadata apikey.tags }

end Update

/-! ## Runs -/

/-- Entries and tags that were added to the apikey by hand, and then a change of the plan or
of the subscription. -/
structure Round (Settings : Type) where
  added : Metadata := ∅
  addedTags : List Str := []
  plan : PlanTemplate Settings
  subscription : Subscription

/-- An apikey with its plan and subscription, and all entries that were added by hand. -/
structure Subscribed (Settings : Type) where
  plan : PlanTemplate Settings
  subscription : Subscription
  apikey : PlanApikey Settings
  added : Metadata := ∅

namespace Subscribed

variable {Settings : Type}

/-- A new apikey. -/
def start (plan : PlanTemplate Settings) (subscription : Subscription)
    (clientId clientSecret : Str) : Subscribed Settings where
  plan
  subscription
  apikey := generateNewApikeyFromPlan plan subscription clientId clientSecret

variable (state : Subscribed Settings)

/-- The apikey after the edits by hand. -/
def edited (round : Round Settings) : PlanApikey Settings :=
  { state.apikey with
    metadata := Maps.putAll round.added state.apikey.metadata
    tags := state.apikey.tags ++ round.addedTags }

def next (round : Round Settings) (state : Subscribed Settings) : Subscribed Settings where
  plan := round.plan
  subscription := round.subscription
  apikey := updateApikeyFromPlan round.plan round.subscription (state.edited round)
  added := Maps.putAll round.added state.added

/-- The entry of the subscription or, if there is none, of the plan. -/
def managed (key : Str) : Option Str :=
  (state.subscription.metadata.lookup key).or (state.plan.metadata.lookup key)

/-- The entry that there should be. -/
def expected (key : Str) : Option Str := (state.managed key).or (state.added.lookup key)

/-- The apikey has the entries of the plan and of the subscription, and those that were
added. -/
def Follows : Prop :=
  ∀ key, key ∉ listKeys → state.apikey.metadata.lookup key = state.expected key

/-- The entry is left out of what is taken over. -/
def Forgotten (metadata : Metadata) (key : Str) : Prop :=
  key ∈ managedKeys metadata ∨ key ∈ coreMetadata

/-- No entry that was added is left out, and every entry that is not left out is one that
there should be, with its value. -/
def Meets (round : Round Settings) : Prop :=
  ∀ key, key ∉ listKeys →
    (Forgotten (state.edited round).metadata key →
      (state.next round).managed key = none → (state.next round).added.lookup key = none) ∧
    (¬ Forgotten (state.edited round).metadata key →
      ∀ value, (round.added.lookup key).or (state.expected key) = some value →
        (state.next round).expected key = some value)

variable {state}

/-! ### Entries of a new apikey -/

theorem lookup_generated {plan : PlanTemplate Settings} {subscription : Subscription}
    {clientId clientSecret key : Str} (hkey : key ∉ listKeys) :
    (generateNewApikeyFromPlan plan subscription clientId clientSecret).metadata.lookup key =
      (subscription.metadata.lookup key).or (plan.metadata.lookup key) := by
  simp only [listKeys, List.mem_cons, List.not_mem_nil, or_false, not_or] at hkey
  rw [generateNewApikeyFromPlan, AList.lookup_insert_ne hkey.2.2.2,
    AList.lookup_insert_ne hkey.2.2.1, AList.lookup_insert_ne hkey.2.1,
    AList.lookup_insert_ne hkey.1, Maps.lookup_putAll]

theorem follows_start (plan : PlanTemplate Settings) (subscription : Subscription)
    (clientId clientSecret : Str) :
    (start plan subscription clientId clientSecret).Follows := by
  intro key hkey
  rw [start, lookup_generated hkey, expected, managed, AList.lookup_empty, Option.or_none]

/-! ### Entries after a change -/

theorem lookup_removeManagedMetadata_of_forgotten {metadata : Metadata} {key : Str}
    (h : Forgotten metadata key) : (removeManagedMetadata metadata).lookup key = none := by
  rw [removeManagedMetadata, Maps.lookup_filterKeys]
  apply if_neg
  rw [Bool.and_eq_true, Bool.not_eq_true', Bool.not_eq_true', List.contains_eq_mem,
    List.contains_eq_mem, decide_eq_false_iff_not, decide_eq_false_iff_not, ← not_or]
  exact not_not_intro h

theorem lookup_removeManagedMetadata {metadata : Metadata} {key : Str}
    (h : ¬ Forgotten metadata key) :
    (removeManagedMetadata metadata).lookup key = metadata.lookup key := by
  rw [removeManagedMetadata, Maps.lookup_filterKeys]
  apply if_pos
  rw [Bool.and_eq_true, Bool.not_eq_true', Bool.not_eq_true', List.contains_eq_mem,
    List.contains_eq_mem, decide_eq_false_iff_not, decide_eq_false_iff_not, ← not_or]
  exact h

theorem lookup_next {round : Round Settings} {key : Str} (hkey : key ∉ listKeys) :
    (state.next round).apikey.metadata.lookup key =
      ((removeManagedMetadata (state.edited round).metadata).lookup key).or
        ((state.next round).managed key) := by
  rw [next, updateApikeyFromPlan, Maps.lookup_putAll, lookup_generated hkey]
  rfl

/-- A change keeps the entries right exactly when it meets the condition. -/
theorem follows_next_iff (h : state.Follows) (round : Round Settings) :
    (state.next round).Follows ↔ state.Meets round := by
  apply forall_congr'
  intro key
  apply imp_congr_right
  intro hkey
  rw [lookup_next hkey]
  by_cases hforgotten : Forgotten (state.edited round).metadata key
  · simp only [lookup_removeManagedMetadata_of_forgotten hforgotten, Option.none_or, hforgotten,
      true_imp_iff, not_true_eq_false, false_imp_iff, and_true]
    rw [expected]
    cases (state.next round).managed key <;> simp [eq_comm]
  · have hold : (state.edited round).metadata.lookup key =
        (round.added.lookup key).or (state.expected key) := by
      rw [edited, Maps.lookup_putAll, h key hkey]
    simp only [lookup_removeManagedMetadata hforgotten, hold, hforgotten, not_false_eq_true,
      true_imp_iff, false_imp_iff, true_and]
    cases hvalue : (round.added.lookup key).or (state.expected key) with
    | some value => simp [eq_comm]
    | none =>
        -- nobody has an entry with the key but the plan and the subscription
        rw [Option.or_eq_none_iff] at hvalue
        have hadded : (state.next round).added.lookup key = none := by
          rw [next, Maps.lookup_putAll, hvalue.1, Option.none_or]
          exact (Option.or_eq_none_iff.mp hvalue.2).2
        simp [expected, hadded]

/-- After every change of a run the apikey has the right entries, if and only if every change
meets the condition. -/
theorem follows_iff (plan : PlanTemplate Settings) (subscription : Subscription)
    (clientId clientSecret : Str) (rounds : List (Round Settings)) :
    Along next (fun state round _ => (state.next round).Follows)
        (start plan subscription clientId clientSecret) rounds ↔
      Along next (fun state round _ => state.Meets round)
        (start plan subscription clientId clientSecret) rounds :=
  along_inv_iff (fun _ round h => follows_next_iff h round)
    (follows_start plan subscription clientId clientSecret)

/-- A plan whose metadata are given. -/
def planWith (metadata : List (Str × Str)) : PlanTemplate Unit where
  metadata := Maps.insertAll metadata ∅
  settings := ()

/-- A plan gets a new entry, and then changes it. The apikey keeps the first value. -/
theorem exists_not_follows :
    ¬ ∀ (plan : PlanTemplate Unit) (subscription : Subscription) (clientId clientSecret : Str)
      (rounds : List (Round Unit)),
      Along next (fun state round _ => (state.next round).Follows)
        (start plan subscription clientId clientSecret) rounds := by
  intro h
  have hfollows := (h (planWith [("a".toList, "1".toList)]) {} [] []
    [{ plan := planWith [("a".toList, "1".toList), ("b".toList, "1".toList)], subscription := {} },
      { plan := planWith [("a".toList, "1".toList), ("b".toList, "2".toList)],
        subscription := {} }]).2.1
  exact absurd (hfollows "b".toList (by decide)) (by decide)

end Subscribed

end Apis

end Otoroshi
