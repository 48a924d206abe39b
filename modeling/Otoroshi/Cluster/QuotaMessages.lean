/-
# Increments that wait for the leader

A worker counts the calls of apikeys and routes, of custom quotas and of custom throttlings,
in messages that it sends to the leader from time to time. All messages wait in one map, and
each kind has a key of its own making. A message that is found under a key is taken for one
of the kind that is expected, and the platform throws if it is not.

`adds_own_iff` says for which sequences of increments no two kinds, and no two messages of
one kind, ever mix.
-/

import Mathlib.Algebra.Group.Pi.Lemmas
import Mathlib.Data.BitVec
import Mathlib.Data.Set.Function
import Otoroshi.Foundation.Maps
import Otoroshi.Foundation.Run
import Otoroshi.Foundation.Text
import Otoroshi.Foundation.Totals

namespace Otoroshi

namespace Cluster

open Totals

/-- The counters of a route. All other messages count calls only. -/
inductive Counter where
  | calls
  | dataIn
  | dataOut
  | overhead
  | duration
  | backendDuration
  | headersIn
  | headersOut
  deriving DecidableEq, Repr

/-- A number for each counter. Sums are taken in 64 bits. -/
abbrev Counts := Counter → BitVec 64

inductive ClusterLeaderUpdateMessage where
  | globalStatusUpdate
  | apikeyCallIncr (clientId : Str) (calls : BitVec 64)
  | routeCallIncr (routeId : Str) (counts : Counts)
  | customThrottlingIncr (expr group : Str) (calls ttl : BitVec 64)
  | customQuotasIncr (expr group : Str) (calls : BitVec 64)

/-- What is counted: the kind of a message and its identifier. -/
inductive Counted where
  | apikey (clientId : Str)
  | route (routeId : Str)
  | customThrottling (expr group : Str)
  | customQuotas (expr group : Str)
  deriving DecidableEq, Repr

namespace ClusterLeaderUpdateMessage

def counted : ClusterLeaderUpdateMessage → Option Counted
  | globalStatusUpdate => none
  | apikeyCallIncr clientId _ => some (.apikey clientId)
  | routeCallIncr routeId _ => some (.route routeId)
  | customThrottlingIncr expr group _ _ => some (.customThrottling expr group)
  | customQuotasIncr expr group _ => some (.customQuotas expr group)

/-- What a message adds, to each counter of everything that is counted. -/
def weight : ClusterLeaderUpdateMessage → Counted → Counts
  | globalStatusUpdate => 0
  | apikeyCallIncr clientId calls => Pi.single (.apikey clientId) (Pi.single .calls calls)
  | routeCallIncr routeId counts => Pi.single (.route routeId) counts
  | customThrottlingIncr expr group calls _ =>
      Pi.single (.customThrottling expr group) (Pi.single .calls calls)
  | customQuotasIncr expr group calls =>
      Pi.single (.customQuotas expr group) (Pi.single .calls calls)

/-- A message that has counted nothing yet. -/
def fresh (ttl : BitVec 64) : Counted → ClusterLeaderUpdateMessage
  | .apikey clientId => apikeyCallIncr clientId 0
  | .route routeId => routeCallIncr routeId 0
  | .customThrottling expr group => customThrottlingIncr expr group 0 ttl
  | .customQuotas expr group => customQuotasIncr expr group 0

/-- `increment`, after the message was taken for one of the kind that is expected. -/
def increment (counts : Counts) :
    Counted → ClusterLeaderUpdateMessage → Option ClusterLeaderUpdateMessage
  | .apikey _, apikeyCallIncr clientId calls =>
      some (apikeyCallIncr clientId (calls + counts .calls))
  | .route _, routeCallIncr routeId before => some (routeCallIncr routeId (before + counts))
  | .customThrottling _ _, customThrottlingIncr expr group calls ttl =>
      some (customThrottlingIncr expr group (calls + counts .calls) ttl)
  | .customQuotas _ _, customQuotasIncr expr group calls =>
      some (customQuotasIncr expr group (calls + counts .calls))
  | _, _ => none

end ClusterLeaderUpdateMessage

open ClusterLeaderUpdateMessage

/-- The messages that wait. -/
abbrev QuotaIncrs := AList fun _ : Str => ClusterLeaderUpdateMessage

def Counted.key : Counted → Str
  | .apikey clientId => "apikey:".toList ++ clientId
  | .route routeId => "routes:".toList ++ routeId
  | .customThrottling expr group =>
      "custom-throttling:".toList ++ group ++ ":".toList ++ expr
  | .customQuotas expr group => group ++ ":".toList ++ expr

def putQuotaIfAbsent (key : Str) (message : ClusterLeaderUpdateMessage) (quotaIncrs : QuotaIncrs) :
    QuotaIncrs :=
  if (quotaIncrs.lookup key).isSome then quotaIncrs else quotaIncrs.insert key message

/-- The messages that wait after an increment, and whether the platform did not throw. -/
def addAt (key : Str) (counted : Counted) (counts : Counts) (ttl : BitVec 64)
    (quotaIncrs : QuotaIncrs) : QuotaIncrs × Bool :=
  let quotaIncrs := putQuotaIfAbsent key (fresh ttl counted) quotaIncrs
  match quotaIncrs.lookup key with
  | none => (quotaIncrs, true)
  | some message =>
      match message.increment counts counted with
      | none => (quotaIncrs, false)
      | some message => (quotaIncrs.insert key message, true)

def add (counted : Counted) : Counts → BitVec 64 → QuotaIncrs → QuotaIncrs × Bool :=
  addAt counted.key counted

/-- Calls, and nothing else. -/
def callsOnly (increment : BitVec 64) : Counts := Pi.single .calls increment

def incrementApi (id : Str) (increment : BitVec 64) : QuotaIncrs → QuotaIncrs × Bool :=
  add (.apikey id) (callsOnly increment) 0

def incrementCustomThrottling (expr group : Str) (increment ttl : BitVec 64) :
    QuotaIncrs → QuotaIncrs × Bool :=
  add (.customThrottling expr group) (callsOnly increment) ttl

def incrementCustomQuota (expr group : Str) (increment : BitVec 64) :
    QuotaIncrs → QuotaIncrs × Bool :=
  add (.customQuotas expr group) (callsOnly increment) 0

def globalRoute : Str := "global".toList

/-- All routes together are counted as one more route. -/
def incrementService (id : Str) (counts : Counts) (quotaIncrs : QuotaIncrs) :
    QuotaIncrs × Bool :=
  match add (.route globalRoute) counts 0 quotaIncrs with
  | (quotaIncrs, true) => add (.route id) counts 0 quotaIncrs
  | (quotaIncrs, false) => (quotaIncrs, false)

/-! ## Calls -/

inductive Call where
  | api (id : Str) (increment : BitVec 64)
  | customThrottling (expr group : Str) (increment ttl : BitVec 64)
  | customQuota (expr group : Str) (increment : BitVec 64)
  | service (id : Str) (counts : Counts)

namespace Call

def run : Call → QuotaIncrs → QuotaIncrs × Bool
  | api id increment => incrementApi id increment
  | customThrottling expr group increment ttl =>
      incrementCustomThrottling expr group increment ttl
  | customQuota expr group increment => incrementCustomQuota expr group increment
  | service id counts => incrementService id counts

/-- What a call counts. -/
def counted : Call → List Counted
  | api id _ => [.apikey id]
  | customThrottling expr group _ _ => [.customThrottling expr group]
  | customQuota expr group _ => [.customQuotas expr group]
  | service id _ => [.route globalRoute, .route id]

/-- What a call should add. -/
def weight : Call → Counted → Counts
  | api id increment => Pi.single (.apikey id) (callsOnly increment)
  | customThrottling expr group increment _ =>
      Pi.single (.customThrottling expr group) (callsOnly increment)
  | customQuota expr group increment =>
      Pi.single (.customQuotas expr group) (callsOnly increment)
  | service id counts => Pi.single (.route globalRoute) counts + Pi.single (.route id) counts

/-- The call succeeds, it adds its amounts to what it counts and to nothing else, and there
are messages for what it counts. -/
def AddsOwn (call : Call) (quotaIncrs : QuotaIncrs) : Prop :=
  (call.run quotaIncrs).2 = true ∧
    total ClusterLeaderUpdateMessage.weight (call.run quotaIncrs).1 =
      total ClusterLeaderUpdateMessage.weight quotaIncrs + call.weight ∧
    ∀ counted ∈ call.counted, ∃ entry ∈ (call.run quotaIncrs).1.entries,
      entry.2.counted = some counted

end Call

/-! ## One message -/

/-- What is taken over of the counts. -/
def Counted.taken (counts : Counts) : Counted → Counts
  | .route _ => counts
  | .apikey _ | .customThrottling _ _ | .customQuotas _ _ => callsOnly (counts .calls)

variable {counted : Counted} {counts : Counts} {ttl : BitVec 64} {quotaIncrs : QuotaIncrs}
  {message after : ClusterLeaderUpdateMessage} {key : Str}

theorem counted_fresh : (fresh ttl counted).counted = some counted := by
  cases counted <;> rfl

theorem weight_fresh : (fresh ttl counted).weight = 0 := by
  cases counted <;> simp [fresh, ClusterLeaderUpdateMessage.weight]

/-- A message that counts the right thing takes the increment, and nothing else of it
changes. -/
theorem increment_of_counted (h : message.counted = some counted) :
    ∃ after, message.increment counts counted = some after ∧ after.counted = some counted ∧
      after.weight = message.weight + Pi.single counted (counted.taken counts) := by
  cases message with
  | globalStatusUpdate => cases h
  | apikeyCallIncr clientId calls =>
    cases h
    refine ⟨_, rfl, rfl, ?_⟩
    simp only [ClusterLeaderUpdateMessage.weight, Counted.taken, callsOnly, Pi.single_add]
  | routeCallIncr routeId before =>
    cases h
    refine ⟨_, rfl, rfl, ?_⟩
    simp only [ClusterLeaderUpdateMessage.weight, Counted.taken, Pi.single_add]
  | customThrottlingIncr expr group calls ttl =>
    cases h
    refine ⟨_, rfl, rfl, ?_⟩
    simp only [ClusterLeaderUpdateMessage.weight, Counted.taken, callsOnly, Pi.single_add]
  | customQuotasIncr expr group calls =>
    cases h
    refine ⟨_, rfl, rfl, ?_⟩
    simp only [ClusterLeaderUpdateMessage.weight, Counted.taken, callsOnly, Pi.single_add]

/-- An increment never changes what a message counts. -/
theorem counted_of_increment (h : message.increment counts counted = some after) :
    after.counted = message.counted := by
  cases counted <;> cases message <;> simp only [increment, Option.some.injEq, reduceCtorEq] at h
  all_goals
    rw [← h]
    rfl

/-! ## One increment -/

/-- What waits under a key, if there is anything, counts what it should. -/
def FitsAt (quotaIncrs : QuotaIncrs) (key : Str) (counted : Counted) : Prop :=
  ∀ message, quotaIncrs.lookup key = some message → message.counted = some counted

/-- What waits under the key of something, if there is anything, counts it. -/
def Fits (quotaIncrs : QuotaIncrs) (counted : Counted) : Prop :=
  FitsAt quotaIncrs counted.key counted

theorem fitsAt_of_none (h : quotaIncrs.lookup key = none) : FitsAt quotaIncrs key counted := by
  intro message hmessage
  rw [h] at hmessage
  cases hmessage

theorem lookup_putQuotaIfAbsent (other : Str) :
    (putQuotaIfAbsent key message quotaIncrs).lookup other =
      if other = key then some ((quotaIncrs.lookup key).getD message)
      else quotaIncrs.lookup other := by
  rw [putQuotaIfAbsent]
  cases hlookup : quotaIncrs.lookup key with
  | none =>
    by_cases hother : other = key
    · rw [if_pos hother, hother]
      exact AList.lookup_insert _
    · rw [if_neg hother]
      exact AList.lookup_insert_ne hother
  | some found =>
    by_cases hother : other = key
    · rw [if_pos hother, hother]
      exact hlookup
    · rw [if_neg hother]
      rfl

theorem total_putQuotaIfAbsent (h : message.weight = 0) :
    total ClusterLeaderUpdateMessage.weight (putQuotaIfAbsent key message quotaIncrs) =
      total ClusterLeaderUpdateMessage.weight quotaIncrs := by
  rw [putQuotaIfAbsent]
  split
  · rfl
  · next hnone =>
    rw [total_insert_of_none (Option.not_isSome_iff_eq_none.mp hnone), h, zero_add]

/-- An increment that fits succeeds, and it changes nothing but the message under its key. -/
theorem addAt_of_fitsAt (h : FitsAt quotaIncrs key counted) :
    (addAt key counted counts ttl quotaIncrs).2 = true ∧
    total ClusterLeaderUpdateMessage.weight (addAt key counted counts ttl quotaIncrs).1 =
      total ClusterLeaderUpdateMessage.weight quotaIncrs +
        Pi.single counted (counted.taken counts) ∧
    ∃ message, message.counted = some counted ∧
      ∀ other, (addAt key counted counts ttl quotaIncrs).1.lookup other =
        if other = key then some message else quotaIncrs.lookup other := by
  have hlookup := @lookup_putQuotaIfAbsent quotaIncrs (fresh ttl counted) key
  have hfound := hlookup key
  rw [if_pos rfl] at hfound
  have hcounted : ((quotaIncrs.lookup key).getD (fresh ttl counted)).counted = some counted := by
    cases hkey : quotaIncrs.lookup key with
    | none => exact counted_fresh
    | some message => exact h message hkey
  obtain ⟨after, hincrement, hafter, hweight⟩ := @increment_of_counted _ counts _ hcounted
  have hadd : addAt key counted counts ttl quotaIncrs =
      ((putQuotaIfAbsent key (fresh ttl counted) quotaIncrs).insert key after, true) := by
    rw [addAt]
    simp only [hfound, hincrement]
  rw [hadd]
  refine ⟨rfl, ?_, after, hafter, fun other => ?_⟩
  · have htotal := @total_insert_of_some _ _ _ _ _ ClusterLeaderUpdateMessage.weight _ _ after _
      hfound
    rw [hweight, add_assoc, total_putQuotaIfAbsent weight_fresh] at htotal
    exact (add_left_cancel htotal).trans (add_comm ..)
  · by_cases hother : other = key
    · rw [if_pos hother, hother, AList.lookup_insert]
    · rw [if_neg hother, AList.lookup_insert_ne hother, hlookup, if_neg hother]

theorem taken_callsOnly {increment : BitVec 64} :
    counted.taken (callsOnly increment) = callsOnly increment := by
  cases counted <;> simp [Counted.taken, callsOnly]

theorem key_route_injective {id other : Str}
    (h : (Counted.route id).key = (Counted.route other).key) : id = other :=
  List.append_cancel_left h

/-- The second increment for a route fits, if it did before the one for all routes. -/
theorem fits_service {id : Str} (hglobal : Fits quotaIncrs (.route globalRoute))
    (hid : Fits quotaIncrs (.route id)) :
    Fits (add (.route globalRoute) counts 0 quotaIncrs).1 (.route id) := by
  obtain ⟨-, -, own, hown, hlookup⟩ := @addAt_of_fitsAt _ counts 0 _ _ hglobal
  intro message hmessage
  rw [add, hlookup] at hmessage
  split at hmessage
  · next hkey =>
    cases hmessage
    rw [key_route_injective hkey, hown]
  · exact hid message hmessage

/-- A call that fits succeeds, and it adds what it should. -/
theorem run_of_fits {call : Call} (hfits : ∀ counted ∈ call.counted, Fits quotaIncrs counted) :
    (call.run quotaIncrs).2 = true ∧
    total ClusterLeaderUpdateMessage.weight (call.run quotaIncrs).1 =
      total ClusterLeaderUpdateMessage.weight quotaIncrs + call.weight := by
  have hsingle : ∀ counted increment ttl, Fits quotaIncrs counted →
      (add counted (callsOnly increment) ttl quotaIncrs).2 = true ∧
      total ClusterLeaderUpdateMessage.weight
          (add counted (callsOnly increment) ttl quotaIncrs).1 =
        total ClusterLeaderUpdateMessage.weight quotaIncrs +
          Pi.single counted (callsOnly increment) := by
    intro counted increment ttl hfit
    obtain ⟨hok, htotal, -⟩ := @addAt_of_fitsAt _ (callsOnly increment) ttl _ _ hfit
    rw [taken_callsOnly] at htotal
    exact ⟨hok, htotal⟩
  cases call with
  | api id increment => exact hsingle _ _ _ (hfits _ (List.mem_singleton_self _))
  | customThrottling expr group increment ttl =>
    exact hsingle _ _ _ (hfits _ (List.mem_singleton_self _))
  | customQuota expr group increment => exact hsingle _ _ _ (hfits _ (List.mem_singleton_self _))
  | service id counts =>
    have hglobal := hfits (.route globalRoute) List.mem_cons_self
    have hid := hfits (.route id) (List.mem_cons_of_mem _ (List.mem_singleton_self _))
    obtain ⟨hok, htotal, -⟩ := @addAt_of_fitsAt _ counts 0 _ _ hglobal
    have hnext := @fits_service counts _ _ hglobal hid
    rw [Call.run, incrementService]
    rw [← add] at hok htotal
    cases hfirst : add (.route globalRoute) counts 0 quotaIncrs with
    | mk middle ok =>
      rw [hfirst] at hok htotal hnext
      cases hok
      obtain ⟨hok, htotal', -⟩ := @addAt_of_fitsAt _ counts 0 _ _ hnext
      exact ⟨hok, htotal'.trans ((congrArg (· + _) htotal).trans (add_assoc ..))⟩

/-! ## What a call leaves as it is -/

/-- Messages stay under their keys and go on counting the same, and new ones are under the
keys of what they count. -/
structure Extends (counteds : List Counted) (before after : QuotaIncrs) : Prop where
  kept : ∀ key message, before.lookup key = some message →
    ∃ later, after.lookup key = some later ∧ later.counted = message.counted
  added : ∀ key later, after.lookup key = some later →
    (∃ message, before.lookup key = some message ∧ later.counted = message.counted) ∨
    ∃ counted ∈ counteds, key = counted.key ∧ later.counted = some counted

theorem extends_of_lookup {before after : QuotaIncrs}
    (hcounted : message.counted = some counted ∨
      ∃ old, before.lookup counted.key = some old ∧ message.counted = old.counted)
    (hfits : ∀ old, before.lookup counted.key = some old → message.counted = old.counted)
    (h : ∀ other, after.lookup other =
      if other = counted.key then some message else before.lookup other) :
    Extends [counted] before after where
  kept key old hold := by
    rw [h]
    split
    · next hkey => exact ⟨message, rfl, hfits old (hkey ▸ hold)⟩
    · exact ⟨old, hold, rfl⟩
  added key later hlater := by
    rw [h] at hlater
    split at hlater
    · next hkey =>
      cases hlater
      rw [hkey]
      exact hcounted.symm.imp id fun hown => ⟨counted, List.mem_singleton_self _, rfl, hown⟩
    · exact .inl ⟨later, hlater, rfl⟩

theorem extends_add : Extends [counted] quotaIncrs (add counted counts ttl quotaIncrs).1 := by
  have hlookup := @lookup_putQuotaIfAbsent quotaIncrs (fresh ttl counted) counted.key
  have hfound := hlookup counted.key
  rw [if_pos rfl] at hfound
  have hsome : ∀ old, quotaIncrs.lookup counted.key = some old →
      ((quotaIncrs.lookup counted.key).getD (fresh ttl counted)).counted = old.counted := by
    intro old hold
    rw [hold, Option.getD_some]
  have hcases : ((quotaIncrs.lookup counted.key).getD (fresh ttl counted)).counted =
        some counted ∨
      ∃ old, quotaIncrs.lookup counted.key = some old ∧
        ((quotaIncrs.lookup counted.key).getD (fresh ttl counted)).counted = old.counted := by
    cases hkey : quotaIncrs.lookup counted.key with
    | none => exact .inl counted_fresh
    | some old => exact .inr ⟨old, rfl, rfl⟩
  rw [add, addAt]
  simp only [hfound]
  cases hincrement : ((quotaIncrs.lookup counted.key).getD (fresh ttl counted)).increment
      counts counted with
  | none => exact extends_of_lookup hcases hsome hlookup
  | some after =>
    rw [← counted_of_increment hincrement] at hcases
    refine extends_of_lookup hcases (fun old hold => ?_) fun other => ?_
    · rw [counted_of_increment hincrement, hsome old hold]
    · by_cases hother : other = counted.key
      · rw [if_pos hother, hother, AList.lookup_insert]
      · rw [if_neg hother, AList.lookup_insert_ne hother, hlookup, if_neg hother]

theorem Extends.trans {first second : List Counted} {before middle after : QuotaIncrs}
    (hfirst : Extends first before middle) (hsecond : Extends second middle after) :
    Extends (first ++ second) before after where
  kept key message hmessage := by
    obtain ⟨between, hbetween, hsame⟩ := hfirst.kept key message hmessage
    obtain ⟨later, hlater, hlast⟩ := hsecond.kept key between hbetween
    exact ⟨later, hlater, hlast.trans hsame⟩
  added key later hlater := by
    rcases hsecond.added key later hlater with ⟨between, hbetween, hlast⟩ | ⟨counted, hmem, hkey⟩
    · rcases hfirst.added key between hbetween with ⟨message, hmessage, hsame⟩ |
        ⟨counted, hmem, hkey, hown⟩
      · exact .inl ⟨message, hmessage, hlast.trans hsame⟩
      · exact .inr ⟨counted, List.mem_append_left _ hmem, hkey, hlast.trans hown⟩
    · exact .inr ⟨counted, List.mem_append_right _ hmem, hkey⟩

theorem Extends.mono {first second : List Counted} {before after : QuotaIncrs}
    (h : Extends first before after) (hsub : first ⊆ second) : Extends second before after where
  kept := h.kept
  added key later hlater := (h.added key later hlater).imp_right
    fun ⟨counted, hmem, hrest⟩ => ⟨counted, hsub hmem, hrest⟩

theorem extends_run (call : Call) : Extends call.counted quotaIncrs (call.run quotaIncrs).1 := by
  cases call with
  | api id increment => exact extends_add
  | customThrottling expr group increment ttl => exact extends_add
  | customQuota expr group increment => exact extends_add
  | service id counts =>
    have hglobal := @extends_add (.route globalRoute) counts 0 quotaIncrs
    rw [Call.run, incrementService]
    split
    · next middle hfirst =>
      rw [hfirst] at hglobal
      exact Extends.trans hglobal extends_add
    · next middle hfirst =>
      rw [hfirst] at hglobal
      exact hglobal.mono (List.cons_subset_cons _ (List.nil_subset _))

/-! ## All calls -/

/-- All messages are under the keys of what they count, and this is everything that was counted
so far. -/
structure Holds (counteds : Set Counted) (quotaIncrs : QuotaIncrs) : Prop where
  placed : ∀ key message, quotaIncrs.lookup key = some message →
    ∃ counted ∈ counteds, key = counted.key ∧ message.counted = some counted
  found : ∀ counted ∈ counteds, ∃ message, quotaIncrs.lookup counted.key = some message ∧
    message.counted = some counted

variable {counteds : Set Counted}

theorem fits_iff (h : Holds counteds quotaIncrs) :
    Fits quotaIncrs counted ↔ ∀ other ∈ counteds, other.key = counted.key → other = counted := by
  constructor
  · intro hfits other hmem hkey
    obtain ⟨message, hmessage, hcounted⟩ := h.found other hmem
    exact Option.some.inj (hcounted.symm.trans (hfits message (hkey ▸ hmessage)))
  · intro hkeys message hmessage
    obtain ⟨other, hmem, hkey, hcounted⟩ := h.placed _ _ hmessage
    rw [hcounted, hkeys other hmem hkey.symm]

theorem holds_add (h : Holds counteds quotaIncrs) (hfits : Fits quotaIncrs counted) :
    Holds (insert counted counteds) (add counted counts ttl quotaIncrs).1 := by
  obtain ⟨-, -, own, hown, hlookup⟩ := @addAt_of_fitsAt _ counts ttl _ _ hfits
  rw [← add] at hlookup
  constructor
  · intro key message hmessage
    rw [hlookup] at hmessage
    split at hmessage
    · next hkey =>
      cases hmessage
      exact ⟨counted, Set.mem_insert _ _, hkey, hown⟩
    · obtain ⟨other, hmem, hrest⟩ := h.placed key message hmessage
      exact ⟨other, Set.mem_insert_of_mem _ hmem, hrest⟩
  · rintro other (rfl | hmem)
    · exact ⟨own, by rw [hlookup, if_pos rfl], hown⟩
    · obtain ⟨message, hmessage, hcounted⟩ := h.found other hmem
      by_cases hkey : other.key = counted.key
      · rw [(fits_iff h).mp hfits other hmem hkey]
        exact ⟨own, by rw [hlookup, if_pos rfl], hown⟩
      · exact ⟨message, by rw [hlookup, if_neg hkey, hmessage], hcounted⟩

theorem holds_run {call : Call} (h : Holds counteds quotaIncrs)
    (hfits : ∀ counted ∈ call.counted, Fits quotaIncrs counted) :
    Holds (counteds ∪ {counted | counted ∈ call.counted}) (call.run quotaIncrs).1 := by
  have hsingle : ∀ counted counts ttl, Fits quotaIncrs counted →
      Holds (counteds ∪ {other | other ∈ [counted]}) (add counted counts ttl quotaIncrs).1 := by
    intro counted counts ttl hfit
    have hset : counteds ∪ {other | other ∈ [counted]} = insert counted counteds := by
      ext other
      simp [or_comm]
    rw [hset]
    exact holds_add h hfit
  cases call with
  | api id increment => exact hsingle _ _ _ (hfits _ (List.mem_singleton_self _))
  | customThrottling expr group increment ttl =>
    exact hsingle _ _ _ (hfits _ (List.mem_singleton_self _))
  | customQuota expr group increment => exact hsingle _ _ _ (hfits _ (List.mem_singleton_self _))
  | service id counts =>
    have hglobal := hfits (.route globalRoute) List.mem_cons_self
    have hid := hfits (.route id) (List.mem_cons_of_mem _ (List.mem_singleton_self _))
    have hset : counteds ∪ {counted | counted ∈ (Call.service id counts).counted} =
        insert (.route id) (insert (.route globalRoute) counteds) := by
      ext other
      simp only [Call.counted, Set.mem_union, Set.mem_ofPred_eq, List.mem_cons, List.not_mem_nil,
        or_false, Set.mem_insert_iff]
      tauto
    have hok := (@addAt_of_fitsAt _ counts 0 _ _ hglobal).1
    have hholds := @holds_add _ counts 0 _ _ h hglobal
    have hnext := @fits_service counts _ _ hglobal hid
    rw [Call.run, incrementService, hset]
    rw [← add] at hok
    cases hfirst : add (.route globalRoute) counts 0 quotaIncrs with
    | mk middle ok =>
      rw [hfirst] at hok hholds hnext
      cases hok
      exact holds_add hholds hnext

/-- A call adds to its own messages exactly when what waits under its keys fits. -/
theorem addsOwn_iff {call : Call} (h : Holds counteds quotaIncrs) :
    call.AddsOwn quotaIncrs ↔ ∀ counted ∈ call.counted, Fits quotaIncrs counted := by
  constructor
  · rintro ⟨-, -, hown⟩ counted hmem message hmessage
    have hextends : Extends call.counted quotaIncrs (call.run quotaIncrs).1 := extends_run call
    obtain ⟨entry, hentry, hcounted⟩ := hown counted hmem
    have hlater := AList.mem_lookup_iff.mpr hentry
    rcases hextends.added entry.1 entry.2 hlater with ⟨old, hold, hsame⟩ |
      ⟨other, hother, hkey, hsame⟩
    · obtain ⟨other, -, hkey, hown⟩ := h.placed entry.1 old hold
      rw [← hsame, hcounted, Option.some.injEq] at hown
      rw [hkey, ← hown, hmessage, Option.some.injEq] at hold
      rw [hold, ← hsame, hcounted]
    · rw [hcounted, Option.some.injEq] at hsame
      obtain ⟨later, hfound, hkept⟩ := hextends.kept counted.key message hmessage
      rw [hkey, ← hsame, hfound] at hlater
      rw [← hkept, Option.some.inj hlater, hcounted]
  · intro hfits
    obtain ⟨hok, htotal⟩ := run_of_fits hfits
    refine ⟨hok, htotal, fun counted hmem => ?_⟩
    obtain ⟨message, hmessage, hcounted⟩ := (holds_run h hfits).found counted (.inr hmem)
    exact ⟨⟨counted.key, message⟩, AList.mem_lookup_iff.mp hmessage, hcounted⟩

/-- What one call counts has different keys. -/
theorem injOn_counted (call : Call) : Set.InjOn Counted.key {counted | counted ∈ call.counted} := by
  cases call with
  | service id counts =>
    have hroute : ∀ counted ∈ (Call.service id counts).counted,
        ∃ other, counted = .route other := by
      simp [Call.counted]
    intro first hfirst second hsecond hkey
    obtain ⟨id, rfl⟩ := hroute first hfirst
    obtain ⟨other, rfl⟩ := hroute second hsecond
    rw [key_route_injective hkey]
  | _ =>
    intro first hfirst second hsecond hkey
    rw [List.mem_singleton.mp hfirst, List.mem_singleton.mp hsecond]

theorem injOn_of_fits {call : Call} (h : Holds counteds quotaIncrs)
    (hinj : Set.InjOn Counted.key counteds)
    (hfits : ∀ counted ∈ call.counted, Fits quotaIncrs counted) :
    Set.InjOn Counted.key (counteds ∪ {counted | counted ∈ call.counted}) := by
  rintro first (hfirst | hfirst) second (hsecond | hsecond) hkey
  · exact hinj hfirst hsecond hkey
  · exact (fits_iff h).mp (hfits second hsecond) first hfirst hkey
  · exact ((fits_iff h).mp (hfits first hfirst) second hsecond hkey.symm).symm
  · exact injOn_counted call hfirst hsecond hkey

/-- What a sequence of calls counts. -/
def countedBy (calls : List Call) : Set Counted :=
  {counted | ∃ call ∈ calls, counted ∈ call.counted}

theorem along_fits_iff {calls : List Call} (h : Holds counteds quotaIncrs)
    (hinj : Set.InjOn Counted.key counteds) :
    Along (fun call quotaIncrs => (Call.run call quotaIncrs).1)
        (fun quotaIncrs call _ => call.AddsOwn quotaIncrs) quotaIncrs calls ↔
      Set.InjOn Counted.key (counteds ∪ countedBy calls) := by
  induction calls generalizing quotaIncrs counteds with
  | nil =>
    rw [show counteds ∪ countedBy [] = counteds by ext; simp [countedBy]]
    exact iff_of_true trivial hinj
  | cons call calls ih =>
    have hunion : counteds ∪ countedBy (call :: calls) =
        (counteds ∪ {counted | counted ∈ call.counted}) ∪ countedBy calls := by
      ext counted
      simp [countedBy, or_assoc]
    rw [Along, addsOwn_iff h, hunion]
    constructor
    · rintro ⟨hfits, hrest⟩
      exact (ih (holds_run h hfits) (injOn_of_fits h hinj hfits)).mp hrest
    · intro hall
      have hfits : ∀ counted ∈ call.counted, Fits quotaIncrs counted := fun counted hmem =>
        (fits_iff h).mpr fun other hother hkey =>
          hall (.inl (.inl hother)) (.inl (.inr hmem)) hkey
      exact ⟨hfits, (ih (holds_run h hfits) (hall.mono Set.subset_union_left)).mpr hall⟩

theorem holds_empty : Holds ∅ (∅ : QuotaIncrs) where
  placed key message hmessage := by
    rw [AList.lookup_empty] at hmessage
    cases hmessage
  found counted hmem := hmem.elim

/-- Every call of a sequence adds to its own messages, if and only if no two things that are
counted have the same key. -/
theorem adds_own_iff (calls : List Call) :
    Along (fun call quotaIncrs => (Call.run call quotaIncrs).1)
        (fun quotaIncrs call _ => call.AddsOwn quotaIncrs) ∅ calls ↔
      Set.InjOn Counted.key (countedBy calls) := by
  rw [along_fits_iff holds_empty (Set.injOn_empty _), Set.empty_union]

/-- The platform throws for a custom quota of the group `apikey` whose expression is the id of
an apikey. Two quotas are counted as one if a colon moves from the group to the expression. -/
theorem exists_not_addsOwn :
    ((Call.customQuota "id".toList "apikey".toList 1).run
      ((Call.api "id".toList 1).run ∅).1).2 = false ∧
    ((Call.customQuota "b:c".toList "a".toList 1).run
      ((Call.customQuota "c".toList "a:b".toList 1).run ∅).1).1.lookup "a:b:c".toList =
        some (.customQuotasIncr "c".toList "a:b".toList 2) :=
  ⟨rfl, rfl⟩

end Cluster

end Otoroshi
