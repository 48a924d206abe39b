/-
# Whether the leader enforces what a worker counts

A worker counts a call in its own store, where its check of the quota reads it at once, and
records it for the leader. The leader is to add it to the counters that the check reads after
the worker has taken over the state of the leader.

All checks record their calls in one kind of message, with an identifier that may be that of
an apikey, of a route or of a bucket. The leader takes it for that of an apikey and adds the
calls to the counters of the apikey. `enforced_iff` says for which checks that is what it
should do.
-/

import Otoroshi.Cluster.QuotaWire
import Otoroshi.Storage.Swap
import Otoroshi.Throttling.LuaScript

namespace Otoroshi

open Stateful

/-! ## Counters of the leader -/

namespace CounterStore

variable {σ : Type} (P : StorePlatform) (store : CounterStore σ)

/-- `pttl(key).filter(_ > -1).recoverWith { case _ => expire(key, seconds) }` -/
def keepAlive (times : BumpTimes) (key : Str) (seconds : Int) : Stateful σ StoreException Unit :=
  fun state =>
    let asked := store.pttl times.pttl key state
    let expired := store.expire times.expire key seconds asked.2
    match asked.1 with
    | .ok ttl =>
        if -1 < ttl then (.ok (), asked.2) else (expired.1.map fun _ => (), expired.2)
    | .error _ => (expired.1.map fun _ => (), expired.2)

/-- An increment, then a life time if the counter has none. -/
def bumpAlive (times : BumpTimes) (key : Str) (increment seconds : Int) :
    Stateful σ StoreException Int := do
  let calls ← store.incrby times.incrby key increment
  let _ ← store.keepAlive times key seconds
  pure calls

/-- What counts a call on one counter. -/
abbrev Bump (σ : Type) := BumpTimes → Str → Int → Int → Stateful σ StoreException Int

/-- It adds to its counter and moves no other. -/
def Adds (bump : Bump σ) : Prop :=
  ∀ times key increment seconds state n, store.Stands P state key n →
    isLong (n + increment) = true →
      ∃ after, bump times key increment seconds state = (.ok (n + increment), after) ∧
        store.Stands P after key (n + increment) ∧
        ∀ other m, other ≠ key → store.Stands P state other m → store.Stands P after other m

/-- It moves no other counter, whatever it answers or throws. -/
def Spares (bump : Bump σ) : Prop :=
  ∀ times key increment seconds other m, other ≠ key →
    Keeps (fun state => store.Stands P state other m) (bump times key increment seconds)

variable {P store}

theorem Lawful.keepAlive (h : store.Lawful P) (times : BumpTimes) (key : Str) (seconds : Int)
    (state : σ) :
    ∃ after, store.keepAlive times key seconds state = (.ok (), after) ∧
      store.Rests P state after := by
  obtain ⟨ttl, asked, hpttl, hasked⟩ := h.pttl times.pttl key state
  obtain ⟨answer, expired, hexpire, hexpired⟩ := h.expire times.expire key seconds asked
  by_cases halive : -1 < ttl
  · refine ⟨asked, ?_, hasked⟩
    simp only [CounterStore.keepAlive, hpttl, if_pos halive]
  · refine ⟨expired, ?_, fun other n hstands => hexpired _ _ (hasked _ _ hstands)⟩
    simp only [CounterStore.keepAlive, hpttl, hexpire, if_neg halive]
    rfl

theorem Lawful.adds_bump (h : store.Lawful P) : store.Adds P store.bump :=
  fun times _ _ seconds _ _ hstands hlong => h.bump times seconds hstands hlong

theorem Lawful.adds_bumpAlive (h : store.Lawful P) : store.Adds P store.bumpAlive := by
  intro times key increment seconds state n hstands hlong
  obtain ⟨counted, hincrby, hcounted, hothers⟩ :=
    h.incrby times.incrby key increment state n hstands hlong
  obtain ⟨after, halive, hrests⟩ := h.keepAlive times key seconds counted
  refine ⟨after, ?_, hrests _ _ hcounted, fun other m hne hother => ?_⟩
  · rw [bumpAlive, bind_of_ok hincrby, bind_of_ok halive]
    rfl
  · exact hrests _ _ (hothers other m hne hother)

theorem Lawful.spares_bumpAlive (h : store.Lawful P) (hisolated : store.Isolated P) :
    store.Spares P store.bumpAlive := by
  intro times key increment seconds other m hne
  apply keeps_bind (hisolated times.incrby key increment other m hne)
  intro calls _ _ _
  have halive : Keeps (fun state => store.Stands P state other m)
      (store.keepAlive times key seconds) := by
    intro state hstands
    obtain ⟨after, hrun, hrests⟩ := h.keepAlive times key seconds state
    rw [hrun]
    exact hrests _ _ hstands
  exact keeps_bind halive fun _ _ _ _ => keeps_pure calls

end CounterStore

namespace KvApiKeyDataStore

variable {σ Throttling Plugins : Type} (dataStore : KvApiKeyDataStore σ)

/-- Count a call on the counters under some keys, and answer the window, the day and the
month. -/
def countCall (bump : CounterStore.Bump σ) (keys : CallCounter → Str) (call : CountedCall)
    (increment : Int) : Stateful σ StoreException (Int × Int × Int) := do
  let dayEnd := dataStore.calendar.dayEnd call.readForDayEnd
  let toDayEnd := secondsUntil dayEnd call.readToDayEnd
  let monthEnd := dataStore.calendar.monthEnd call.readForMonthEnd
  let toMonthEnd := secondsUntil monthEnd call.readToMonthEnd
  let secCalls ← bump (call.commands .window) (keys .window) increment dataStore.throttlingWindow
  let dailyCalls ← bump (call.commands .day) (keys .day) increment toDayEnd
  let monthlyCalls ← bump (call.commands .month) (keys .month) increment toMonthEnd
  let _ ← dataStore.redisCli.incrby (call.commands .total).incrby (keys .total) increment
  pure (secCalls, dailyCalls, monthlyCalls)

/-- Nothing is cut off at zero here, and what remains of the window is an `Int`. -/
def remainingOf (apiKey : Entities.ApiKey Throttling Plugins)
    (secCalls dailyCalls monthlyCalls : Int) : RemainingQuotas where
  authorizedCallsPerWindow := apiKey.throttlingQuota.1
  throttlingCallsPerWindow := secCalls
  remainingCallsPerWindow := longToInt (wrapLong (apiKey.throttlingQuota.1 - secCalls))
  authorizedCallsPerDay := apiKey.dailyQuota.1
  currentCallsPerDay := dailyCalls
  remainingCallsPerDay := wrapLong (apiKey.dailyQuota.1 - dailyCalls)
  authorizedCallsPerMonth := apiKey.monthlyQuota.1
  currentCallsPerMonth := monthlyCalls
  remainingCallsPerMonth := wrapLong (apiKey.monthlyQuota.1 - monthlyCalls)

def updateQuotas (call : CountedCall) (apiKey : Entities.ApiKey Throttling Plugins)
    (increment : Int) : Stateful σ StoreException RemainingQuotas := do
  let calls ← dataStore.countCall dataStore.redisCli.bumpAlive
    (dataStore.counterKey apiKey.clientId) call increment
  pure (remainingOf apiKey calls.1 calls.2.1 calls.2.2)

variable {dataStore} {bump : CounterStore.Bump σ} {keys : CallCounter → Str} {state : σ}
  {counts : CallCounter → Int} {increment : Int}

theorem countCall_apply (hstore : dataStore.Lawful)
    (hbump : dataStore.redisCli.Adds dataStore.platform bump) (hkeys : Function.Injective keys)
    (call : CountedCall)
    (hstand : dataStore.redisCli.StandAt dataStore.platform keys counts state)
    (hlong : ∀ i, isLong (counts i + increment) = true) :
    ∃ after, dataStore.countCall bump keys call increment state =
        (.ok (counts .window + increment, counts .day + increment, counts .month + increment),
          after) ∧
      dataStore.redisCli.StandAt dataStore.platform keys (fun i => counts i + increment)
        after := by
  obtain ⟨windowed, hwindow, hself, hothers⟩ := hbump (call.commands .window) (keys .window)
    increment dataStore.throttlingWindow state _ (hstand .window) (hlong .window)
  have hwindowed := hstand.update hkeys hself hothers
  obtain ⟨daily, hday, hself, hothers⟩ := hbump (call.commands .day) (keys .day) increment
    (secondsUntil (dataStore.calendar.dayEnd call.readForDayEnd) call.readToDayEnd) windowed _
    (hwindowed .day) (hlong .day)
  have hdaily := hwindowed.update hkeys hself hothers
  obtain ⟨monthly, hmonth, hself, hothers⟩ := hbump (call.commands .month) (keys .month) increment
    (secondsUntil (dataStore.calendar.monthEnd call.readForMonthEnd) call.readToMonthEnd) daily _
    (hdaily .month) (hlong .month)
  have hmonthly := hdaily.update hkeys hself hothers
  obtain ⟨after, htotal, hafter⟩ := hstore.incrbyAt hkeys hmonthly (call.commands .total).incrby
    .total (hlong .total)
  refine ⟨after, ?_, ?_⟩
  · apply (bind_of_ok hwindow).trans
    apply (bind_of_ok hday).trans
    apply (bind_of_ok hmonth).trans
    exact bind_of_ok htotal
  · intro i
    cases i <;> exact hafter _

theorem keeps_countCall (hbump : dataStore.redisCli.Spares dataStore.platform bump)
    (hisolated : dataStore.redisCli.Isolated dataStore.platform) {other : Str} {m : Int}
    (hother : ∀ i, other ≠ keys i) (call : CountedCall) :
    Keeps (fun state => dataStore.redisCli.Stands dataStore.platform state other m)
      (dataStore.countCall bump keys call increment) := by
  apply keeps_bind (hbump _ _ _ _ other m (hother .window))
  intro _ _ _ _
  apply keeps_bind (hbump _ _ _ _ other m (hother .day))
  intro _ _ _ _
  apply keeps_bind (hbump _ _ _ _ other m (hother .month))
  intro _ _ _ _
  apply keeps_bind (hisolated _ _ _ other m (hother .total))
  intro _ _ _ _
  exact keeps_pure _

end KvApiKeyDataStore

/-! ## Checks of the workers -/

structure NgServiceQuotasConfig where
  throttlingQuota : Long := RemainingQuotas.maxValue
  dailyQuota : Long := RemainingQuotas.maxValue
  monthlyQuota : Long := RemainingQuotas.maxValue

namespace NgServiceQuotas

/-- The keys of the public quotas of a route, and of a service. -/
def kinds : CallCounter → Str
  | .window => ":plugins:services-public-quotas:second:".toList
  | .day => ":plugins:services-public-quotas:daily:".toList
  | .month => ":plugins:services-public-quotas:monthly:".toList
  | .total => ":plugins:services-public-quotas:global:".toList

theorem kinds_injective : Function.Injective kinds := by
  intro first second h
  cases first <;> cases second <;> first | rfl | exact absurd h (by decide)

variable {σ : Type}

/-- A worker also records the increment under the id of the route. -/
def updateQuotas (env : KvApiKeyDataStore σ) (call : CountedCall) (routeId : Str)
    (qconf : NgServiceQuotasConfig) (increment : Int) : Stateful σ StoreException Bool := do
  let calls ← env.countCall env.redisCli.bump (kindKey env.storageRoot kinds routeId) call
    increment
  pure (calls.1 ≤ qconf.throttlingQuota.1 && calls.2.1 ≤ qconf.dailyQuota.1 &&
    calls.2.2 ≤ qconf.monthlyQuota.1)

end NgServiceQuotas

namespace Cluster

/-- The checks that record what they count with `incrementApi`. Each has counters of its own. -/
inductive QuotaCheck
  /-- the data store of the keys, and the strategy that uses its counters -/
  | apikey
  /-- the strategies for a Redis of their own, where they have none -/
  | distributedRedis
  | luaDistributedRedis
  /-- the public quotas of a route or a service -/
  | services
  deriving DecidableEq

def QuotaCheck.counterKey (storageRoot : Str) : QuotaCheck → Str → CallCounter → Str
  | apikey => kindKey storageRoot LegacyThrottlingStrategy.kinds
  | distributedRedis => kindKey storageRoot ThrottlingStrategy.kinds
  | luaDistributedRedis => LuaDistributedRedisThrottlingStrategy.counterKey storageRoot
  | services => kindKey storageRoot NgServiceQuotas.kinds

/-- The messages that wait after some increments under one identifier. -/
def recorded (id : Str) (increments : List (BitVec 64)) (quotaIncrs : QuotaIncrs) : QuotaIncrs :=
  increments.foldl (fun quotaIncrs increment => (incrementApi id increment quotaIncrs).1) quotaIncrs

/-! ## The leader -/

inductive LeaderException
  | js (e : JsException)
  | store (e : StoreException)

/-- The leader, as far as it takes increments. -/
structure Leader (σ Throttling Plugins : Type) where
  dataStore : KvApiKeyDataStore σ
  /-- the api keys in its store -/
  findById : Str → σ → Option (Entities.ApiKey Throttling Plugins)
  /-- what it does with the messages of the other kinds -/
  updateOther : ClusterLeaderUpdateMessage → Stateful σ StoreException Unit

namespace Leader

variable {σ Throttling Plugins : Type} (leader : Leader σ Throttling Plugins)

/-- `ApikeyCallIncr.updateLeader`: the calls of a key that is not known are dropped. -/
def updateApikey (call : CountedCall) (clientId : Str) (calls : BitVec 64) :
    Stateful σ StoreException Unit := fun state =>
  match leader.findById clientId state with
  | some apikey =>
      (do
        let _ ← leader.dataStore.updateQuotas call apikey calls.toInt
        pure ()) state
  | none => (.ok (), state)

def updateLeader (call : CountedCall) :
    ClusterLeaderUpdateMessage → Stateful σ StoreException Unit
  | .apikeyCallIncr clientId calls => leader.updateApikey call clientId calls
  | message => leader.updateOther message

/-- What the leader does with an item of a push. -/
def receive (call : CountedCall) (item : JsValue) : Stateful σ LeaderException Unit :=
  match ClusterLeaderUpdateMessage.read item with
  | .error e => throw (.js e)
  | .ok none => pure ()
  | .ok (some message) => mapError .store (leader.updateLeader call message)

/-- The leader after it got what waits under an identifier. -/
def afterPush (call : CountedCall) (id : Str) (quotaIncrs : QuotaIncrs) (state : σ) : σ :=
  match quotaIncrs.lookup (Counted.apikey id).key with
  | none => state
  | some message => (leader.receive call message.json state).2

/-- The leader adds the calls to the counters that the check reads, and these are among the
keys that it exports and that a worker takes over from it. -/
def Enforced (check : QuotaCheck) (id : Str) (increments : List (BitVec 64)) (call : CountedCall)
    (counts : CallCounter → Int) (quotaIncrs : QuotaIncrs) (state : σ) : Prop :=
  ∀ counter, counter ≠ .total →
    leader.dataStore.redisCli.Stands leader.dataStore.platform
        (leader.afterPush call id (recorded id increments quotaIncrs) state)
        (check.counterKey leader.dataStore.storageRoot id counter)
        (counts counter + increments.sum.toInt) ∧
      filteredKey ⟨true, leader.dataStore.storageRoot⟩
        (check.counterKey leader.dataStore.storageRoot id counter) = false

end Leader

/-! ## Keys -/

/-- The keys of a check start with it, after the storage root. -/
def QuotaCheck.beginning : QuotaCheck → CallCounter → Str
  | apikey => LegacyThrottlingStrategy.kinds
  | distributedRedis => ThrottlingStrategy.kinds
  | luaDistributedRedis => fun _ => ":ratelimiter:lua:\x7b".toList
  | services => NgServiceQuotas.kinds

theorem exists_counterKey (check : QuotaCheck) (storageRoot name : Str) (counter : CallCounter) :
    ∃ rest, check.counterKey storageRoot name counter =
      storageRoot ++ (check.beginning counter ++ rest) := by
  cases check with
  | apikey => exact ⟨name, List.append_assoc _ _ _⟩
  | distributedRedis => exact ⟨name, List.append_assoc _ _ _⟩
  | services => exact ⟨name, List.append_assoc _ _ _⟩
  | luaDistributedRedis =>
      refine ⟨name ++ LuaDistributedRedisThrottlingStrategy.suffixes counter, ?_⟩
      show storageRoot ++ _ ++ name ++ _ = storageRoot ++ (_ ++ (name ++ _))
      rw [List.append_assoc, List.append_assoc]
      rfl

theorem length_beginning (check : QuotaCheck) (counter : CallCounter) :
    16 ≤ (check.beginning counter).length := by
  cases check <;> cases counter <;> decide

/-- Three characters tell the counters of the checks from all keys that are not synced, and
those of the api keys from the others. -/
theorem take_beginning (check : QuotaCheck) (counter : CallCounter) :
    (check.beginning counter).take 3 =
      if check = .apikey then [':', 'a', 'p']
      else if check = .services then [':', 'p', 'l'] else [':', 'r', 'a'] := by
  cases check <;> cases counter <;> decide

theorem eq_apikey_of_take {check : QuotaCheck} {i j : CallCounter}
    (h : (check.beginning i).take 3 = (QuotaCheck.apikey.beginning j).take 3) :
    check = .apikey := by
  rw [take_beginning, take_beginning, if_pos rfl] at h
  cases check with
  | apikey => rfl
  | distributedRedis => cases h
  | luaDistributedRedis => cases h
  | services => cases h

theorem eq_of_take_kinds {i j : CallCounter}
    (h : (LegacyThrottlingStrategy.kinds i).take 16 =
      (LegacyThrottlingStrategy.kinds j).take 16) : i = j := by
  cases i <;> cases j <;> first | rfl | exact absurd h (by decide)

/-- Only the counters of an api key are counters of that key. -/
theorem eq_of_counterKey_eq {check : QuotaCheck} {storageRoot name id : Str} {i j : CallCounter}
    (h : check.counterKey storageRoot name i = QuotaCheck.apikey.counterKey storageRoot id j) :
    check = .apikey ∧ name = id := by
  obtain ⟨rest, hrest⟩ := exists_counterKey check storageRoot name i
  obtain ⟨idRest, hid⟩ := exists_counterKey .apikey storageRoot id j
  have htake : (check.beginning i).take 16 = (QuotaCheck.apikey.beginning j).take 16 := by
    rw [hrest, hid] at h
    have htake := congrArg (List.take 16) (List.append_cancel_left h)
    rwa [List.take_append_of_le_length (length_beginning check i),
      List.take_append_of_le_length (length_beginning .apikey j)] at htake
  have hthree := congrArg (List.take 3) htake
  rw [List.take_take, List.take_take] at hthree
  have hcheck := eq_apikey_of_take hthree
  subst hcheck
  have hcounter := eq_of_take_kinds htake
  subst hcounter
  exact ⟨rfl, List.append_cancel_left h⟩

/-- What a filtered key starts with, after the storage root. -/
theorem exists_of_filteredKey {config : ClusterConfig} {key : Str}
    (h : filteredKey config key = true) :
    ∃ beginning ∈ ":events:audit".toList :: ":events:alerts".toList :: filteredPrefixes,
      config.storageRoot ++ beginning <+: key := by
  rw [filteredKey, Bool.or_eq_true, Bool.or_eq_true, beq_iff_eq, beq_iff_eq,
    List.any_eq_true] at h
  rcases h with (haudit | halerts) | ⟨beginning, hmem, hstarts⟩
  · exact ⟨_, List.mem_cons_self, haudit ▸ List.prefix_refl _⟩
  · exact ⟨_, List.mem_cons_of_mem _ List.mem_cons_self, halerts ▸ List.prefix_refl _⟩
  · exact ⟨beginning, List.mem_cons_of_mem _ (List.mem_cons_of_mem _ hmem),
      List.isPrefixOf_iff_prefix.mp hstarts⟩

theorem take_filtered :
    ∀ beginning ∈ ":events:audit".toList :: ":events:alerts".toList :: filteredPrefixes,
      3 ≤ beginning.length ∧ beginning.take 3 ≠ [':', 'a', 'p'] ∧
        beginning.take 3 ≠ [':', 'p', 'l'] ∧ beginning.take 3 ≠ [':', 'r', 'a'] := by
  decide

/-- The counters of the checks are exported and taken over. -/
theorem filteredKey_counterKey (check : QuotaCheck) (isWorker : Bool) (storageRoot name : Str)
    (counter : CallCounter) :
    filteredKey ⟨isWorker, storageRoot⟩ (check.counterKey storageRoot name counter) = false := by
  rw [Bool.eq_false_iff]
  intro hfiltered
  obtain ⟨beginning, hmem, hbegins⟩ := exists_of_filteredKey hfiltered
  obtain ⟨rest, hrest⟩ := exists_counterKey check storageRoot name counter
  obtain ⟨hlength, hapikey, hservices, hredis⟩ := take_filtered beginning hmem
  rw [hrest, List.prefix_append_right_inj] at hbegins
  obtain ⟨more, hmore⟩ := hbegins
  have htake := congrArg (List.take 3) hmore
  rw [List.take_append_of_le_length hlength, List.take_append_of_le_length
    ((by decide : 3 ≤ 16).trans (length_beginning check counter)), take_beginning] at htake
  cases check with
  | apikey => exact hapikey htake
  | distributedRedis => exact hredis htake
  | luaDistributedRedis => exact hredis htake
  | services => exact hservices htake

/-! ## What is recorded -/

section Recorded

variable {id : Str} {increments : List (BitVec 64)} {calls : BitVec 64} {quotaIncrs : QuotaIncrs}

/-- An increment is added to the message that waits. -/
theorem lookup_incrementApi (increment : BitVec 64)
    (h : (quotaIncrs.lookup (Counted.apikey id).key).getD (.apikeyCallIncr id 0) =
      .apikeyCallIncr id calls) :
    (incrementApi id increment quotaIncrs).1.lookup (Counted.apikey id).key =
      some (.apikeyCallIncr id (calls + increment)) := by
  have hfound := @lookup_putQuotaIfAbsent quotaIncrs (.apikeyCallIncr id 0)
    (Counted.apikey id).key (Counted.apikey id).key
  rw [if_pos rfl, h] at hfound
  rw [incrementApi, add, addAt]
  simp only [ClusterLeaderUpdateMessage.fresh, hfound]
  simp only [ClusterLeaderUpdateMessage.increment, callsOnly, Pi.single_eq_same]
  exact AList.lookup_insert _

theorem lookup_recorded_of_some
    (h : quotaIncrs.lookup (Counted.apikey id).key = some (.apikeyCallIncr id calls)) :
    (recorded id increments quotaIncrs).lookup (Counted.apikey id).key =
      some (.apikeyCallIncr id (calls + increments.sum)) := by
  induction increments generalizing quotaIncrs calls with
  | nil =>
      rw [List.sum_nil, add_zero]
      exact h
  | cons increment increments ih =>
      rw [List.sum_cons, ← add_assoc]
      apply ih
      apply lookup_incrementApi
      rw [h]
      rfl

/-- What waits counts all increments, if there are any. -/
theorem lookup_recorded (hnone : quotaIncrs.lookup (Counted.apikey id).key = none)
    (hne : increments ≠ []) :
    (recorded id increments quotaIncrs).lookup (Counted.apikey id).key =
      some (.apikeyCallIncr id increments.sum) := by
  cases increments with
  | nil => exact absurd rfl hne
  | cons increment increments =>
      have hfirst : (incrementApi id increment quotaIncrs).1.lookup (Counted.apikey id).key =
          some (.apikeyCallIncr id (0 + increment)) := by
        apply lookup_incrementApi
        rw [hnone]
        rfl
      rw [zero_add] at hfirst
      exact lookup_recorded_of_some hfirst

end Recorded

/-! ## What the leader adds -/

namespace Leader

variable {σ Throttling Plugins : Type} {leader : Leader σ Throttling Plugins} {call : CountedCall}
  {id : Str} {increments : List (BitVec 64)} {quotaIncrs : QuotaIncrs} {state : σ}
  {counts : CallCounter → Int} {apikey : Entities.ApiKey Throttling Plugins}

theorem receive_json (message : ClusterLeaderUpdateMessage) :
    leader.receive call message.json = mapError .store (leader.updateLeader call message) := by
  rw [receive, ClusterLeaderUpdateMessage.read_json]

theorem snd_updateApikey (calls : BitVec 64) :
    (leader.updateApikey call id calls state).2 =
      match leader.findById id state with
      | some apikey => (leader.dataStore.updateQuotas call apikey calls.toInt state).2
      | none => state := by
  rw [updateApikey]
  cases leader.findById id state with
  | none => rfl
  | some apikey =>
      exact congrArg Prod.snd (bind_pure_apply
        (leader.dataStore.updateQuotas call apikey calls.toInt) (fun _ => ()) state)

theorem afterPush_of_nil (hnone : quotaIncrs.lookup (Counted.apikey id).key = none) :
    leader.afterPush call id (recorded id [] quotaIncrs) state = state := by
  show leader.afterPush call id quotaIncrs state = state
  rw [afterPush, hnone]

/-- The leader updates the quotas of the key that it knows under the identifier. -/
theorem afterPush_of_ne_nil (hnone : quotaIncrs.lookup (Counted.apikey id).key = none)
    (hne : increments ≠ []) :
    leader.afterPush call id (recorded id increments quotaIncrs) state =
      match leader.findById id state with
      | some apikey => (leader.dataStore.updateQuotas call apikey increments.sum.toInt state).2
      | none => state := by
  rw [afterPush, lookup_recorded hnone hne, ← snd_updateApikey]
  exact congrArg (fun run => (run state).2) (receive_json _)

/-- The counters of the key move by what was recorded. -/
theorem standAt_afterPush (hlawful : leader.dataStore.Lawful)
    (hnone : quotaIncrs.lookup (Counted.apikey id).key = none)
    (hfound : leader.findById id state = some apikey) (hid : apikey.clientId = id)
    (hstand : leader.dataStore.StandAt id counts state)
    (hroom : ∀ i, isLong (counts i + increments.sum.toInt) = true) :
    leader.dataStore.StandAt id (fun i => counts i + increments.sum.toInt)
      (leader.afterPush call id (recorded id increments quotaIncrs) state) := by
  by_cases hne : increments = []
  · have hcounts : (fun i => counts i + increments.sum.toInt) = counts := by
      funext i
      rw [hne, List.sum_nil]
      exact Int.add_zero _
    rw [hcounts, hne, afterPush_of_nil hnone]
    exact hstand
  · obtain ⟨after, hrun, hafter⟩ := KvApiKeyDataStore.countCall_apply hlawful
      (CounterStore.Lawful.adds_bumpAlive hlawful) (leader.dataStore.counterKey_injective id) call
      hstand hroom
    have hupdate : (leader.dataStore.updateQuotas call apikey increments.sum.toInt state).2 =
        after := by
      rw [KvApiKeyDataStore.updateQuotas, hid, bind_of_ok hrun]
      rfl
    rw [afterPush_of_ne_nil hnone hne, hfound]
    show leader.dataStore.StandAt id _ (leader.dataStore.updateQuotas call apikey _ state).2
    rw [hupdate]
    exact hafter

/-- A counter that is none of the key stays where it is. -/
theorem stands_afterPush (hlawful : leader.dataStore.Lawful)
    (hisolated : leader.dataStore.redisCli.Isolated leader.dataStore.platform)
    (hnone : quotaIncrs.lookup (Counted.apikey id).key = none) {key : Str} {n : Int}
    (hkey : ∀ apikey, leader.findById id state = some apikey →
      ∀ i, key ≠ leader.dataStore.counterKey apikey.clientId i)
    (hstands : leader.dataStore.redisCli.Stands leader.dataStore.platform state key n) :
    leader.dataStore.redisCli.Stands leader.dataStore.platform
      (leader.afterPush call id (recorded id increments quotaIncrs) state) key n := by
  by_cases hne : increments = []
  · rw [hne, afterPush_of_nil hnone]
    exact hstands
  · rw [afterPush_of_ne_nil hnone hne]
    cases hfound : leader.findById id state with
    | none => exact hstands
    | some apikey =>
        have hcount : Keeps
            (fun state => leader.dataStore.redisCli.Stands leader.dataStore.platform state key n)
            (leader.dataStore.countCall leader.dataStore.redisCli.bumpAlive
              (leader.dataStore.counterKey apikey.clientId) call increments.sum.toInt) :=
          KvApiKeyDataStore.keeps_countCall
            (CounterStore.Lawful.spares_bumpAlive hlawful hisolated) hisolated
            (hkey apikey hfound) call
        exact keeps_bind hcount (fun _ _ _ _ => keeps_pure _) state hstands

theorem counterKey_apikey (name : Str) :
    QuotaCheck.apikey.counterKey leader.dataStore.storageRoot name =
      leader.dataStore.counterKey name := by
  funext counter
  cases counter <;> rfl

/-- What workers record is enforced if and only if they record nothing or count on the counters
of an api key that the leader knows. -/
theorem enforced_iff (leader : Leader σ Throttling Plugins) (hlawful : leader.dataStore.Lawful)
    (hisolated : leader.dataStore.redisCli.Isolated leader.dataStore.platform)
    (check : QuotaCheck) (id : Str) (increments : List (BitVec 64)) (quotaIncrs : QuotaIncrs)
    (hnone : quotaIncrs.lookup (Counted.apikey id).key = none) (call : CountedCall)
    (counts : CallCounter → Int) (state : σ)
    (hstand : leader.dataStore.redisCli.StandAt leader.dataStore.platform
      (check.counterKey leader.dataStore.storageRoot id) counts state)
    (hroom : ∀ i, isLong (counts i + increments.sum.toInt) = true) :
    leader.Enforced check id increments call counts quotaIncrs state ↔
      increments.sum = 0 ∨ check = .apikey ∧
        ∃ apikey, leader.findById id state = some apikey ∧ apikey.clientId = id := by
  by_cases hknown : check = .apikey ∧
      ∃ apikey, leader.findById id state = some apikey ∧ apikey.clientId = id
  · obtain ⟨rfl, apikey, hfound, hid⟩ := hknown
    refine ⟨fun _ => Or.inr ⟨rfl, apikey, hfound, hid⟩, fun _ counter _ => ?_⟩
    rw [counterKey_apikey] at hstand ⊢
    refine ⟨standAt_afterPush hlawful hnone hfound hid hstand hroom counter, ?_⟩
    rw [← counterKey_apikey]
    exact filteredKey_counterKey _ _ _ _ _
  · have hstands : ∀ counter, leader.dataStore.redisCli.Stands leader.dataStore.platform
        (leader.afterPush call id (recorded id increments quotaIncrs) state)
        (check.counterKey leader.dataStore.storageRoot id counter) (counts counter) := by
      intro counter
      apply stands_afterPush hlawful hisolated hnone _ (hstand counter)
      intro apikey hfound i hkey
      rw [← counterKey_apikey] at hkey
      obtain ⟨hcheck, hid⟩ := eq_of_counterKey_eq hkey
      exact hknown ⟨hcheck, apikey, hfound, hid.symm⟩
    constructor
    · intro henforced
      have hsame := (henforced .window (by decide)).1.unique (hstands .window)
      have hzero : increments.sum.toInt = (0 : BitVec 64).toInt := by
        show increments.sum.toInt = 0
        omega
      exact Or.inl (BitVec.eq_of_toInt_eq hzero)
    · intro hzero counter _
      have hsum := hzero.resolve_right hknown
      refine ⟨?_, filteredKey_counterKey _ _ _ _ _⟩
      have hcount : counts counter + increments.sum.toInt = counts counter := by
        rw [hsum]
        exact Int.add_zero _
      rw [hcount]
      exact hstands counter

end Leader

/-! ## What the checks read -/

section Checks

variable {P : StorePlatform} {impl : Implementation}

/-- A worker that took over the state of a leader in memory. -/
def takenOver (storageRoot : Str) (new worker : Memory) : Memory :=
  ModernSwappableInMemoryRedis.rawSwap ⟨true, storageRoot⟩ new.store new.expirations worker

/-- A worker reads the counters of the state that it took over. -/
theorem stands_takenOver {storageRoot key : Str} {n : Int} (new worker : Memory)
    (hkey : filteredKey ⟨true, storageRoot⟩ key = false) :
    (CounterStore.inMemory P impl).Stands P (takenOver storageRoot new worker) key n ↔
      (CounterStore.inMemory P impl).Stands P new key n := by
  have hlocal : ¬ filteredKey ⟨true, storageRoot⟩ key = true := by
    rw [hkey]
    exact Bool.false_ne_true
  have hvalue : (takenOver storageRoot new worker).value? key = new.value? key :=
    (ModernMemory.value?_swap _ _ _ _ _).trans (if_neg hlocal)
  rw [CounterStore.stands_inMemory_iff, CounterStore.stands_inMemory_iff, hvalue]

/-- The check of the public quotas counts on from where its counters stand. -/
theorem updateQuotas_apply {σ : Type} {env : KvApiKeyDataStore σ} {state : σ}
    {counts : CallCounter → Int} {increment : Int} (hstore : env.Lawful) (call : CountedCall)
    (routeId : Str) (qconf : NgServiceQuotasConfig)
    (hstand : env.redisCli.StandAt env.platform
      (QuotaCheck.services.counterKey env.storageRoot routeId) counts state)
    (hlong : ∀ i, isLong (counts i + increment) = true) :
    ∃ after, NgServiceQuotas.updateQuotas env call routeId qconf increment state =
        (.ok (counts .window + increment ≤ qconf.throttlingQuota.1 &&
          counts .day + increment ≤ qconf.dailyQuota.1 &&
          counts .month + increment ≤ qconf.monthlyQuota.1), after) ∧
      env.redisCli.StandAt env.platform (QuotaCheck.services.counterKey env.storageRoot routeId)
        (fun i => counts i + increment) after := by
  have hkeys : Function.Injective (QuotaCheck.services.counterKey env.storageRoot routeId) :=
    kindKey_injective env.storageRoot NgServiceQuotas.kinds_injective routeId
  obtain ⟨after, hrun, hafter⟩ := KvApiKeyDataStore.countCall_apply hstore
    (CounterStore.Lawful.adds_bump hstore) hkeys call hstand hlong
  exact ⟨after, bind_of_ok hrun, hafter⟩

/-- A worker that took over the state of a leader in memory counts on from the calls that were
recorded for a key that the leader knows. -/
theorem updateQuotasAndCheck_takenOver {Throttling Plugins : Type}
    (leader : Leader Memory Throttling Plugins) (hlawful : leader.dataStore.Lawful)
    (hmemory : leader.dataStore.redisCli = .inMemory leader.dataStore.platform impl)
    {id : Str} {increments : List (BitVec 64)} {quotaIncrs : QuotaIncrs}
    {counts : CallCounter → Int} {memory : Memory} {apikey : Entities.ApiKey Throttling Plugins}
    {increment : Int} (hnone : quotaIncrs.lookup (Counted.apikey id).key = none)
    (hfound : leader.findById id memory = some apikey) (hid : apikey.clientId = id)
    (hstand : leader.dataStore.StandAt id counts memory)
    (hroom : ∀ i, isLong (counts i + increments.sum.toInt) = true)
    (hnext : ∀ i, isLong (counts i + increments.sum.toInt + increment) = true)
    (call next : CountedCall) (worker : Memory) :
    ∃ after, leader.dataStore.updateQuotasAndCheck next apikey increment
        (takenOver leader.dataStore.storageRoot
          (leader.afterPush call id (recorded id increments quotaIncrs) memory) worker) =
      (.ok (KvApiKeyDataStore.answer apikey (fun i => counts i + increments.sum.toInt) increment),
        after) := by
  have htaken : leader.dataStore.StandAt apikey.clientId
      (fun i => counts i + increments.sum.toInt)
      (takenOver leader.dataStore.storageRoot
        (leader.afterPush call id (recorded id increments quotaIncrs) memory) worker) := by
    intro counter
    have hpushed : leader.dataStore.redisCli.Stands leader.dataStore.platform
        (leader.afterPush call id (recorded id increments quotaIncrs) memory)
        (leader.dataStore.counterKey id counter) (counts counter + increments.sum.toInt) :=
      Leader.standAt_afterPush hlawful hnone hfound hid hstand hroom counter
    rw [hmemory, ← Leader.counterKey_apikey] at hpushed
    rw [hmemory, hid, ← Leader.counterKey_apikey]
    exact (stands_takenOver _ worker (filteredKey_counterKey _ _ _ _ _)).mpr hpushed
  obtain ⟨after, hrun, -⟩ :=
    KvApiKeyDataStore.updateQuotasAndCheck_apply hlawful next apikey htaken hnext
  exact ⟨after, hrun⟩

end Checks

/-! ## A leader that knows one key -/

section Example

open KvApiKeyDataStore

def exampleLeader : Leader Memory Unit Unit where
  dataStore := exampleDataStore
  findById id _ := if id = "id".toList then some (limitedKey ⟨2, rfl⟩) else none
  updateOther _ := pure ()

theorem isolated_exampleLeader :
    exampleLeader.dataStore.redisCli.Isolated exampleLeader.dataStore.platform :=
  CounterStore.isolated_inMemory .modern

theorem standAt_exampleLeader (check : QuotaCheck) (id : Str) :
    exampleLeader.dataStore.redisCli.StandAt exampleLeader.dataStore.platform
      (check.counterKey exampleLeader.dataStore.storageRoot id) (fun _ => 0) .empty := by
  intro counter
  show (CounterStore.inMemory starStorePlatform .modern).Stands starStorePlatform .empty _ 0
  exact CounterStore.stands_inMemory_iff.mpr rfl

/-- A call of the key is enforced. -/
theorem enforced_exampleLeader :
    exampleLeader.Enforced .apikey "id".toList [1] noonCall (fun _ => 0) ∅ .empty :=
  (Leader.enforced_iff exampleLeader exampleDataStore_lawful isolated_exampleLeader .apikey
    "id".toList [1] ∅ rfl noonCall (fun _ => 0) .empty (standAt_exampleLeader _ _)
    (fun _ => by decide)).mpr (Or.inr ⟨rfl, limitedKey ⟨2, rfl⟩, rfl, rfl⟩)

/-- A worker that took over the state answers for the second of two calls. -/
theorem updateQuotasAndCheck_takenOver_exampleLeader :
    ∃ after, exampleDataStore.updateQuotasAndCheck noonCall (limitedKey ⟨2, rfl⟩) 1
        (takenOver exampleDataStore.storageRoot
          (exampleLeader.afterPush noonCall "id".toList (recorded "id".toList [1] ∅) .empty)
          .empty) =
      (.ok (answer (limitedKey ⟨2, rfl⟩) (fun _ => 0 + ([1] : List (BitVec 64)).sum.toInt) 1),
        after) :=
  @updateQuotasAndCheck_takenOver .modern Unit Unit exampleLeader exampleDataStore_lawful rfl
    "id".toList [1] ∅ (fun _ => 0) .empty (limitedKey ⟨2, rfl⟩) 1 rfl rfl rfl
    (standAt_exampleLeader .apikey "id".toList) (fun _ => by decide) (fun _ => by decide) noonCall
    noonCall .empty

/-- The leader drops the calls of a route. -/
theorem exists_not_enforced :
    ¬ ∀ (leader : Leader Memory Unit Unit) (check : QuotaCheck) (id : Str)
      (increments : List (BitVec 64)) (quotaIncrs : QuotaIncrs) (call : CountedCall)
      (counts : CallCounter → Int) (memory : Memory), leader.dataStore.Lawful →
        leader.dataStore.redisCli.Isolated leader.dataStore.platform →
        quotaIncrs.lookup (Counted.apikey id).key = none →
        leader.dataStore.redisCli.StandAt leader.dataStore.platform
          (check.counterKey leader.dataStore.storageRoot id) counts memory →
        (∀ i, isLong (counts i + increments.sum.toInt) = true) →
        leader.Enforced check id increments call counts quotaIncrs memory := by
  intro hclaim
  have henforced := hclaim exampleLeader .services "route".toList [1] ∅ noonCall (fun _ => 0)
    .empty exampleDataStore_lawful isolated_exampleLeader rfl (standAt_exampleLeader _ _)
    (fun _ => by decide)
  have hone := (henforced .window (by decide)).1
  have hzero : exampleLeader.dataStore.redisCli.Stands exampleLeader.dataStore.platform
      (exampleLeader.afterPush noonCall "route".toList (recorded "route".toList [1] ∅) .empty)
      (QuotaCheck.services.counterKey exampleLeader.dataStore.storageRoot "route".toList .window)
      0 := by
    apply Leader.stands_afterPush exampleDataStore_lawful isolated_exampleLeader rfl _
      (standAt_exampleLeader .services "route".toList .window)
    intro apikey hfound
    cases hfound
  exact absurd (hone.unique hzero) (by decide)

end Example

end Cluster

end Otoroshi
