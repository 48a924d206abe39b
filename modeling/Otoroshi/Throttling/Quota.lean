/-
# Quotas that are looked at before they are counted

A throttling strategy answers whether a call is allowed, with the state of three
quotas: a window, the day and the month. The strategies over a store read the three
counters first, and count a call on every counter only if it fits under every limit.

Limits and counters are of type `Long`, and a call fits when the counter with the call
is below the limit and one. At the greatest `Long` neither sum is what it should be,
which is why `acceptsMore_iff` has its premises.
-/

import Otoroshi.Apikeys.Quotas

namespace Otoroshi

open Stateful

structure AllowedQuota where
  window : Long := RemainingQuotas.maxValue
  daily : Long := RemainingQuotas.maxValue
  monthly : Long := RemainingQuotas.maxValue
  deriving DecidableEq

structure Quota where
  limit : Int := RemainingQuotas.maxValue.1
  consumed : Int := RemainingQuotas.maxValue.1
  resetsAt : Int := RemainingQuotas.maxValue.1
  deriving DecidableEq

/-- One more call fits. -/
def Quota.acceptsMore (quota : Quota) (increment : Int) : Bool :=
  wrapLong (quota.consumed + increment) < wrapLong (quota.limit + 1)

structure QuotaState where
  window : Quota
  daily : Quota
  monthly : Quota
  deriving DecidableEq

def QuotaState.acceptsMore (state : QuotaState) (increment : Int) : Bool :=
  state.window.acceptsMore increment && state.daily.acceptsMore increment &&
    state.monthly.acceptsMore increment

structure ThrottlingResult where
  allowed : Bool
  quotas : QuotaState
  deriving DecidableEq

namespace Quota

variable {quota : Quota}

theorem wrapLong_greatest : wrapLong (2 ^ 63 - 1 + 1) = -2 ^ 63 := by
  decide

/-- Below the greatest `Long`, one more call fits under a limit that is not exceeded
by it. -/
theorem acceptsMore_iff (hlimit : isLong quota.limit = true)
    (hconsumed : isLong quota.consumed = true) (hbelow : quota.limit < 2 ^ 63 - 1)
    (hroom : quota.consumed < 2 ^ 63 - 1) :
    quota.acceptsMore 1 = true ↔ quota.consumed + 1 ≤ quota.limit := by
  rw [isLong, Bool.and_eq_true, decide_eq_true_eq, decide_eq_true_eq] at hlimit hconsumed
  have hnext : isLong (quota.consumed + 1) = true := by
    rw [isLong, Bool.and_eq_true, decide_eq_true_eq, decide_eq_true_eq]
    omega
  have habove : isLong (quota.limit + 1) = true := by
    rw [isLong, Bool.and_eq_true, decide_eq_true_eq, decide_eq_true_eq]
    omega
  rw [acceptsMore, decide_eq_true_eq, wrapLong_of_isLong hnext, wrapLong_of_isLong habove]
  exact Int.lt_add_one_iff

/-- Under the greatest limit nothing fits. -/
theorem acceptsMore_greatest (increment : Int) (hlimit : quota.limit = 2 ^ 63 - 1) :
    quota.acceptsMore increment = false := by
  have hlong := isLong_wrapLong (quota.consumed + increment)
  rw [isLong, Bool.and_eq_true, decide_eq_true_eq, decide_eq_true_eq] at hlong
  rw [acceptsMore, hlimit, wrapLong_greatest, decide_eq_false_iff_not]
  omega

/-- On top of the greatest number of calls every call fits under another limit. -/
theorem acceptsMore_of_full (hlimit : isLong quota.limit = true)
    (hbelow : quota.limit < 2 ^ 63 - 1) (hconsumed : quota.consumed = 2 ^ 63 - 1) :
    quota.acceptsMore 1 = true := by
  rw [isLong, Bool.and_eq_true, decide_eq_true_eq, decide_eq_true_eq] at hlimit
  have habove : isLong (quota.limit + 1) = true := by
    rw [isLong, Bool.and_eq_true, decide_eq_true_eq, decide_eq_true_eq]
    omega
  rw [acceptsMore, decide_eq_true_eq, hconsumed, wrapLong_greatest, wrapLong_of_isLong habove]
  omega

end Quota

/-- Whether one more call fits on the counters. -/
def AllowedQuota.accepts (quotas : AllowedQuota) (counts : CallCounter → Int) : Bool :=
  ({ limit := quotas.window.1, consumed := counts .window } : Quota).acceptsMore 1 &&
    ({ limit := quotas.daily.1, consumed := counts .day } : Quota).acceptsMore 1 &&
      ({ limit := quotas.monthly.1, consumed := counts .month } : Quota).acceptsMore 1

/-! ## Strategies over a store -/

/-- The clock during a call: its reads, and the times of its commands. -/
structure ThrottlingClock where
  now : Int
  readDayEnd : Int
  readMonthEnd : Int
  window : Int
  windowTtl : Int
  daily : Int
  monthly : Int
  /-- the part that counts -/
  counted : CountedCall

/-- The clock stands still during the call. -/
def ThrottlingClock.at (now : Int) : ThrottlingClock where
  now := now
  readDayEnd := now
  readMonthEnd := now
  window := now
  windowTtl := now
  daily := now
  monthly := now
  counted := ⟨now, now, now, now, fun _ => ⟨now, now, now⟩⟩

/-- What the strategies over a store share: the store, the keys of the counters and the
calendar. -/
structure StoreStrategy (σ : Type) where
  client : CounterStore σ
  platform : StorePlatform
  /-- `throttlingKey`, `dailyQuotaKey`, `monthlyQuotaKey` and `totalCallsKey` -/
  counterKey : Str → CallCounter → Str
  counterKey_injective : ∀ name, Function.Injective (counterKey name)
  calendar : Calendar

namespace StoreStrategy

variable {σ : Type} (strategy : StoreStrategy σ)

def throttlingKey (name : Str) : Str := strategy.counterKey name .window

def dailyQuotaKey (name : Str) : Str := strategy.counterKey name .day

def monthlyQuotaKey (name : Str) : Str := strategy.counterKey name .month

def totalCallsKey (name : Str) : Str := strategy.counterKey name .total

/-- Read a counter. -/
def calls (now : Int) (key : Str) : Stateful σ StoreException Int :=
  strategy.client.count strategy.platform now key

/-- The day and the month of a call are counted. Their commands have no order between
them, here they run one counter after the other. -/
def incrementDailyAndMonthly (call : CountedCall) (key : Str) (increment : Int) :
    Stateful σ StoreException (Int × Int) := do
  let dayEnd := strategy.calendar.dayEnd call.readForDayEnd
  let toDayEnd := secondsUntil dayEnd call.readToDayEnd
  let monthEnd := strategy.calendar.monthEnd call.readForMonthEnd
  let toMonthEnd := secondsUntil monthEnd call.readToMonthEnd
  let dailyCalls ← strategy.client.bump (call.commands .day) (strategy.dailyQuotaKey key)
    increment toDayEnd
  let monthlyCalls ← strategy.client.bump (call.commands .month) (strategy.monthlyQuotaKey key)
    increment toMonthEnd
  pure (dailyCalls, monthlyCalls)

/-- Count the window, and answer how long it still lives. -/
def incrementWindow (times : BumpTimes) (key : Str) (increment expirationSeconds : Int) :
    Stateful σ StoreException (Int × Int) := do
  let secCalls ← strategy.client.incrby times.incrby (strategy.throttlingKey key) increment
  let ttl ← strategy.client.pttl times.pttl (strategy.throttlingKey key)
  if ttl = -1 then
    let _ ← strategy.client.expire times.expire (strategy.throttlingKey key) expirationSeconds
    pure (secCalls, wrapLong (expirationSeconds * 1000))
  else pure (secCalls, ttl)

def incrementCounters (clock : ThrottlingClock) (key : Str) (increment : Int)
    (allowedQuotas : AllowedQuota) (expirationSeconds : Int) :
    Stateful σ StoreException QuotaState := do
  let window ← strategy.incrementWindow (clock.counted.commands .window) key increment
    expirationSeconds
  let dailyAndMonthlyCalls ← strategy.incrementDailyAndMonthly clock.counted key increment
  let _ ← strategy.client.incrby (clock.counted.commands .total).incrby
    (strategy.totalCallsKey key) increment
  pure {
    window := ⟨allowedQuotas.window.1, window.1, wrapLong (clock.now + window.2)⟩
    daily := ⟨allowedQuotas.daily.1, dailyAndMonthlyCalls.1,
      strategy.calendar.dayEnd clock.readDayEnd⟩
    monthly := ⟨allowedQuotas.monthly.1, dailyAndMonthlyCalls.2,
      strategy.calendar.monthEnd clock.readMonthEnd⟩ }

def check (clock : ThrottlingClock) (key : Str) (allowedQuotas : AllowedQuota) :
    Stateful σ StoreException ThrottlingResult := do
  let throttlingCallsPerWindow ← strategy.calls clock.window (strategy.throttlingKey key)
  let windowTTL ← strategy.client.pttl clock.windowTtl (strategy.throttlingKey key)
  let dailyCalls ← strategy.calls clock.daily (strategy.dailyQuotaKey key)
  let monthlyCalls ← strategy.calls clock.monthly (strategy.monthlyQuotaKey key)
  let state : QuotaState := {
    window := ⟨allowedQuotas.window.1, throttlingCallsPerWindow,
      wrapLong (clock.now + max 0 windowTTL)⟩
    daily := ⟨allowedQuotas.daily.1, dailyCalls, strategy.calendar.dayEnd clock.readDayEnd⟩
    monthly := ⟨allowedQuotas.monthly.1, monthlyCalls,
      strategy.calendar.monthEnd clock.readMonthEnd⟩ }
  pure ⟨state.acceptsMore 1, state⟩

/-- The counters are read before one of them is written. -/
def checkAndIncrement (clock : ThrottlingClock) (key : Str) (increment : Int)
    (allowedQuotas : AllowedQuota) (expirationSeconds : Int) :
    Stateful σ StoreException ThrottlingResult := do
  let current ← strategy.check clock key allowedQuotas
  if !current.quotas.acceptsMore increment then
    pure ⟨false, current.quotas⟩
  else
    let state ← strategy.incrementCounters clock key increment allowedQuotas expirationSeconds
    pure ⟨true, state⟩

end StoreStrategy

/-- The keys of the strategies with counters of their own. -/
def ThrottlingStrategy.kinds : CallCounter → Str
  | .window => ":ratelimiter:quotas:window:".toList
  | .day => ":ratelimiter:quotas:daily:".toList
  | .month => ":ratelimiter:quotas:monthly:".toList
  | .total => ":ratelimiter:quotas:global:".toList

theorem ThrottlingStrategy.kinds_injective : Function.Injective ThrottlingStrategy.kinds := by
  intro first second h
  cases first <;> cases second <;> first | rfl | exact absurd h (by decide)

/-- The keys of the strategy that uses the counters of the api keys. -/
def LegacyThrottlingStrategy.kinds : CallCounter → Str
  | .window => ":apikey:quotas:second:".toList
  | .day => ":apikey:quotas:daily:".toList
  | .month => ":apikey:quotas:monthly:".toList
  | .total => ":apikey:quotas:global:".toList

theorem LegacyThrottlingStrategy.kinds_injective :
    Function.Injective LegacyThrottlingStrategy.kinds := by
  intro first second h
  cases first <;> cases second <;> first | rfl | exact absurd h (by decide)

/-- A key that names what is counted before it names who is. -/
def kindKey (storageRoot : Str) (kinds : CallCounter → Str) (name : Str) (counter : CallCounter) :
    Str :=
  storageRoot ++ kinds counter ++ name

theorem kindKey_injective (storageRoot : Str) {kinds : CallCounter → Str}
    (h : Function.Injective kinds) (name : Str) :
    Function.Injective (kindKey storageRoot kinds name) := by
  intro first second hkey
  exact h (List.append_cancel_left (List.append_cancel_right hkey))

/-- The strategies with counters of their own. -/
def ThrottlingStrategy.store {σ : Type} (client : CounterStore σ) (platform : StorePlatform)
    (storageRoot : Str) (calendar : Calendar) : StoreStrategy σ where
  client
  platform
  counterKey := kindKey storageRoot ThrottlingStrategy.kinds
  counterKey_injective := kindKey_injective storageRoot ThrottlingStrategy.kinds_injective
  calendar

/-- The strategy that uses the counters of the api keys. -/
def LegacyThrottlingStrategy.store {σ : Type} (client : CounterStore σ) (platform : StorePlatform)
    (storageRoot : Str) (calendar : Calendar) : StoreStrategy σ where
  client
  platform
  counterKey := kindKey storageRoot LegacyThrottlingStrategy.kinds
  counterKey_injective := kindKey_injective storageRoot LegacyThrottlingStrategy.kinds_injective
  calendar

/-- The keys of the strategies in an in-memory store. -/
def StoreStrategy.exampleStore : StoreStrategy Memory :=
  ThrottlingStrategy.store (.inMemory starStorePlatform .modern) starStorePlatform
    "otoroshi".toList .january1970

end Otoroshi
