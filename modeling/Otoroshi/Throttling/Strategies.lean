/-
# Checking without counting

Every throttling strategy can be asked in two ways. `check` only looks, and
`checkAndIncrement` counts the call if it is allowed. Which of the two guards a route
is a matter of its settings, so both should turn away the same calls.

The strategies over a store ask the same question in both. The two that keep a bucket
in memory ask it twice, and differently: `check_allowed_eq_iff` says for which buckets,
limits and instants the answers are the same.
-/

import Otoroshi.Throttling.Quota

namespace Otoroshi

open Stateful

/-! ## Double precision -/

/-- What the token bucket takes of the arithmetic of `Double`. Nothing is assumed of it. -/
structure DoubleArithmetic where
  Double : Type
  /-- `toDouble` -/
  ofLong : Int → Double
  add : Double → Double → Double
  sub : Double → Double → Double
  mul : Double → Double → Double
  div : Double → Double → Double
  min : Double → Double → Double
  lt : Double → Double → Bool
  le : Double → Double → Bool

/-! ## Configurations -/

theorem isLong_50 : isLong 50 = true := rfl

theorem isLong_300 : isLong 300 = true := rfl

theorem isLong_10000 : isLong 10000 = true := rfl

structure LocalTokensBucketStrategyConfig where
  bucketKey : Str
  capacity : Long := ⟨300, isLong_300⟩
  refillRequestIntervalMs : Long := ⟨50, isLong_50⟩
  refillRequestedTokens : Long := ⟨50, isLong_50⟩
  quota : AllowedQuota := {}
  deriving DecidableEq

structure FixedWindowStrategyConfig where
  bucketKey : Option Str := none
  windowDurationMs : Long := ⟨10000, isLong_10000⟩
  quota : AllowedQuota := {}
  deriving DecidableEq

def LocalTokensBucketStrategyConfig.refillRatePerSecond (D : DoubleArithmetic)
    (config : LocalTokensBucketStrategyConfig) : D.Double :=
  D.div (D.mul (D.ofLong config.refillRequestedTokens.1) (D.ofLong 1000))
    (D.ofLong config.refillRequestIntervalMs.1)

variable {σ : Type}

/-- The day and the month, as the strategies with a bucket read them. -/
def StoreStrategy.getDailyAndMonthlyQuotas (strategy : StoreStrategy σ) (clock : ThrottlingClock)
    (key : Str) (allowedQuotas : AllowedQuota) : Stateful σ StoreException QuotaState := do
  let dailyCalls ← strategy.calls clock.daily (strategy.dailyQuotaKey key)
  let monthlyCalls ← strategy.calls clock.monthly (strategy.monthlyQuotaKey key)
  pure {
    window := {}
    daily := ⟨allowedQuotas.daily.1, dailyCalls, strategy.calendar.dayEnd clock.readDayEnd⟩
    monthly := ⟨allowedQuotas.monthly.1, monthlyCalls,
      strategy.calendar.monthEnd clock.readMonthEnd⟩ }

/-! ## Fixed windows -/

structure FixedWindowBucket where
  windowStart : Int
  count : Int
  deriving DecidableEq

namespace FixedWindowStrategy

variable (strategy : StoreStrategy σ) (config : FixedWindowStrategyConfig)

/-- The window of the bucket is over. -/
def isOver (bucket : FixedWindowBucket) (now : Int) : Bool :=
  config.windowDurationMs.1 ≤ wrapLong (now - bucket.windowStart)

def windowQuota (bucket : FixedWindowBucket) (now : Int) : Quota where
  limit := config.quota.window.1
  consumed := if isOver config bucket now then 0 else bucket.count
  resetsAt := wrapLong
    ((if isOver config bucket now then now else bucket.windowStart) + config.windowDurationMs.1)

def check (clock : ThrottlingClock) (key : Str) (allowedQuotas : AllowedQuota) :
    Stateful (σ × FixedWindowBucket) StoreException ThrottlingResult := do
  let state ← onFirst (strategy.getDailyAndMonthlyQuotas clock key allowedQuotas)
  let bucket ← getSecond
  let window := windowQuota config bucket clock.now
  pure ⟨window.acceptsMore 1 && state.daily.acceptsMore 1 && state.monthly.acceptsMore 1,
    { state with window }⟩

/-- A window that is over is left for the next one, in which the call is the first. -/
def take (now increment : Int) (current : FixedWindowBucket) : FixedWindowBucket :=
  if isOver config current now then ⟨now, increment⟩
  else if wrapLong (current.count + increment) ≤ config.quota.window.1 then
    { current with count := wrapLong (current.count + increment) }
  else current

def checkAndIncrement (clock : ThrottlingClock) (key : Str) (increment : Int)
    (allowedQuotas : AllowedQuota) :
    Stateful (σ × FixedWindowBucket) StoreException ThrottlingResult := do
  let currentState ← onFirst (strategy.getDailyAndMonthlyQuotas clock key allowedQuotas)
  if !currentState.daily.acceptsMore increment || !currentState.monthly.acceptsMore increment then
    let bucket ← getSecond
    pure ⟨false, { currentState with window := windowQuota config bucket clock.now }⟩
  else
    let before ← getAndUpdateSecond (take config clock.now increment)
    let opened := isOver config before clock.now
    let allowed := opened || wrapLong (before.count + increment) ≤ config.quota.window.1
    let window : Quota := {
      limit := config.quota.window.1
      consumed := if opened then increment
        else if allowed then wrapLong (before.count + increment) else before.count
      resetsAt := wrapLong
        ((if opened then clock.now else before.windowStart) + config.windowDurationMs.1) }
    if allowed then
      let calls ← onFirst (strategy.incrementDailyAndMonthly clock.counted key increment)
      pure ⟨true, {
        window
        daily := { currentState.daily with consumed := calls.1 }
        monthly := { currentState.monthly with consumed := calls.2 } }⟩
    else pure ⟨false, { currentState with window }⟩

end FixedWindowStrategy

/-! ## Token buckets -/

structure LocalBucket (D : DoubleArithmetic) where
  tokens : D.Double
  lastRefillMs : Int

/-- The bucket, and when it was last asked to be refilled. -/
structure TokensMemory (D : DoubleArithmetic) where
  bucket : LocalBucket D
  lastLeaderRequestTimeMs : Option Int

namespace LocalTokensBucketStrategy

variable {D : DoubleArithmetic} (strategy : StoreStrategy σ)
  (config : LocalTokensBucketStrategyConfig)

def shouldRefill (lastLeaderRequestTimeMs : Option Int) (currentTimeMs : Int) : Bool :=
  match lastLeaderRequestTimeMs with
  | some lastMs => config.refillRequestIntervalMs.1 ≤ wrapLong (currentTimeMs - lastMs)
  | none => true

/-- The tokens for the time since the last refill. -/
def tokensToAdd (bucket : LocalBucket D) (currentTimeMs : Int) : D.Double :=
  let timeElapsedMs := wrapLong (currentTimeMs - bucket.lastRefillMs)
  let timeElapsedSec := D.div (D.ofLong timeElapsedMs) (D.ofLong 1000)
  D.mul timeElapsedSec (config.refillRatePerSecond D)

/-- The tokens with those that are added, up to the capacity. -/
def refilled (bucket : LocalBucket D) (currentTimeMs : Int) : D.Double :=
  D.min (D.ofLong config.capacity.1) (D.add bucket.tokens (tokensToAdd config bucket currentTimeMs))

def refill (currentTimeMs : Int) (oldBucket : LocalBucket D) : LocalBucket D :=
  if D.lt (D.ofLong 0) (tokensToAdd config oldBucket currentTimeMs) then
    ⟨refilled config oldBucket currentTimeMs, currentTimeMs⟩
  else oldBucket

/-- What asking for a refill does to the memory. -/
def askForRefill (currentTimeMs : Int) (memory : TokensMemory D) : TokensMemory D :=
  if shouldRefill config memory.lastLeaderRequestTimeMs currentTimeMs then
    ⟨refill config currentTimeMs memory.bucket, some currentTimeMs⟩
  else memory

def check (clock : ThrottlingClock) (key : Str) (allowedQuotas : AllowedQuota) :
    Stateful (σ × TokensMemory D) StoreException ThrottlingResult := do
  let state ← onFirst (strategy.getDailyAndMonthlyQuotas clock key allowedQuotas)
  let memory ← getSecond
  let tokensLeft := memory.bucket.tokens
  pure ⟨D.le (D.ofLong 1) tokensLeft && state.daily.acceptsMore 1 && state.monthly.acceptsMore 1,
    state⟩

/-- Take tokens, if there are enough. -/
def take (increment : Int) (memory : TokensMemory D) : TokensMemory D :=
  if D.le (D.ofLong increment) memory.bucket.tokens then
    { memory with
      bucket := { memory.bucket with tokens := D.sub memory.bucket.tokens (D.ofLong increment) } }
  else memory

def checkAndIncrement (clock : ThrottlingClock) (key : Str) (increment : Int)
    (allowedQuotas : AllowedQuota) :
    Stateful (σ × TokensMemory D) StoreException ThrottlingResult := do
  let _ ← getAndUpdateSecond (askForRefill config clock.now)
  let currentState ← onFirst (strategy.getDailyAndMonthlyQuotas clock key allowedQuotas)
  if !currentState.daily.acceptsMore increment || !currentState.monthly.acceptsMore increment then
    pure ⟨false, currentState⟩
  else
    let tokensBefore ← getAndUpdateSecond (take increment)
    if D.le (D.ofLong increment) tokensBefore.bucket.tokens then
      let calls ← onFirst (strategy.incrementDailyAndMonthly clock.counted key increment)
      pure ⟨true, {
        window := currentState.window
        daily := { currentState.daily with consumed := calls.1 }
        monthly := { currentState.monthly with consumed := calls.2 } }⟩
    else pure ⟨false, currentState⟩

end LocalTokensBucketStrategy

/-! ## Both ways to ask -/

/-- The strategies, each with its settings. -/
inductive Strategy (σ : Type) (D : DoubleArithmetic)
  | storeBacked (strategy : StoreStrategy σ)
  | fixedWindow (strategy : StoreStrategy σ) (config : FixedWindowStrategyConfig)
  | localTokensBucket (strategy : StoreStrategy σ) (config : LocalTokensBucketStrategyConfig)

namespace Strategy

variable {D : DoubleArithmetic}

/-- What a strategy keeps in memory. -/
def Memory : Strategy σ D → Type
  | storeBacked _ => Unit
  | fixedWindow _ _ => FixedWindowBucket
  | localTokensBucket _ _ => TokensMemory D

def check : (s : Strategy σ D) → ThrottlingClock → Str → AllowedQuota →
    Stateful (σ × s.Memory) StoreException ThrottlingResult
  | storeBacked strategy, clock, key, allowedQuotas =>
      onFirst (strategy.check clock key allowedQuotas)
  | fixedWindow strategy config, clock, key, allowedQuotas =>
      FixedWindowStrategy.check strategy config clock key allowedQuotas
  | localTokensBucket strategy _, clock, key, allowedQuotas =>
      LocalTokensBucketStrategy.check strategy clock key allowedQuotas

/-- The strategies with a bucket make nothing of the seconds. -/
def checkAndIncrement : (s : Strategy σ D) → ThrottlingClock → Str → Int → AllowedQuota → Int →
    Stateful (σ × s.Memory) StoreException ThrottlingResult
  | storeBacked strategy, clock, key, increment, allowedQuotas, expirationSeconds =>
      onFirst (strategy.checkAndIncrement clock key increment allowedQuotas expirationSeconds)
  | fixedWindow strategy config, clock, key, increment, allowedQuotas, _ =>
      FixedWindowStrategy.checkAndIncrement strategy config clock key increment allowedQuotas
  | localTokensBucket strategy config, clock, key, increment, allowedQuotas, _ =>
      LocalTokensBucketStrategy.checkAndIncrement strategy config clock key increment allowedQuotas

end Strategy

/-- The day or the month, as it is read at the instant, takes no further call. -/
def StoreStrategy.UsedUp (strategy : StoreStrategy σ) (now : Int) (key : Str)
    (allowedQuotas : AllowedQuota) (state : σ) : Prop :=
  ∃ daily monthly middle after,
    strategy.calls now (strategy.dailyQuotaKey key) state = (.ok daily, middle) ∧
      strategy.calls now (strategy.monthlyQuotaKey key) middle = (.ok monthly, after) ∧
      (({ limit := allowedQuotas.daily.1, consumed := daily } : Quota).acceptsMore 1 &&
        ({ limit := allowedQuotas.monthly.1, consumed := monthly } : Quota).acceptsMore 1) = false

/-- The window takes a call in one way of asking exactly when it does in the other: its
limit is not the greatest, and a window that is over is followed by one that takes a
call. -/
def FixedWindowStrategy.AgreesOn (config : FixedWindowStrategyConfig) (now : Int)
    (bucket : FixedWindowBucket) : Prop :=
  config.quota.window.1 < 2 ^ 63 - 1 ∧
    (isOver config bucket now = true → 0 < config.quota.window.1)

/-- A refill for the elapsed time, if one is due, leaves the bucket with a token exactly
when it had one. -/
def LocalTokensBucketStrategy.AgreesOn {D : DoubleArithmetic}
    (config : LocalTokensBucketStrategyConfig) (now : Int) (memory : TokensMemory D) : Prop :=
  shouldRefill config memory.lastLeaderRequestTimeMs now = true →
    D.lt (D.ofLong 0) (tokensToAdd config memory.bucket now) = true →
      D.le (D.ofLong 1) (refilled config memory.bucket now) =
        D.le (D.ofLong 1) memory.bucket.tokens

/-- The state of the counters and of the bucket on which both ways answer alike. -/
def Strategy.AgreesOn {D : DoubleArithmetic} : (s : Strategy σ D) → Int → Str → AllowedQuota →
    σ × s.Memory → Prop
  | storeBacked _, _, _, _, _ => True
  | fixedWindow strategy config, now, key, allowedQuotas, state =>
      strategy.UsedUp now key allowedQuotas state.1 ∨
        FixedWindowStrategy.AgreesOn config now state.2
  | localTokensBucket strategy config, now, key, allowedQuotas, state =>
      strategy.UsedUp now key allowedQuotas state.1 ∨
        LocalTokensBucketStrategy.AgreesOn config now state.2

/-! ### Over a store -/

namespace StoreStrategy

variable {strategy : StoreStrategy σ} {clock : ThrottlingClock} {key : Str}
  {allowedQuotas : AllowedQuota} {state after : σ} {increment expirationSeconds : Int}

/-- A check answers by the state of the quotas that it tells. -/
theorem allowed_of_check {checked : ThrottlingResult}
    (h : strategy.check clock key allowedQuotas state = (.ok checked, after)) :
    checked.allowed = checked.quotas.acceptsMore 1 := by
  obtain ⟨window, windowed, -, h⟩ := exists_of_bind h
  obtain ⟨ttl, asked, -, h⟩ := exists_of_bind h
  obtain ⟨daily, dailyRead, -, h⟩ := exists_of_bind h
  obtain ⟨monthly, monthlyRead, -, h⟩ := exists_of_bind h
  cases h
  rfl

/-- A call is counted if the check before it lets it through. -/
theorem allowed_of_checkAndIncrement {checked counted : ThrottlingResult} {last : σ}
    (hcheck : strategy.check clock key allowedQuotas state = (.ok checked, after))
    (hcount : strategy.checkAndIncrement clock key increment allowedQuotas expirationSeconds state =
      (.ok counted, last)) :
    counted.allowed = checked.quotas.acceptsMore increment := by
  rw [checkAndIncrement, bind_of_ok hcheck] at hcount
  cases haccepts : checked.quotas.acceptsMore increment with
  | false =>
      rw [haccepts, Bool.not_false, if_pos rfl] at hcount
      cases hcount
      rfl
  | true =>
      rw [haccepts, Bool.not_true, if_neg Bool.false_ne_true] at hcount
      obtain ⟨quotas, incremented, -, hcount⟩ := exists_of_bind hcount
      cases hcount
      rfl

/-- What is read of the day and the month, counter by counter. -/
theorem exists_of_getDailyAndMonthlyQuotas {read : QuotaState}
    (h : strategy.getDailyAndMonthlyQuotas clock key allowedQuotas state = (.ok read, after)) :
    ∃ daily monthly middle,
      strategy.calls clock.daily (strategy.dailyQuotaKey key) state = (.ok daily, middle) ∧
        strategy.calls clock.monthly (strategy.monthlyQuotaKey key) middle = (.ok monthly, after) ∧
        read.daily =
          ⟨allowedQuotas.daily.1, daily, strategy.calendar.dayEnd clock.readDayEnd⟩ ∧
        read.monthly =
          ⟨allowedQuotas.monthly.1, monthly, strategy.calendar.monthEnd clock.readMonthEnd⟩ := by
  obtain ⟨daily, middle, hdaily, h⟩ := exists_of_bind h
  obtain ⟨monthly, last, hmonthly, h⟩ := exists_of_bind h
  cases h
  exact ⟨daily, monthly, middle, hdaily, hmonthly, rfl, rfl⟩

/-- What is read at an instant says whether the day or the month is used up. -/
theorem usedUp_iff {now : Int} {read : QuotaState}
    (h : strategy.getDailyAndMonthlyQuotas (.at now) key allowedQuotas state = (.ok read, after)) :
    strategy.UsedUp now key allowedQuotas state ↔
      (read.daily.acceptsMore 1 && read.monthly.acceptsMore 1) = false := by
  obtain ⟨daily, monthly, middle, hdaily, hmonthly, hday, hmonth⟩ :=
    exists_of_getDailyAndMonthlyQuotas h
  rw [hday, hmonth]
  constructor
  · rintro ⟨daily', monthly', middle', after', hdaily', hmonthly', hused⟩
    cases hdaily.symm.trans hdaily'
    cases hmonthly.symm.trans hmonthly'
    exact hused
  · intro hused
    exact ⟨daily, monthly, middle, after, hdaily, hmonthly, hused⟩

end StoreStrategy

/-! ### Fixed windows -/

namespace FixedWindowStrategy

variable {strategy : StoreStrategy σ} {config : FixedWindowStrategyConfig}
  {clock : ThrottlingClock} {key : Str} {allowedQuotas : AllowedQuota}
  {state after : σ × FixedWindowBucket} {read : QuotaState} {middle : σ} {increment : Int}

/-- The call opens the next window or fits in the one that is open. -/
def takes (config : FixedWindowStrategyConfig) (now increment : Int)
    (bucket : FixedWindowBucket) : Bool :=
  isOver config bucket now || wrapLong (bucket.count + increment) ≤ config.quota.window.1

theorem allowed_of_check {checked : ThrottlingResult}
    (hread : strategy.getDailyAndMonthlyQuotas clock key allowedQuotas state.1 = (.ok read, middle))
    (h : check strategy config clock key allowedQuotas state = (.ok checked, after)) :
    checked.allowed = ((windowQuota config state.2 clock.now).acceptsMore 1 &&
      (read.daily.acceptsMore 1 && read.monthly.acceptsMore 1)) := by
  rw [check, bind_of_ok (onFirst_of_ok hread state.2)] at h
  cases h
  exact Bool.and_assoc _ _ _

theorem allowed_of_checkAndIncrement {counted : ThrottlingResult}
    (hread : strategy.getDailyAndMonthlyQuotas clock key allowedQuotas state.1 = (.ok read, middle))
    (h : checkAndIncrement strategy config clock key increment allowedQuotas state =
      (.ok counted, after)) :
    counted.allowed = (takes config clock.now increment state.2 &&
      (read.daily.acceptsMore increment && read.monthly.acceptsMore increment)) := by
  rw [checkAndIncrement, bind_of_ok (onFirst_of_ok hread state.2), ← Bool.not_and] at h
  cases hroom : read.daily.acceptsMore increment && read.monthly.acceptsMore increment with
  | false =>
      rw [hroom, Bool.not_false, if_pos rfl] at h
      cases h
      exact (Bool.and_false _).symm
  | true =>
      rw [hroom, Bool.not_true, if_neg Bool.false_ne_true] at h
      obtain ⟨before, taken, hbefore, h⟩ := exists_of_bind h
      cases hbefore
      dsimp only at h
      rw [Bool.and_true, takes]
      split at h
      case isTrue htakes =>
        obtain ⟨calls, incremented, -, h⟩ := exists_of_bind h
        cases h
        exact htakes.symm
      case isFalse hturned =>
        cases h
        exact ((Bool.not_eq_true _).mp hturned).symm

/-- Looking for room in the window comes to the same as taking it. -/
theorem acceptsMore_eq_takes_iff (now : Int) (bucket : FixedWindowBucket) :
    (windowQuota config bucket now).acceptsMore 1 = takes config now 1 bucket ↔
      AgreesOn config now bucket := by
  have hlimit := config.quota.window.2
  rw [isLong, Bool.and_eq_true, decide_eq_true_eq, decide_eq_true_eq] at hlimit
  have hcount := isLong_wrapLong (bucket.count + 1)
  rw [isLong, Bool.and_eq_true, decide_eq_true_eq, decide_eq_true_eq] at hcount
  have hone : wrapLong (0 + 1) = 1 := by
    decide
  rw [AgreesOn, Quota.acceptsMore, takes, windowQuota]
  dsimp only
  by_cases hgreatest : config.quota.window.1 = 2 ^ 63 - 1
  · rw [hgreatest, Quota.wrapLong_greatest]
    cases isOver config bucket now with
    | true =>
        rw [if_pos rfl, hone, Bool.true_or, decide_eq_true_eq]
        omega
    | false =>
        rw [if_neg Bool.false_ne_true, Bool.false_or, decide_eq_decide]
        omega
  · have habove : isLong (config.quota.window.1 + 1) = true := by
      rw [isLong, Bool.and_eq_true, decide_eq_true_eq, decide_eq_true_eq]
      omega
    rw [wrapLong_of_isLong habove]
    cases isOver config bucket now with
    | true =>
        simp only [if_pos, hone, Bool.true_or, decide_eq_true_eq, forall_const]
        omega
    | false =>
        rw [if_neg Bool.false_ne_true, Bool.false_or, decide_eq_decide]
        refine iff_of_true Int.lt_add_one_iff ⟨by omega, fun hover => ?_⟩
        exact absurd hover Bool.false_ne_true

end FixedWindowStrategy

/-! ### Token buckets -/

namespace LocalTokensBucketStrategy

variable {D : DoubleArithmetic} {strategy : StoreStrategy σ}
  {config : LocalTokensBucketStrategyConfig} {clock : ThrottlingClock} {key : Str}
  {allowedQuotas : AllowedQuota} {state after : σ × TokensMemory D} {read : QuotaState}
  {middle : σ} {increment : Int}

theorem allowed_of_check {checked : ThrottlingResult}
    (hread : strategy.getDailyAndMonthlyQuotas clock key allowedQuotas state.1 = (.ok read, middle))
    (h : check strategy clock key allowedQuotas state = (.ok checked, after)) :
    checked.allowed = (D.le (D.ofLong 1) state.2.bucket.tokens &&
      (read.daily.acceptsMore 1 && read.monthly.acceptsMore 1)) := by
  rw [check, bind_of_ok (onFirst_of_ok hread state.2)] at h
  cases h
  exact Bool.and_assoc _ _ _

theorem allowed_of_checkAndIncrement {counted : ThrottlingResult}
    (hread : strategy.getDailyAndMonthlyQuotas clock key allowedQuotas state.1 = (.ok read, middle))
    (h : checkAndIncrement strategy config clock key increment allowedQuotas state =
      (.ok counted, after)) :
    counted.allowed =
      (D.le (D.ofLong increment) (askForRefill config clock.now state.2).bucket.tokens &&
        (read.daily.acceptsMore increment && read.monthly.acceptsMore increment)) := by
  obtain ⟨asked, refilled, hasked, h⟩ := exists_of_bind h
  cases hasked
  rw [bind_of_ok (onFirst_of_ok hread _), ← Bool.not_and] at h
  cases hroom : read.daily.acceptsMore increment && read.monthly.acceptsMore increment with
  | false =>
      rw [hroom, Bool.not_false, if_pos rfl] at h
      cases h
      exact (Bool.and_false _).symm
  | true =>
      rw [hroom, Bool.not_true, if_neg Bool.false_ne_true] at h
      obtain ⟨before, taken, hbefore, h⟩ := exists_of_bind h
      cases hbefore
      rw [Bool.and_true]
      split at h
      case isTrue htokens =>
        obtain ⟨calls, incremented, -, h⟩ := exists_of_bind h
        cases h
        exact htokens.symm
      case isFalse hempty =>
        cases h
        exact ((Bool.not_eq_true _).mp hempty).symm

/-- Looking for a token comes to the same as looking for it after a refill. -/
theorem tokens_eq_iff (now : Int) (memory : TokensMemory D) :
    D.le (D.ofLong 1) memory.bucket.tokens =
        D.le (D.ofLong 1) (askForRefill config now memory).bucket.tokens ↔
      AgreesOn config now memory := by
  rw [AgreesOn, askForRefill]
  by_cases hdue : shouldRefill config memory.lastLeaderRequestTimeMs now = true
  · rw [if_pos hdue, refill]
    by_cases hadd : D.lt (D.ofLong 0) (tokensToAdd config memory.bucket now) = true
    · rw [if_pos hadd]
      constructor
      · intro h _ _
        exact h.symm
      · intro h
        exact (h hdue hadd).symm
    · rw [if_neg hadd]
      simp only [hadd, Bool.false_eq_true, false_imp_iff, implies_true]
  · rw [if_neg hdue]
    simp only [hdue, Bool.false_eq_true, false_imp_iff]

end LocalTokensBucketStrategy

/-! ### All of them -/

namespace Strategy

variable {D : DoubleArithmetic}

/-- Two verdicts that look for room in a bucket and in the same quotas agree when the
quotas are used up or the buckets agree. -/
theorem and_eq_and_iff {looked taken room : Bool} :
    (looked && room) = (taken && room) ↔ room = false ∨ looked = taken := by
  cases looked <;> cases taken <;> cases room <;> decide

/-- Checking and counting turn away the same calls exactly on the states that
`AgreesOn` describes. -/
theorem check_allowed_eq_iff (s : Strategy σ D) (now : Int) (key : Str)
    (allowedQuotas : AllowedQuota) (expirationSeconds : Int) (state : σ × s.Memory)
    (checked counted : ThrottlingResult)
    (hcheck : (s.check (.at now) key allowedQuotas state).1 = .ok checked)
    (hcount : (s.checkAndIncrement (.at now) key 1 allowedQuotas expirationSeconds state).1 =
      .ok counted) :
    checked.allowed = counted.allowed ↔ s.AgreesOn now key allowedQuotas state := by
  rcases hchecked : s.check (.at now) key allowedQuotas state with ⟨result, after⟩
  rcases hcounted : s.checkAndIncrement (.at now) key 1 allowedQuotas expirationSeconds state
    with ⟨result', after'⟩
  rw [hchecked] at hcheck
  rw [hcounted] at hcount
  subst hcheck hcount
  cases s with
  | storeBacked strategy =>
      have hfirst := eq_ok_of_onFirst hchecked
      have hsecond := eq_ok_of_onFirst hcounted
      rw [StoreStrategy.allowed_of_checkAndIncrement hfirst hsecond,
        StoreStrategy.allowed_of_check hfirst]
      exact iff_of_true rfl trivial
  | fixedWindow strategy config =>
      obtain ⟨read, middle, hread, -⟩ := exists_of_bind hchecked
      have hstore := eq_ok_of_onFirst hread
      rw [FixedWindowStrategy.allowed_of_check hstore hchecked,
        FixedWindowStrategy.allowed_of_checkAndIncrement hstore hcounted, and_eq_and_iff,
        AgreesOn, StoreStrategy.usedUp_iff hstore]
      exact or_congr Iff.rfl (FixedWindowStrategy.acceptsMore_eq_takes_iff now state.2)
  | localTokensBucket strategy config =>
      obtain ⟨read, middle, hread, -⟩ := exists_of_bind hchecked
      have hstore := eq_ok_of_onFirst hread
      rw [LocalTokensBucketStrategy.allowed_of_check hstore hchecked,
        LocalTokensBucketStrategy.allowed_of_checkAndIncrement hstore hcounted, and_eq_and_iff,
        AgreesOn, StoreStrategy.usedUp_iff hstore]
      exact or_congr Iff.rfl (LocalTokensBucketStrategy.tokens_eq_iff now state.2)

/-! ## An example -/

section Example

/-- Arithmetic without rounding. -/
def exactArithmetic : DoubleArithmetic where
  Double := Rat
  ofLong n := n
  add := (· + ·)
  sub := (· - ·)
  mul := (· * ·)
  div := (· / ·)
  min := min
  lt a b := a < b
  le a b := a ≤ b

/-- Windows of ten seconds that take a number of calls. -/
def exampleWindow (window : Long) : Strategy Otoroshi.Memory exactArithmetic :=
  .fixedWindow StoreStrategy.exampleStore { quota := { window } }

/-- A bucket of one token, refilled every 50 milliseconds. -/
def exampleTokens : Strategy Otoroshi.Memory exactArithmetic :=
  .localTokensBucket StoreStrategy.exampleStore
    { bucketKey := "bucket".toList, capacity := ⟨1, isLong_one⟩ }

/-- The first call of a window that takes one is let through in both ways. -/
theorem check_allowed_eq_example :
    (exampleWindow ⟨1, rfl⟩).AgreesOn 0 "key".toList {} (.empty, ⟨0, 0⟩) :=
  (check_allowed_eq_iff (exampleWindow ⟨1, rfl⟩) 0 "key".toList {} 10 (.empty, ⟨0, 0⟩) _ _
    rfl rfl).mp rfl

/-- After ten seconds a window that takes no call is followed by one that takes the
first. -/
theorem exists_check_allowed_ne : ¬ ∀ (s : Strategy Otoroshi.Memory exactArithmetic) (now : Int)
    (key : Str) (allowedQuotas : AllowedQuota) (expirationSeconds : Int)
    (state : Otoroshi.Memory × s.Memory) (checked counted : ThrottlingResult),
    (s.check (.at now) key allowedQuotas state).1 = .ok checked →
    (s.checkAndIncrement (.at now) key 1 allowedQuotas expirationSeconds state).1 = .ok counted →
      checked.allowed = counted.allowed := by
  intro h
  have hallowed := h (exampleWindow ⟨0, rfl⟩) 10000 "key".toList {} 10 (.empty, ⟨0, 0⟩) _ _ rfl rfl
  revert hallowed
  decide

/-- An empty bucket is refilled before a token is taken, and not before it is looked
for. -/
example : ((exampleTokens.check (.at 50) "key".toList {} (.empty, ⟨⟨(0 : Rat), 0⟩, none⟩)).1.map
      (·.allowed) = .ok false) ∧
    (exampleTokens.checkAndIncrement (.at 50) "key".toList 1 {} 10
      (.empty, ⟨⟨(0 : Rat), 0⟩, none⟩)).1.map (·.allowed) = .ok true := by
  decide +kernel

end Example

end Strategy

end Otoroshi
