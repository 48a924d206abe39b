/-
# The rate of a token bucket

A bucket is refilled when a call asks for tokens, and not more often than once in an
interval: a call that comes before the interval is over takes of what is left. What came
in meanwhile is there for the first call after it. A strategy that is not asked for long
is evicted, and its bucket is created again full.

So an empty bucket can find a whole refill at once. In an interval no more tokens are
taken than the capacity, one refill, and what comes in during the interval
(`taken_within_le`).
-/

import Mathlib.Data.Rat.Floor
import Otoroshi.Foundation.Bucket
import Otoroshi.Throttling.RateLimiter

namespace Otoroshi

open Stateful

variable {σ : Type}

/-! ## Eviction -/

/-- How long a strategy is kept that is not asked, in milliseconds. There is none where
the platform has no such duration. -/
def RateLimiter.idleTimeout (config : ThrottlingStrategyConfig) : Option Int :=
  let window := match config with
    | .fixedWindow c => c.windowDurationMs.1
    | .localTokensBucket c =>
        -- the time an empty bucket takes to be full again
        wrapLong (⌈(c.capacity.1 : ℚ) / (max 1 c.refillRequestedTokens.1 : Int)⌉ *
          c.refillRequestIntervalMs.1)
    | _ => 0
  let millis := max (60 * 60 * 1000) window
  if millis ≤ 9223372036854 then some millis else none

namespace LocalTokensBucketStrategy

open Strategy (exactArithmetic)

/-- A new strategy. -/
def created (config : LocalTokensBucketStrategyConfig) (now : Int) :
    TokensMemory exactArithmetic where
  bucket := ⟨exactArithmetic.ofLong config.capacity.1, now⟩
  lastLeaderRequestTimeMs := none

/-- The tokens that are left. -/
def tokens (memory : TokensMemory exactArithmetic) : ℚ := memory.bucket.tokens

/-- What happens to a strategy: it is evicted and created again, or it is asked. -/
inductive TokensEvent
  | recreated (now : Int)
  | asked (clock : ThrottlingClock) (key : Str) (increment : Nat) (allowedQuotas : AllowedQuota)

def TokensEvent.instant : TokensEvent → Int
  | recreated now => now
  | asked clock _ _ _ => clock.now

/-- The store, the strategy, and when it was last asked or created. -/
structure TokensState (σ : Type) where
  store : σ
  memory : TokensMemory exactArithmetic
  seen : Int

variable (strategy : StoreStrategy σ) (config : LocalTokensBucketStrategyConfig)

def serve : TokensEvent → TokensState σ → TokensState σ
  | .recreated now, state => { state with memory := created config now, seen := now }
  | .asked clock key increment allowedQuotas, state =>
      let after := (checkAndIncrement strategy config clock key increment allowedQuotas
        (state.store, state.memory)).2
      ⟨after.1, after.2, clock.now⟩

/-- The tokens that are gone after a call, of those it found after the refill. -/
def taken : TokensEvent → TokensState σ → ℚ
  | .recreated _, _ => 0
  | .asked clock key increment allowedQuotas, state =>
      tokens (askForRefill config clock.now state.memory) -
        tokens (serve strategy config (.asked clock key increment allowedQuotas) state).memory

/-- The instants do not decrease, and a strategy is evicted only after its idle timeout. -/
def Possible (event : TokensEvent) (state : TokensState σ) : Prop :=
  state.seen ≤ event.instant ∧
    ∀ now, event = .recreated now → ∃ timeout,
      RateLimiter.idleTimeout (.localTokensBucket config) = some timeout ∧
        timeout ≤ now - state.seen

/-- The day or the month, as the call reads it, does not accept what it asks for. -/
def TurnedAway (event : TokensEvent) (state : TokensState σ) : Prop :=
  ∃ clock key increment allowedQuotas read after,
    event = .asked clock key increment allowedQuotas ∧
      strategy.getDailyAndMonthlyQuotas clock key allowedQuotas state.store = (.ok read, after) ∧
        (read.daily.acceptsMore increment && read.monthly.acceptsMore increment) = false

/-- When tokens were taken, and how many. -/
def takings : List TokensEvent → TokensState σ → List (Int × ℚ)
  | [], _ => []
  | event :: events, state =>
      (event.instant, taken strategy config event state) ::
        takings events (serve strategy config event state)

def takenWithin (start last : Int) (takings : List (Int × ℚ)) : ℚ :=
  ((takings.filter fun taking => start ≤ taking.1 ∧ taking.1 ≤ last).map Prod.snd).sum

/-! ## One call -/

section Call

/-- How many tokens come in in a millisecond. -/
def rate : ℚ := (config.refillRequestedTokens.1 : ℚ) / (config.refillRequestIntervalMs.1 : ℚ)

/-- What a refill adds, if it fits. -/
def comeIn (memory : TokensMemory exactArithmetic) (now : Int) : ℚ :=
  tokensToAdd config memory.bucket now

variable {strategy : StoreStrategy σ} {config} {memory : TokensMemory exactArithmetic} {now : Int}

theorem comeIn_eq :
    comeIn config memory now =
      rate config * (wrapLong (now - memory.bucket.lastRefillMs) : ℚ) := by
  have hdef : comeIn config memory now =
      (wrapLong (now - memory.bucket.lastRefillMs) : ℚ) / ((1000 : Int) : ℚ) *
        ((config.refillRequestedTokens.1 : ℚ) * ((1000 : Int) : ℚ) /
          (config.refillRequestIntervalMs.1 : ℚ)) := rfl
  rw [hdef, rate]
  push_cast
  ring

theorem lt_tokensToAdd :
    exactArithmetic.lt (exactArithmetic.ofLong 0) (tokensToAdd config memory.bucket now) =
      decide (0 < comeIn config memory now) := rfl

theorem askForRefill_of_not_due
    (h : shouldRefill config memory.lastLeaderRequestTimeMs now = false) :
    askForRefill config now memory = memory := by
  rw [askForRefill, h, if_neg Bool.false_ne_true]

/-- A refill that is due adds the tokens for the time since the last one, as far as they
fit. -/
theorem askForRefill_of_due (h : shouldRefill config memory.lastLeaderRequestTimeMs now = true)
    (hadd : 0 < comeIn config memory now) :
    tokens (askForRefill config now memory) =
        min (config.capacity.1 : ℚ) (tokens memory + comeIn config memory now) ∧
      (askForRefill config now memory).bucket.lastRefillMs = now ∧
      (askForRefill config now memory).lastLeaderRequestTimeMs = some now := by
  rw [askForRefill, h, if_pos rfl, refill, lt_tokensToAdd, if_pos (decide_eq_true hadd)]
  exact ⟨rfl, rfl, rfl⟩

theorem askForRefill_of_not_add (h : shouldRefill config memory.lastLeaderRequestTimeMs now = true)
    (hadd : ¬ 0 < comeIn config memory now) :
    askForRefill config now memory = ⟨memory.bucket, some now⟩ := by
  rw [askForRefill, h, if_pos rfl, refill, lt_tokensToAdd, decide_eq_false hadd,
    if_neg Bool.false_ne_true]

/-- A call takes what it asks for after the refill, or nothing. -/
theorem memory_of_checkAndIncrement (strategy : StoreStrategy σ)
    (config : LocalTokensBucketStrategyConfig) (clock : ThrottlingClock) (key : Str)
    (increment : Int) (allowedQuotas : AllowedQuota) (state : σ × TokensMemory exactArithmetic) :
    (checkAndIncrement strategy config clock key increment allowedQuotas state).2.2 ∈
      [askForRefill config clock.now state.2,
        take increment (askForRefill config clock.now state.2)] := by
  have hasked : getAndUpdateSecond (ε := StoreException) (askForRefill config clock.now) state =
      (.ok state.2, state.1, askForRefill config clock.now state.2) := rfl
  rw [checkAndIncrement, bind_of_ok hasked]
  apply second_of_bind_onFirst (· ∈ [askForRefill config clock.now state.2,
    take increment (askForRefill config clock.now state.2)])
  · exact List.mem_cons_self
  · intro read middle hread
    split
    · exact List.mem_cons_self
    · have htaken : getAndUpdateSecond (ε := StoreException) (take increment)
          (middle, askForRefill config clock.now state.2) =
            (.ok (askForRefill config clock.now state.2), middle,
              take increment (askForRefill config clock.now state.2)) := rfl
      apply List.mem_cons_of_mem
      rw [bind_of_ok htaken, List.mem_singleton]
      split
      · apply second_of_bind_onFirst
          (· = take increment (askForRefill config clock.now state.2)) rfl
        intro calls after hcounted
        rfl
      · rfl

/-- A call that a quota turns away leaves the tokens that it found after the refill. -/
theorem memory_of_turnedAway (config : LocalTokensBucketStrategyConfig) {clock : ThrottlingClock}
    {key : Str} {increment : Int} {allowedQuotas : AllowedQuota}
    {state : σ × TokensMemory exactArithmetic} {read : QuotaState} {after : σ}
    (hread : strategy.getDailyAndMonthlyQuotas clock key allowedQuotas state.1 = (.ok read, after))
    (hquota : (read.daily.acceptsMore increment && read.monthly.acceptsMore increment) = false) :
    (checkAndIncrement strategy config clock key increment allowedQuotas state).2.2 =
      askForRefill config clock.now state.2 := by
  have hasked : getAndUpdateSecond (ε := StoreException) (askForRefill config clock.now) state =
      (.ok state.2, state.1, askForRefill config clock.now state.2) := rfl
  rw [checkAndIncrement, bind_of_ok hasked, bind_of_ok (onFirst_of_ok hread _), ← Bool.not_and,
    hquota, Bool.not_false, if_pos rfl]
  rfl

theorem taken_of_turnedAway {event : TokensEvent} {state : TokensState σ}
    (h : TurnedAway strategy event state) : taken strategy config event state = 0 := by
  obtain ⟨clock, key, increment, allowedQuotas, read, after, rfl, hread, hquota⟩ := h
  have hmemory := @memory_of_turnedAway σ strategy config clock key increment allowedQuotas
    (state.store, state.memory) read after hread hquota
  rw [taken, serve, hmemory, sub_self]

end Call

/-! ## As a bucket -/

section Rate

/-- What stands in a memory that was last asked, or created, at the instant. -/
structure Kept (state : TokensState σ) : Prop where
  nonneg : 0 ≤ tokens state.memory
  le_capacity : tokens state.memory ≤ (config.capacity.1 : ℚ)
  refilled_le : state.memory.bucket.lastRefillMs ≤ state.seen
  /-- before it is asked for the first time -/
  new : state.memory.lastLeaderRequestTimeMs = none → state.memory.bucket.lastRefillMs = state.seen
  led : ∀ leader, state.memory.lastLeaderRequestTimeMs = some leader →
    wrapLong (leader - state.memory.bucket.lastRefillMs) ≤ 0 ∧
      wrapLong (state.seen - leader) < config.refillRequestIntervalMs.1

/-- The bucket of a configuration. A refill may be late by an interval. -/
def bucket : Bucket ℚ where
  capacity := (config.capacity.1 : ℚ)
  rate := rate config
  slack := (config.refillRequestedTokens.1 : ℚ)

def level (state : TokensState σ) : Level ℚ where
  amount := tokens state.memory
  filled := (state.memory.bucket.lastRefillMs : ℚ)
  seen := (state.seen : ℚ)

/-- The capacity, the interval and the refill are positive. -/
structure Positive : Prop where
  capacity : 0 < config.capacity.1
  interval : 0 < config.refillRequestIntervalMs.1
  refill : 0 < config.refillRequestedTokens.1

variable {strategy : StoreStrategy σ} {config} {state : TokensState σ} {now : Int}

theorem Positive.rate_pos (h : Positive config) : 0 < rate config := by
  have hrefill : (0 : ℚ) < config.refillRequestedTokens.1 := by
    exact_mod_cast h.refill
  have hinterval : (0 : ℚ) < config.refillRequestIntervalMs.1 := by
    exact_mod_cast h.interval
  exact div_pos hrefill hinterval

/-- An interval brings one refill. -/
theorem Positive.rate_mul_interval (h : Positive config) :
    rate config * (config.refillRequestIntervalMs.1 : ℚ) = config.refillRequestedTokens.1 := by
  have hinterval : (config.refillRequestIntervalMs.1 : ℚ) ≠ 0 := by
    exact_mod_cast h.interval.ne'
  exact div_mul_cancel₀ _ hinterval

/-- A refill that is due is for the time since the last call, and for at most an interval
before it. -/
theorem Kept.elapsed_le (h : Kept config state) (hpos : Positive config) (hnow : state.seen ≤ now)
    (hdue : shouldRefill config state.memory.lastLeaderRequestTimeMs now = true) :
    wrapLong (now - state.memory.bucket.lastRefillMs) ≤
      now - state.seen + config.refillRequestIntervalMs.1 := by
  have hinterval := hpos.interval
  have hlong := config.refillRequestIntervalMs.2
  rw [isLong, Bool.and_eq_true, decide_eq_true_eq, decide_eq_true_eq] at hlong
  obtain ⟨k, hwrap, hlow, hhigh⟩ :=
    exists_wrapLong_eq (now - state.memory.bucket.lastRefillMs)
  cases hlast : state.memory.lastLeaderRequestTimeMs with
  | none =>
      have hnew := h.new hlast
      omega
  | some leader =>
      obtain ⟨hled, hseen⟩ := h.led leader hlast
      obtain ⟨l, hwrapLed, hlowLed, -⟩ :=
        exists_wrapLong_eq (leader - state.memory.bucket.lastRefillMs)
      obtain ⟨m, hwrapSeen, hlowSeen, -⟩ := exists_wrapLong_eq (state.seen - leader)
      obtain ⟨j, hwrapDue, -, hhighDue⟩ := exists_wrapLong_eq (now - leader)
      rw [hlast, shouldRefill, decide_eq_true_eq] at hdue
      omega

/-- The state after the refill of a call. -/
def refilledAt (config : LocalTokensBucketStrategyConfig) (now : Int) (state : TokensState σ) :
    TokensState σ :=
  ⟨state.store, askForRefill config now state.memory, now⟩

/-- A refill is for the time since the last one, and not for more than an interval before
the last call. -/
theorem Kept.comeIn_le (h : Kept config state) (hpos : Positive config) (hnow : state.seen ≤ now)
    (hdue : shouldRefill config state.memory.lastLeaderRequestTimeMs now = true) :
    comeIn config state.memory now ≤ rate config * ((now : ℚ) - state.seen) +
        config.refillRequestedTokens.1 ∧
      comeIn config state.memory now ≤
        rate config * ((now : ℚ) - state.memory.bucket.lastRefillMs) := by
  have hrefilled := h.refilled_le
  have helapsed : (wrapLong (now - state.memory.bucket.lastRefillMs) : ℚ) ≤
      (now : ℚ) - state.seen + config.refillRequestIntervalMs.1 := by
    exact_mod_cast h.elapsed_le hpos hnow hdue
  have hsince : (wrapLong (now - state.memory.bucket.lastRefillMs) : ℚ) ≤
      (now : ℚ) - state.memory.bucket.lastRefillMs := by
    exact_mod_cast wrapLong_le (by omega)
  rw [comeIn_eq]
  constructor
  · calc rate config * (wrapLong (now - state.memory.bucket.lastRefillMs) : ℚ)
        ≤ rate config * ((now : ℚ) - state.seen + config.refillRequestIntervalMs.1) :=
          mul_le_mul_of_nonneg_left helapsed hpos.rate_pos.le
      _ = rate config * ((now : ℚ) - state.seen) + config.refillRequestedTokens.1 := by
          rw [mul_add, hpos.rate_mul_interval]
  · exact mul_le_mul_of_nonneg_left hsince hpos.rate_pos.le

theorem Kept.asked (h : Kept config state) (hpos : Positive config)
    (hnow : state.seen ≤ now) : Kept config (refilledAt config now state) := by
  have hrefilled := h.refilled_le
  have hzero : wrapLong (now - now) = 0 := by
    rw [sub_self]
    rfl
  rw [refilledAt]
  cases hdue : shouldRefill config state.memory.lastLeaderRequestTimeMs now with
  | false =>
      rw [askForRefill_of_not_due hdue]
      refine ⟨h.nonneg, h.le_capacity, hrefilled.trans hnow, ?_, ?_⟩
      · intro hnone
        rw [hnone] at hdue
        cases hdue
      · intro leader hleader
        rw [hleader, shouldRefill, decide_eq_false_iff_not, not_le] at hdue
        exact ⟨(h.led leader hleader).1, hdue⟩
  | true =>
      by_cases hadd : 0 < comeIn config state.memory now
      · obtain ⟨htokens, hlastRefill, hleader⟩ := askForRefill_of_due hdue hadd
        have hcapacity : (0 : ℚ) < config.capacity.1 := by
          exact_mod_cast hpos.capacity
        have hnonneg := h.nonneg
        constructor
        · rw [htokens]
          exact le_min hcapacity.le (by linarith)
        · rw [htokens]
          exact min_le_left _ _
        · exact hlastRefill.le
        · intro hnone
          exact hlastRefill
        · intro leader hled
          rw [hleader, Option.some.injEq] at hled
          rw [hlastRefill, ← hled, hzero]
          exact ⟨le_refl 0, hpos.interval⟩
      · rw [askForRefill_of_not_add hdue hadd]
        have hwrap : wrapLong (now - state.memory.bucket.lastRefillMs) ≤ 0 := by
          rw [comeIn_eq] at hadd
          by_contra hlt
          have hlt' : (0 : ℚ) < wrapLong (now - state.memory.bucket.lastRefillMs) := by
            exact_mod_cast not_le.mp hlt
          exact hadd (mul_pos hpos.rate_pos hlt')
        refine ⟨h.nonneg, h.le_capacity, hrefilled.trans hnow, ?_, ?_⟩
        · intro hnone
          cases hnone
        · intro leader hleader
          cases hleader
          rw [hzero]
          exact ⟨hwrap, hpos.interval⟩

/-- A call refills the bucket with no more than came in, or leaves it. -/
theorem refilledAt_cases (config : LocalTokensBucketStrategyConfig) (now : Int)
    (state : TokensState σ) :
    (shouldRefill config state.memory.lastLeaderRequestTimeMs now = true ∧
        (refilledAt config now state).memory.bucket.lastRefillMs = now ∧
        tokens (refilledAt config now state).memory ≤
          tokens state.memory + comeIn config state.memory now) ∨
      ((refilledAt config now state).memory.bucket.lastRefillMs =
          state.memory.bucket.lastRefillMs ∧
        tokens (refilledAt config now state).memory = tokens state.memory) := by
  rw [refilledAt]
  cases hdue : shouldRefill config state.memory.lastLeaderRequestTimeMs now with
  | false =>
      rw [askForRefill_of_not_due hdue]
      exact Or.inr ⟨rfl, rfl⟩
  | true =>
      by_cases hadd : 0 < comeIn config state.memory now
      · obtain ⟨htokens, hlastRefill, -⟩ := askForRefill_of_due hdue hadd
        rw [htokens]
        exact Or.inl ⟨rfl, hlastRefill, min_le_right _ _⟩
      · rw [askForRefill_of_not_add hdue hadd]
        exact Or.inr ⟨rfl, rfl⟩

/-- A call fills the bucket up before it takes. -/
theorem Kept.step_refilledAt (h : Kept config state) (hpos : Positive config)
    (hnow : state.seen ≤ now) : ∃ added,
      (bucket config).Step (now : ℚ) added 0 (level state)
        (level (refilledAt config now state)) := by
  have hasked := h.asked hpos hnow
  have hlater : (state.seen : ℚ) ≤ now := by
    exact_mod_cast hnow
  have hamount : tokens state.memory +
      (tokens (refilledAt config now state).memory - tokens state.memory) =
        tokens (refilledAt config now state).memory := by
    ring
  use tokens (refilledAt config now state).memory - tokens state.memory
  constructor
  · exact hlater
  · rfl
  · rw [level, level, hamount, sub_zero]
  · rw [level, hamount]
    exact ⟨le_refl 0, hasked.nonneg⟩
  · rw [level, hamount]
    exact hasked.le_capacity
  · obtain ⟨hdue, -, hadded⟩ | ⟨-, hkept⟩ := refilledAt_cases config now state
    · have hcomeIn := (h.comeIn_le hpos hnow hdue).1
      dsimp only [bucket, level]
      linarith
    · have hrefill : (0 : ℚ) ≤ config.refillRequestedTokens.1 := by
        exact_mod_cast hpos.refill.le
      have hpassed : 0 ≤ rate config * ((now : ℚ) - state.seen) :=
        mul_nonneg hpos.rate_pos.le (sub_nonneg.mpr hlater)
      dsimp only [bucket, level]
      linarith
  · obtain ⟨hdue, hlastRefill, hadded⟩ | ⟨hlastRefill, hkept⟩ := refilledAt_cases config now state
    · have hcomeIn := (h.comeIn_le hpos hnow hdue).2
      apply Or.inl
      dsimp only [bucket, level]
      rw [hlastRefill]
      exact ⟨rfl, by linarith⟩
    · apply Or.inr
      dsimp only [level]
      rw [hlastRefill, hkept, sub_self]
      exact ⟨rfl, rfl⟩

/-- A memory from which tokens are gone. -/
def lowered (memory : TokensMemory exactArithmetic) (less : ℚ) : TokensMemory exactArithmetic :=
  { memory with bucket := { memory.bucket with tokens := (tokens memory - less : ℚ) } }

theorem tokens_lowered (memory : TokensMemory exactArithmetic) (less : ℚ) :
    tokens (lowered memory less) = tokens memory - less := rfl

theorem lowered_zero (memory : TokensMemory exactArithmetic) : lowered memory 0 = memory := by
  rw [lowered, sub_zero]
  rfl

theorem le_tokens (increment : Int) (memory : TokensMemory exactArithmetic) :
    exactArithmetic.le (exactArithmetic.ofLong increment) memory.bucket.tokens =
      decide ((increment : ℚ) ≤ tokens memory) := rfl

theorem take_eq (increment : Int) (memory : TokensMemory exactArithmetic) :
    take increment memory =
      if (increment : ℚ) ≤ tokens memory then lowered memory increment else memory := by
  rw [take, le_tokens]
  by_cases hle : (increment : ℚ) ≤ tokens memory
  · rw [if_pos (decide_eq_true hle), if_pos hle]
    rfl
  · rw [decide_eq_false hle, if_neg hle, if_neg Bool.false_ne_true]

/-- What a call takes is there after the refill. -/
theorem exists_lowered (strategy : StoreStrategy σ) (config : LocalTokensBucketStrategyConfig)
    (clock : ThrottlingClock) (key : Str) (increment : Nat) (allowedQuotas : AllowedQuota)
    (state : TokensState σ) : ∃ less : ℚ,
      (serve strategy config (.asked clock key increment allowedQuotas) state).memory =
          lowered (refilledAt config clock.now state).memory less ∧
        (less = 0 ∨ 0 ≤ less ∧ less ≤ tokens (refilledAt config clock.now state).memory) := by
  have hmemory := memory_of_checkAndIncrement strategy config clock key increment allowedQuotas
    (state.store, state.memory)
  rw [List.mem_cons, List.mem_singleton, take_eq] at hmemory
  obtain hnone | htake := hmemory
  · use 0
    rw [lowered_zero]
    exact ⟨hnone, Or.inl rfl⟩
  · split at htake
    case isTrue hle =>
      use ((increment : Int) : ℚ)
      refine ⟨htake, Or.inr ⟨?_, hle⟩⟩
      exact_mod_cast Nat.zero_le increment
    case isFalse =>
      use 0
      rw [lowered_zero]
      exact ⟨htake, Or.inl rfl⟩

theorem Kept.lower (h : Kept config state) {less : ℚ}
    (hless : 0 ≤ less ∧ less ≤ tokens state.memory) (store : σ) :
    Kept config ⟨store, lowered state.memory less, state.seen⟩ where
  nonneg := by
    rw [tokens_lowered]
    linarith
  le_capacity := by
    rw [tokens_lowered]
    linarith [h.le_capacity]
  refilled_le := h.refilled_le
  new := h.new
  led := h.led

theorem kept_created (store : σ) (hpos : Positive config) (now : Int) :
    Kept config ⟨store, created config now, now⟩ where
  nonneg := by
    have hcapacity : (0 : ℚ) < config.capacity.1 := by
      exact_mod_cast hpos.capacity
    exact hcapacity.le
  le_capacity := le_refl (config.capacity.1 : ℚ)
  refilled_le := le_refl now
  new := fun _ => rfl
  led := fun _ hleader => nomatch hleader

/-- The time an empty bucket takes to be full again, as the program computes it, is a
`Long`. -/
def Fits (config : LocalTokensBucketStrategyConfig) : Prop :=
  isLong (⌈(config.capacity.1 : ℚ) / (config.refillRequestedTokens.1 : ℚ)⌉ *
    config.refillRequestIntervalMs.1) = true

/-- The idle timeout is long enough for an empty bucket to be full again. -/
theorem capacity_le_of_idleTimeout (hpos : Positive config) (hfits : Fits config) {timeout : Int}
    (htimeout : RateLimiter.idleTimeout (.localTokensBucket config) = some timeout) :
    (config.capacity.1 : ℚ) ≤ rate config * timeout := by
  have hrefill : (0 : ℚ) < config.refillRequestedTokens.1 := by
    exact_mod_cast hpos.refill
  have hmax : max 1 config.refillRequestedTokens.1 = config.refillRequestedTokens.1 :=
    max_eq_right hpos.refill
  simp only [RateLimiter.idleTimeout] at htimeout
  rw [hmax, wrapLong_of_isLong hfits, Option.ite_none_right_eq_some, Option.some.injEq] at htimeout
  have hle : ((⌈(config.capacity.1 : ℚ) / config.refillRequestedTokens.1⌉ *
      config.refillRequestIntervalMs.1 : Int) : ℚ) ≤ timeout := by
    rw [← htimeout.2]
    exact_mod_cast le_max_right _ _
  push_cast at hle
  calc (config.capacity.1 : ℚ)
      = config.refillRequestedTokens.1 *
          ((config.capacity.1 : ℚ) / config.refillRequestedTokens.1) := by
        rw [mul_div_cancel₀ _ hrefill.ne']
    _ ≤ config.refillRequestedTokens.1 *
          ⌈(config.capacity.1 : ℚ) / config.refillRequestedTokens.1⌉ :=
        mul_le_mul_of_nonneg_left (Int.le_ceil _) hrefill.le
    _ = rate config * (⌈(config.capacity.1 : ℚ) / config.refillRequestedTokens.1⌉ *
          config.refillRequestIntervalMs.1) := by
        rw [← hpos.rate_mul_interval]
        ring
    _ ≤ rate config * timeout := mul_le_mul_of_nonneg_left hle hpos.rate_pos.le

/-- What is created after the idle timeout has no more than came in since the last call. -/
theorem Kept.step_created (h : Kept config state) (hpos : Positive config) (hfits : Fits config)
    (hpossible : Possible config (.recreated now) state) : ∃ added,
      (bucket config).Step (now : ℚ) added 0 (level state)
        (level ⟨state.store, created config now, now⟩) := by
  obtain ⟨hnow, hidle⟩ := hpossible
  obtain ⟨timeout, htimeout, helapsed⟩ := hidle now rfl
  have hlater : (state.seen : ℚ) ≤ now := by
    exact_mod_cast hnow
  have hrefill : (0 : ℚ) ≤ config.refillRequestedTokens.1 := by
    exact_mod_cast hpos.refill.le
  have hcapacity : (0 : ℚ) ≤ config.capacity.1 := by
    exact_mod_cast hpos.capacity.le
  have hsince : (timeout : ℚ) ≤ (now : ℚ) - state.seen := by
    exact_mod_cast helapsed
  have hrefilled : (state.memory.bucket.lastRefillMs : ℚ) ≤ state.seen := by
    exact_mod_cast h.refilled_le
  have hfull := capacity_le_of_idleTimeout hpos hfits htimeout
  have hseen : rate config * timeout ≤ rate config * ((now : ℚ) - state.seen) :=
    mul_le_mul_of_nonneg_left hsince hpos.rate_pos.le
  have hfilled : rate config * ((now : ℚ) - state.seen) ≤
      rate config * ((now : ℚ) - state.memory.bucket.lastRefillMs) :=
    mul_le_mul_of_nonneg_left (by linarith) hpos.rate_pos.le
  have hnonneg := h.nonneg
  have hcreated : tokens (created config now) = config.capacity.1 := rfl
  use config.capacity.1 - tokens state.memory
  constructor
  · exact hlater
  · rfl
  · dsimp only [level]
    rw [hcreated]
    ring
  · dsimp only [level]
    constructor
    · exact le_refl 0
    · linarith
  · dsimp only [level, bucket]
    linarith
  · dsimp only [level, bucket]
    linarith
  · apply Or.inl
    dsimp only [level, bucket]
    exact ⟨rfl, by linarith⟩

/-- One event is one step of the bucket. -/
theorem Kept.serve (h : Kept config state) (strategy : StoreStrategy σ) (hpos : Positive config)
    (hfits : Fits config) {event : TokensEvent} (hpossible : Possible config event state) :
    Kept config (serve strategy config event state) ∧ ∃ added,
      (bucket config).Step (event.instant : ℚ) added (taken strategy config event state)
        (level state) (level (serve strategy config event state)) := by
  cases event with
  | recreated now => exact ⟨kept_created state.store hpos now, h.step_created hpos hfits hpossible⟩
  | asked clock key increment allowedQuotas =>
      have hasked := h.asked hpos hpossible.1
      obtain ⟨added, hstep⟩ := h.step_refilledAt hpos hpossible.1
      obtain ⟨less, hmemory, hless⟩ :=
        exists_lowered strategy config clock key increment allowedQuotas state
      have hbounds : 0 ≤ less ∧ less ≤ tokens (refilledAt config clock.now state).memory := by
        obtain rfl | hless := hless
        · exact ⟨le_refl 0, hasked.nonneg⟩
        · exact hless
      have htaken : taken strategy config (.asked clock key increment allowedQuotas) state =
          less := by
        rw [taken, hmemory, tokens_lowered]
        exact sub_sub_cancel _ _
      have hstate : LocalTokensBucketStrategy.serve strategy config
          (.asked clock key increment allowedQuotas) state =
            ⟨(LocalTokensBucketStrategy.serve strategy config
              (.asked clock key increment allowedQuotas) state).store,
              lowered (refilledAt config clock.now state).memory less, clock.now⟩ := by
        rw [← hmemory]
        rfl
      rw [htaken, hstate]
      refine ⟨hasked.lower hbounds _, added, ?_⟩
      have htake := hstep.take hbounds
      rw [zero_add] at htake
      exact htake

/-! ## Runs -/

/-- An event of a run is possible in the state that it meets. -/
def PossibleRun (strategy : StoreStrategy σ) (config : LocalTokensBucketStrategyConfig) :
    TokensState σ → List TokensEvent → Prop :=
  Along (serve strategy config) fun state event _ => Possible config event state

theorem Kept.along {events : List TokensEvent} (h : Kept config state) (hpos : Positive config)
    (hfits : Fits config) (hrun : PossibleRun strategy config state events) :
    Along (LocalTokensBucketStrategy.serve strategy config) (fun state event _ =>
      Kept config (LocalTokensBucketStrategy.serve strategy config event state)) state events := by
  induction events generalizing state with
  | nil => trivial
  | cons event events ih =>
      have hafter := (h.serve strategy hpos hfits hrun.1).1
      exact ⟨hafter, ih hafter hrun.2⟩

theorem Kept.exists_takes {events : List TokensEvent} (h : Kept config state)
    (hpos : Positive config) (hfits : Fits config)
    (hrun : PossibleRun strategy config state events) :
    ∃ after, (bucket config).Takes ((takings strategy config events state).map fun taking =>
      ((taking.1 : ℚ), taking.2)) (level state) after := by
  induction events generalizing state with
  | nil => exact ⟨level state, rfl⟩
  | cons event events ih =>
      obtain ⟨hafter, added, hstep⟩ := h.serve strategy hpos hfits hrun.1
      obtain ⟨after, htakes⟩ := ih hafter hrun.2
      exact ⟨after, _, ⟨added, hstep⟩, htakes⟩

theorem Kept.proper (h : Kept config state) : (bucket config).Proper (level state) where
  nonneg := h.nonneg
  le_capacity := h.le_capacity
  filled_le := Int.cast_le.mpr h.refilled_le

theorem takenWithin_eq (start last : Int) (takings : List (Int × ℚ)) :
    takenWithin start last takings =
      (((takings.map fun taking => ((taking.1 : ℚ), taking.2)).filter fun taking =>
        (start : ℚ) ≤ taking.1 ∧ taking.1 ≤ (last : ℚ)).map Prod.snd).sum := by
  rw [takenWithin, List.filter_map, List.map_map]
  congr 2
  apply List.filter_congr
  intro taking _
  simp only [Function.comp_apply, Int.cast_le]

/-- From the creation of a strategy on: in an interval of time no more tokens are taken than
the capacity, a late refill and what comes in during the interval; there are never more
tokens than the capacity, or less than none; and a call that a quota turns away takes
none. -/
theorem taken_within_le (strategy : StoreStrategy σ) (config : LocalTokensBucketStrategyConfig)
    (hpos : Positive config) (hfits : Fits config) (store : σ) (instant : Int)
    (events : List TokensEvent)
    (hrun : PossibleRun strategy config ⟨store, created config instant, instant⟩ events) :
    (∀ start last : Int, start ≤ last →
      takenWithin start last
          (takings strategy config events ⟨store, created config instant, instant⟩) ≤
        (config.capacity.1 : ℚ) +
          min (config.capacity.1 : ℚ) (config.refillRequestedTokens.1 : ℚ) +
          (last - start) * config.refillRequestedTokens.1 / config.refillRequestIntervalMs.1) ∧
      Along (serve strategy config) (fun state event _ =>
        0 ≤ tokens (serve strategy config event state).memory ∧
          tokens (serve strategy config event state).memory ≤ (config.capacity.1 : ℚ) ∧
          (TurnedAway strategy event state → taken strategy config event state = 0))
        ⟨store, created config instant, instant⟩ events := by
  have hkept := kept_created store hpos instant
  constructor
  · intro start last hinterval
    obtain ⟨after, htakes⟩ := hkept.exists_takes hpos hfits hrun
    have hslack : 0 ≤ (bucket config).slack := Int.cast_nonneg hpos.refill.le
    have hinterval' : (start : ℚ) ≤ last := by
      exact_mod_cast hinterval
    have hrate : (last - start : ℚ) * config.refillRequestedTokens.1 /
        config.refillRequestIntervalMs.1 = (bucket config).rate * (last - start) := by
      rw [mul_div_assoc, mul_comm]
      rfl
    rw [takenWithin_eq, hrate]
    exact Bucket.taken_between_le hpos.rate_pos.le hslack hkept.proper hinterval' htakes
  · apply along_of_suffix _ (hkept.along hpos hfits hrun)
    intro state event rest hafter
    exact ⟨hafter.1.nonneg, hafter.1.le_capacity, taken_of_turnedAway⟩

end Rate

/-! ## An example -/

section Example

/-- A bucket of two tokens that is refilled every two seconds. -/
def exampleConfig : LocalTokensBucketStrategyConfig where
  bucketKey := "bucket".toList
  capacity := ⟨2, isLong_two⟩
  refillRequestIntervalMs := ⟨2000, rfl⟩
  refillRequestedTokens := ⟨2, isLong_two⟩

/-- Calls at some instants. -/
def callsAt (instants : List Int) : List TokensEvent :=
  instants.map fun now => .asked (.at now) "key".toList 1 {}

/-- The strategy of the example, created at the epoch. -/
def exampleState : TokensState Memory := ⟨.empty, created exampleConfig 0, 0⟩

/-- Calls are possible at instants that do not decrease. -/
theorem possibleRun_callsAt (strategy : StoreStrategy σ) (config : LocalTokensBucketStrategyConfig)
    {instants : List Int} {state : TokensState σ}
    (h : List.IsChain (· ≤ ·) (state.seen :: instants)) :
    PossibleRun strategy config state (callsAt instants) := by
  induction instants generalizing state with
  | nil => trivial
  | cons now instants ih =>
      rw [List.isChain_cons_cons] at h
      refine ⟨⟨h.1, ?_⟩, ih h.2⟩
      intro now' hevent
      cases hevent

theorem positive_exampleConfig : Positive exampleConfig := ⟨by decide, by decide, by decide⟩

theorem fits_exampleConfig : Fits exampleConfig := by
  rw [Fits]
  decide +kernel

/-- The last call finds no token. -/
example : takings StoreStrategy.exampleStore exampleConfig
    (callsAt [0, 1999, 2000, 2000, 2000]) exampleState =
      [(0, 1), (1999, 1), (2000, 1), (2000, 1), (2000, 0)] := by
  decide +kernel

/-- The calls take at most four tokens, and what comes in in a millisecond. -/
theorem taken_within_le_example :
    takenWithin 1999 2000 (takings StoreStrategy.exampleStore exampleConfig
        (callsAt [0, 1999, 2000, 2000, 2000]) exampleState) ≤
      2 + min 2 2 + ((2000 : Int) - (1999 : Int)) * 2 / 2000 :=
  (taken_within_le StoreStrategy.exampleStore exampleConfig positive_exampleConfig
    fits_exampleConfig .empty 0 (callsAt [0, 1999, 2000, 2000, 2000])
    (possibleRun_callsAt _ _ (by decide))).1 1999 2000 (by decide)

/-- Within a millisecond three tokens are taken of a bucket of two that gets one in a
second: what was left, and then what came late. -/
theorem exists_taken_gt : ¬ ∀ (config : LocalTokensBucketStrategyConfig) (instant : Int)
    (events : List TokensEvent), Positive config →
    PossibleRun StoreStrategy.exampleStore config ⟨.empty, created config instant, instant⟩ events →
    ∀ start last : Int, start ≤ last →
      takenWithin start last (takings StoreStrategy.exampleStore config events
          ⟨.empty, created config instant, instant⟩) ≤
        (config.capacity.1 : ℚ) +
          (last - start) * config.refillRequestedTokens.1 / config.refillRequestIntervalMs.1 := by
  intro h
  have hbound := h exampleConfig 0 (callsAt [0, 1999, 2000, 2000, 2000]) positive_exampleConfig
    (possibleRun_callsAt _ _ (by decide)) 1999 2000 (by decide)
  revert hbound
  decide +kernel

end Example

end LocalTokensBucketStrategy

end Otoroshi
