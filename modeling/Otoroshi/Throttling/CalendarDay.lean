/-
# The limits of a day and of a month

The counters of the day and of the month expire. The first call of the day gives its
counter a life time in whole seconds, up to the last second of the day, and from a clock
that it reads twice. So the counter can be gone before the day is, and a call in the
last second of the day gives it no life time at all: the counter is removed as soon as
it is counted.

While neither happens, the limit holds for the whole day, and for the month: `InTime`
is what every call of the day has to meet. It is met by all calls outside the last two
seconds (`inTime_of_early`).
-/

import Otoroshi.Storage.ExpiringCounters
import Otoroshi.Throttling.Quota

namespace Otoroshi

open Stateful CounterEntry

/-- The reads of the clock, and the times of all commands. -/
def CountedCall.instants (call : CountedCall) : List Int :=
  [call.readForDayEnd, call.readToDayEnd, call.readForMonthEnd, call.readToMonthEnd] ++
    [CallCounter.window, .day, .month, .total].flatMap fun counter =>
      [(call.commands counter).incrby, (call.commands counter).pttl,
        (call.commands counter).expire]

def ThrottlingClock.instants (clock : ThrottlingClock) : List Int :=
  [clock.now, clock.readDayEnd, clock.readMonthEnd, clock.window, clock.windowTtl, clock.daily,
    clock.monthly] ++ clock.counted.instants

theorem ThrottlingClock.read_mem_instants (clock : ThrottlingClock) :
    clock.daily ∈ clock.instants ∧ clock.monthly ∈ clock.instants := by
  simp [instants]

theorem ThrottlingClock.counted_mem_instants (clock : ThrottlingClock) (counter : CallCounter) :
    (clock.counted.commands counter).incrby ∈ clock.instants ∧
      (clock.counted.commands counter).expire ∈ clock.instants := by
  cases counter <;> simp [instants, CountedCall.instants]

/-- One period of a calendar: the instants from its first one to the next period. -/
structure Stretch (period : Period) where
  first : Int
  next : Int
  spans : ∀ t, first ≤ t ∧ t < next ↔ period.next t = next

/-- The call is made during the period. -/
def ThrottlingClock.During {period : Period} (clock : ThrottlingClock) (stretch : Stretch period) :
    Prop :=
  ∀ t ∈ clock.instants, stretch.first ≤ t ∧ t < stretch.next

/-- The periods that have a limit and a counter that expires. -/
inductive LimitedPeriod
  | day
  | month

namespace LimitedPeriod

def counter : LimitedPeriod → CallCounter
  | day => .day
  | month => .month

def period (calendar : Calendar) : LimitedPeriod → Period
  | day => calendar.day
  | month => calendar.month

def limit (quotas : AllowedQuota) : LimitedPeriod → Long
  | day => quotas.daily
  | month => quotas.monthly

/-- When the counter is read. -/
def read (clock : ThrottlingClock) : LimitedPeriod → Int
  | day => clock.daily
  | month => clock.monthly

theorem read_mem_instants (limited : LimitedPeriod) (clock : ThrottlingClock) :
    limited.read clock ∈ clock.instants := by
  cases limited with
  | day => exact clock.read_mem_instants.1
  | month => exact clock.read_mem_instants.2

/-- The two reads of the clock for the life time of the counter. -/
def readForEnd (call : CountedCall) : LimitedPeriod → Int
  | day => call.readForDayEnd
  | month => call.readForMonthEnd

def readToEnd (call : CountedCall) : LimitedPeriod → Int
  | day => call.readToDayEnd
  | month => call.readToMonthEnd

/-- The life time, in seconds, that a counted call gives the counter if it has none. -/
def lifeTime (calendar : Calendar) (call : CountedCall) : LimitedPeriod → Int
  | day => secondsUntil (calendar.dayEnd call.readForDayEnd) call.readToDayEnd
  | month => secondsUntil (calendar.monthEnd call.readForMonthEnd) call.readToMonthEnd

end LimitedPeriod

/-! ## What a call does to one counter -/

/-- The expiration that a counter has been given since an instant. -/
def expirationSince (first : Int) (entry : Option CounterEntry) : Option Int :=
  (entry.bind expireAt).filter (first ≤ ·)

/-- The counter has counted at least so many calls since an instant. -/
structure CountedSince (first : Int) (m : Nat) (entry : Option CounterEntry) : Prop where
  nonneg : ∀ e, entry = some e → 0 ≤ e.value
  counted : m = 0 ∨ ∃ e, entry = some e ∧ m ≤ e.value ∧ ∀ t, e.expireAt = some t → first ≤ t

section Entry

variable {first now seconds : Int} {m n : Nat} {entry : Option CounterEntry}

theorem expirationSince_eq_some_iff {t : Int} :
    expirationSince first entry = some t ↔
      (∃ e, entry = some e ∧ e.expireAt = some t) ∧ first ≤ t := by
  rw [expirationSince, Option.filter_eq_some_iff, Option.bind_eq_some_iff, decide_eq_true_eq]

/-- A counter that is seen without a limit was not given one that still runs. -/
theorem expirationSince_eq_none (hforever : (seen now entry).bind expireAt = none)
    (htime : ∀ t, expirationSince first entry = some t → now ≤ t) :
    expirationSince first entry = none := by
  cases hsince : expirationSince first entry with
  | none => rfl
  | some t =>
      obtain ⟨⟨e, hentry, hexpire⟩, -⟩ := expirationSince_eq_some_iff.mp hsince
      have hseen : seen now entry = some e := by
        rw [seen_eq_some_iff]
        refine ⟨hentry, fun t' ht' => ?_⟩
        rw [hexpire, Option.some.injEq] at ht'
        rw [← ht']
        exact htime t hsince
      rw [hseen, Option.bind_some, hexpire] at hforever
      cases hforever

/-- Two instants before the expiration see the same. -/
theorem seen_eq_seen {now' : Int} (hfirst : first ≤ now) (hfirst' : first ≤ now')
    (htime : ∀ t, expirationSince first entry = some t → now ≤ t)
    (htime' : ∀ t, expirationSince first entry = some t → now' ≤ t) :
    seen now entry = seen now' entry := by
  have hsame : ∀ e, entry = some e → lives now e = lives now' e := by
    intro e hentry
    rw [Bool.eq_iff_iff, lives_iff, lives_iff]
    apply forall_congr'
    intro t
    apply imp_congr_right
    intro hexpire
    by_cases hsince : first ≤ t
    · have ht := expirationSince_eq_some_iff.mpr ⟨⟨e, hentry, hexpire⟩, hsince⟩
      exact iff_of_true (htime t ht) (htime' t ht)
    · exact iff_of_false (by omega) (by omega)
  cases entry with
  | none => rfl
  | some e => rw [seen, seen, Option.filter_some, Option.filter_some, hsame e rfl]

theorem CountedSince.mono (h : CountedSince first n entry) (hle : m ≤ n) :
    CountedSince first m entry where
  nonneg := h.nonneg
  counted := by
    rcases h.counted with hzero | ⟨e, he, hvalue, hexpire⟩
    · exact .inl (by omega)
    · exact .inr ⟨e, he, by omega, hexpire⟩

/-- Before the expiration it was given, a counter that has counted calls is seen. -/
theorem CountedSince.le_number (h : CountedSince first m entry)
    (htime : ∀ t, expirationSince first entry = some t → now ≤ t) :
    (m : Int) ≤ number (seen now entry) := by
  rcases h.counted with rfl | ⟨e, he, hvalue, hexpire⟩
  · cases hseen : seen now entry with
    | none => exact Int.le_refl 0
    | some e => exact h.nonneg e (seen_eq_some_iff.mp hseen).1
  · have hseen : seen now entry = some e := by
      rw [seen_eq_some_iff]
      refine ⟨he, fun t ht => ?_⟩
      exact htime t (expirationSince_eq_some_iff.mpr ⟨⟨e, he, ht⟩, hexpire t ht⟩)
    rw [hseen]
    exact hvalue

/-- What was counted is one more, in the entry that an increment leaves. -/
theorem CountedSince.incrby (h : CountedSince first m entry) (hfirst : first ≤ now)
    (htime : ∀ t, expirationSince first entry = some t → now ≤ t) :
    CountedSince first (m + 1)
      (some ⟨number (seen now entry) + 1, (seen now entry).bind expireAt⟩) := by
  have hle := h.le_number htime
  constructor
  · intro e he
    cases he
    dsimp only
    omega
  · refine .inr ⟨_, rfl, by push_cast; omega, ?_⟩
    intro t ht
    obtain ⟨e, hseen, hexpire⟩ := Option.bind_eq_some_iff.mp ht
    exact hfirst.trans ((seen_eq_some_iff.mp hseen).2 t hexpire)

/-- A life time that is given later is one since the instant. -/
theorem CountedSince.limited {e : CounterEntry} (h : CountedSince first m (some e))
    (hfirst : first ≤ now) (hforever : e.expireAt = none) (hseconds : 0 < seconds) :
    CountedSince first m (limited now seconds (seen now (some e))) := by
  have hseen : seen now (some e) = some e := by
    rw [seen_eq_some_iff]
    refine ⟨rfl, fun t ht => ?_⟩
    rw [hforever] at ht
    cases ht
  rw [hseen, CounterEntry.limited, if_neg (by omega), Option.map_some]
  constructor
  · intro e' he'
    cases he'
    exact h.nonneg e rfl
  · rcases h.counted with hzero | ⟨e', he', hvalue, -⟩
    · exact .inl hzero
    · cases he'
      refine .inr ⟨_, rfl, hvalue, ?_⟩
      intro t ht
      cases ht
      omega

end Entry

/-! ## Counting a call -/

section Bump

variable {σ : Type} {P : StorePlatform} {client : CounterStore σ}
  {entries : σ → Str → Option CounterEntry} {key other : Str} {first seconds : Int} {m : Nat}
  {times : BumpTimes}

/-- Only a counter that lives forever is given a life time. -/
theorem expireAt_of_pttl {now : Int} {e : CounterEntry}
    (h : timeToLive now (seen now (some e)) = -1) : e.expireAt = none := by
  cases hseen : seen now (some e) with
  | none =>
      rw [hseen] at h
      cases h
  | some found =>
      obtain ⟨hsome, hlives⟩ := seen_eq_some_iff.mp hseen
      cases hsome
      rw [hseen] at h
      cases hexpire : e.expireAt with
      | none => rfl
      | some t =>
          have hle := hlives t hexpire
          simp only [timeToLive, hexpire] at h
          omega

/-- The counter is asked how long it lives. -/
theorem triple_pttl (hredis : client.FollowsRedis P entries) {now : Int}
    {entry : Option CounterEntry} {failed : σ → Prop}
    (hfailed : ∀ state, entries state key = entry → failed state) :
    Triple (fun state => entries state key = entry) (client.pttl now key)
      (fun ttl state => entries state key = entry ∧
        ttl = timeToLive now (seen now (entries state key))) failed := by
  intro state hstate
  have hentries := hredis.pttl now key state
  constructor
  · intro ttl after hrun
    rw [hrun] at hentries
    dsimp only at hentries
    rw [hentries]
    exact ⟨hstate, hredis.pttl_ok _ _ _ _ _ hrun⟩
  · intro e after hrun
    rw [hrun] at hentries
    apply hfailed
    dsimp only at hentries
    rw [hentries]
    exact hstate

/-- A counter that lives forever is given a life time. -/
theorem triple_expire (hredis : client.FollowsRedis P entries) {now : Int} {e : CounterEntry}
    (hcounted : CountedSince first m (some e)) (hfirst : first ≤ now)
    (hforever : e.expireAt = none) (hseconds : 0 < seconds) :
    Triple (fun state => entries state key = some e) (client.expire now key seconds)
      (fun _ state => CountedSince first m (entries state key))
      (fun state => CountedSince first m (entries state key)) := by
  intro state hstate
  constructor
  · intro answer after hrun
    rw [hredis.expire_ok _ _ _ _ _ _ hrun, Function.update_self, hstate]
    exact hcounted.limited hfirst hforever hseconds
  · intro error after hrun
    rw [hredis.expire_error _ _ _ _ _ _ hrun, hstate]
    exact hcounted

/-- A counter that was incremented is given a life time if it has none. -/
theorem triple_lifeTime (hredis : client.FollowsRedis P entries) {e : CounterEntry}
    (hcounted : CountedSince first m (some e)) (hfirst : first ≤ times.expire)
    (hseconds : e.expireAt = none → 0 < seconds) (calls : Int) :
    Triple (fun state => entries state key = some e)
      (do
        let ttl ← client.pttl times.pttl key
        if ttl = -1 then
          let _ ← client.expire times.expire key seconds
          pure calls
        else pure calls)
      (fun _ state => CountedSince first m (entries state key))
      (fun state => CountedSince first m (entries state key)) := by
  have hkept : ∀ state, entries state key = some e → CountedSince first m (entries state key) := by
    intro state hstate
    rw [hstate]
    exact hcounted
  apply triple_bind (triple_pttl hredis hkept)
  intro ttl state hstate
  split
  case isTrue hminus =>
    have hanswer : timeToLive times.pttl (seen times.pttl (some e)) = -1 := by
      rw [← hstate.1, ← hstate.2, hminus]
    have hforever := expireAt_of_pttl hanswer
    apply triple_bind (triple_expire hredis hcounted hfirst hforever (hseconds hforever))
    · intro answer
      exact triple_pure fun _ h => h
    · exact hstate.1
  case isFalse hliving =>
    exact triple_pure (fun state hstate => hkept state hstate) state hstate.1

/-- A counted call is counted, unless the counter can expire before or is given no time
to live. -/
theorem triple_bump (hredis : client.FollowsRedis P entries) {entry : Option CounterEntry}
    (hcounted : CountedSince first m entry) (hincrby : first ≤ times.incrby)
    (hexpire : first ≤ times.expire)
    (htime : ∀ t, expirationSince first entry = some t → times.incrby ≤ t)
    (hseconds : expirationSince first entry = none → 0 < seconds) :
    Triple (fun state => entries state key = entry) (client.bump times key 1 seconds)
      (fun _ state => CountedSince first (m + 1) (entries state key) ∧
        isLong (number (seen times.incrby entry) + 1) = true)
      (fun state => CountedSince first m (entries state key)) := by
  have hnext := hcounted.incrby hincrby htime
  have hcount : Triple (fun state => entries state key = entry)
      (client.incrby times.incrby key 1)
      (fun _ state => entries state key =
          some ⟨number (seen times.incrby entry) + 1, (seen times.incrby entry).bind expireAt⟩ ∧
        isLong (number (seen times.incrby entry) + 1) = true)
      (fun state => CountedSince first m (entries state key)) := by
    intro state hentry
    constructor
    · intro calls after hrun
      obtain ⟨hcalls, hlong, hentries⟩ := hredis.incrby_ok _ _ _ _ _ _ hrun
      rw [hcalls, hentry] at hentries hlong
      rw [hentries, Function.update_self]
      exact ⟨rfl, hlong⟩
    · intro e after hrun
      rw [hredis.incrby_error _ _ _ _ _ _ hrun, hentry]
      exact hcounted
  have hlimited : (seen times.incrby entry).bind expireAt = none → 0 < seconds := by
    intro hforever
    exact hseconds (expirationSince_eq_none hforever htime)
  apply triple_bind hcount
  intro calls state hstate
  obtain ⟨hdone, hfailed⟩ := triple_lifeTime hredis hnext hexpire hlimited calls state hstate.1
  constructor
  · intro calls' after hrun
    exact ⟨hdone calls' after hrun, hstate.2⟩
  · intro e after hrun
    exact (hfailed e after hrun).mono (by omega)

end Bump

/-! ## A call -/

namespace StoreStrategy

variable {σ : Type} (strategy : StoreStrategy σ)

/-- The numbers that a check reads for the limits. -/
def countsSeen (clock : ThrottlingClock) (key : Str) (entries : Str → Option CounterEntry) :
    CallCounter → Int
  | .window => number (seen clock.window (entries (strategy.throttlingKey key)))
  | .day => number (seen clock.daily (entries (strategy.dailyQuotaKey key)))
  | .month => number (seen clock.monthly (entries (strategy.monthlyQuotaKey key)))
  | .total => 0

/-- The call meets the counter of the period before the expiration that it was given in
the period, and if it counts and the counter was given none, it gives it a positive life
time. -/
structure InTime (limited : LimitedPeriod) (first : Int) (clock : ThrottlingClock) (key : Str)
    (allowedQuotas : AllowedQuota) (entries : Str → Option CounterEntry) : Prop where
  read : ∀ t,
    expirationSince first (entries (strategy.counterKey key limited.counter)) = some t →
      limited.read clock ≤ t
  counted : allowedQuotas.accepts (strategy.countsSeen clock key entries) = true → ∀ t,
    expirationSince first (entries (strategy.counterKey key limited.counter)) = some t →
      (clock.counted.commands limited.counter).incrby ≤ t
  limited : allowedQuotas.accepts (strategy.countsSeen clock key entries) = true →
    expirationSince first (entries (strategy.counterKey key limited.counter)) = none →
      0 < limited.lifeTime strategy.calendar clock.counted

/-- The calls of a run that are accepted. A call that throws is not. -/
def accepted (key : Str) (allowedQuotas : AllowedQuota) (expirationSeconds : Int) :
    List ThrottlingClock → σ → Nat
  | [], _ => 0
  | clock :: clocks, state =>
      match strategy.checkAndIncrement clock key 1 allowedQuotas expirationSeconds state with
      | (.ok result, after) =>
          result.allowed.toNat + accepted key allowedQuotas expirationSeconds clocks after
      | (.error _, after) => accepted key allowedQuotas expirationSeconds clocks after

variable {strategy} {entries : σ → Str → Option CounterEntry} {clock : ThrottlingClock} {key : Str}
  {allowedQuotas : AllowedQuota} {state : σ} {first : Int} {m : Nat} {limited : LimitedPeriod}
  {expirationSeconds : Int}

/-- A check changes no entry. -/
theorem keeps_check (hredis : strategy.client.FollowsRedis strategy.platform entries)
    {seenEntries : Str → Option CounterEntry} :
    Keeps (fun state => entries state = seenEntries)
      (strategy.check clock key allowedQuotas) := by
  have hcalls : ∀ now key, Keeps (fun state => entries state = seenEntries)
      (strategy.calls now key) := by
    intro now key state hstate
    rw [calls, hredis.count]
    exact hstate
  apply keeps_bind (hcalls _ _)
  intro _ _ _ _
  apply keeps_bind
  · intro state hstate
    rw [hredis.pttl]
    exact hstate
  · intro _ _ _ _
    apply keeps_bind (hcalls _ _)
    intro _ _ _ _
    apply keeps_bind (hcalls _ _)
    intro _ _ _ _
    exact keeps_pure _

/-- A check answers for the numbers that it sees. -/
theorem allowed_of_check_seen (hredis : strategy.client.FollowsRedis strategy.platform entries)
    {current : ThrottlingResult} {after : σ}
    (h : strategy.check clock key allowedQuotas state = (.ok current, after)) :
    current.quotas.acceptsMore 1 =
        allowedQuotas.accepts (strategy.countsSeen clock key (entries state)) ∧
      ∀ counter, isLong (strategy.countsSeen clock key (entries state) counter) = true := by
  have hread : ∀ {now key state n after}, strategy.calls now key state = (.ok n, after) →
      entries after = entries state := by
    intro now key state n after hcalls
    have hcount := hredis.count now key state
    rw [calls] at hcalls
    rwa [hcalls] at hcount
  obtain ⟨window, windowed, hwindow, h⟩ := exists_of_bind h
  obtain ⟨ttl, asked, hpttl, h⟩ := exists_of_bind h
  obtain ⟨daily, dailyRead, hdaily, h⟩ := exists_of_bind h
  obtain ⟨monthly, monthlyRead, hmonthly, h⟩ := exists_of_bind h
  have hasked : entries asked = entries state := by
    have hentries := hredis.pttl clock.windowTtl (strategy.throttlingKey key) windowed
    rw [hpttl] at hentries
    exact hentries.trans (hread hwindow)
  have hwindowSeen := hredis.count_ok hwindow
  have hdailySeen := hredis.count_ok hdaily
  have hmonthlySeen := hredis.count_ok hmonthly
  rw [hasked] at hdailySeen
  rw [hread hdaily, hasked] at hmonthlySeen
  cases h
  constructor
  · rw [AllowedQuota.accepts, countsSeen, countsSeen, countsSeen, ← hwindowSeen, ← hdailySeen,
      ← hmonthlySeen]
    rfl
  · intro counter
    cases counter with
    | window =>
        rw [countsSeen, ← hwindowSeen]
        exact CounterStore.isLong_of_count hwindow
    | day =>
        rw [countsSeen, ← hdailySeen]
        exact CounterStore.isLong_of_count hdaily
    | month =>
        rw [countsSeen, ← hmonthlySeen]
        exact CounterStore.isLong_of_count hmonthly
    | total => rfl

/-- The counter of the period is counted with the other one. -/
theorem triple_incrementDailyAndMonthly
    (hredis : strategy.client.FollowsRedis strategy.platform entries) {call : CountedCall}
    {entry : Option CounterEntry} (hcounted : CountedSince first m entry)
    (hincrby : first ≤ (call.commands limited.counter).incrby)
    (hexpire : first ≤ (call.commands limited.counter).expire)
    (htime : ∀ t, expirationSince first entry = some t →
      (call.commands limited.counter).incrby ≤ t)
    (hseconds : expirationSince first entry = none →
      0 < limited.lifeTime strategy.calendar call) :
    Triple (fun state => entries state (strategy.counterKey key limited.counter) = entry)
      (strategy.incrementDailyAndMonthly call key 1)
      (fun _ state =>
        CountedSince first (m + 1) (entries state (strategy.counterKey key limited.counter)) ∧
          isLong (number (seen (call.commands limited.counter).incrby entry) + 1) = true)
      (fun state =>
        CountedSince first m (entries state (strategy.counterKey key limited.counter))) := by
  have hkeys := strategy.counterKey_injective key
  have hbump : Triple
      (fun state => entries state (strategy.counterKey key limited.counter) = entry)
      (strategy.client.bump (call.commands limited.counter)
        (strategy.counterKey key limited.counter) 1 (limited.lifeTime strategy.calendar call))
      (fun _ state =>
        CountedSince first (m + 1) (entries state (strategy.counterKey key limited.counter)) ∧
          isLong (number (seen (call.commands limited.counter).incrby entry) + 1) = true)
      (fun state =>
        CountedSince first m (entries state (strategy.counterKey key limited.counter))) :=
    triple_bump hredis hcounted hincrby hexpire htime hseconds
  have hkept : ∀ state, entries state (strategy.counterKey key limited.counter) = entry →
      CountedSince first m (entries state (strategy.counterKey key limited.counter)) := by
    intro state hstate
    rw [hstate]
    exact hcounted
  cases limited with
  | day =>
      have hother : strategy.dailyQuotaKey key ≠ strategy.monthlyQuotaKey key :=
        hkeys.ne (by decide)
      apply triple_bind hbump
      intro daily
      apply triple_bind
      · apply Keeps.triple (hredis.keeps_bump
          (fun e => CountedSince first (m + 1) e ∧
            isLong (number (seen (call.commands .day).incrby entry) + 1) = true) hother _ _ _)
        intro state hstate
        exact hstate.1.mono (by omega)
      · intro monthly
        exact triple_pure fun _ h => h
  | month =>
      have hother : strategy.monthlyQuotaKey key ≠ strategy.dailyQuotaKey key :=
        hkeys.ne (by decide)
      apply triple_bind
      · apply Keeps.triple (hredis.keeps_bump (fun e => e = entry) hother _ _ _)
        exact hkept
      · intro daily
        apply triple_bind hbump
        intro monthly
        exact triple_pure fun _ h => h

variable (strategy limited) in
/-- The key of the counter of a period is neither that of the window nor that of the
total. -/
theorem counterKey_limited_ne (key : Str) :
    strategy.counterKey key limited.counter ≠ strategy.throttlingKey key ∧
      strategy.counterKey key limited.counter ≠ strategy.totalCallsKey key := by
  have hkeys := strategy.counterKey_injective key
  cases limited with
  | day => exact ⟨hkeys.ne (by decide), hkeys.ne (by decide)⟩
  | month => exact ⟨hkeys.ne (by decide), hkeys.ne (by decide)⟩

theorem keeps_incrementWindow (hredis : strategy.client.FollowsRedis strategy.platform entries)
    (holds : Option CounterEntry → Prop) {other : Str} {times : BumpTimes} {increment : Int}
    (hne : other ≠ strategy.throttlingKey key) :
    Keeps (fun state => holds (entries state other))
      (strategy.incrementWindow times key increment expirationSeconds) :=
  CounterStore.keeps_countAndLimit (hredis.keeps_incrby holds hne _ _)
    (hredis.keeps_pttl holds _ _) (hredis.keeps_expire holds hne _ _)
    (fun calls _ => (calls, wrapLong (expirationSeconds * 1000))) (fun calls ttl => (calls, ttl))

theorem triple_incrementCounters
    (hredis : strategy.client.FollowsRedis strategy.platform entries)
    {entry : Option CounterEntry} (hcounted : CountedSince first m entry)
    (hincrby : first ≤ (clock.counted.commands limited.counter).incrby)
    (hexpire : first ≤ (clock.counted.commands limited.counter).expire)
    (htime : ∀ t, expirationSince first entry = some t →
      (clock.counted.commands limited.counter).incrby ≤ t)
    (hseconds : expirationSince first entry = none →
      0 < limited.lifeTime strategy.calendar clock.counted) :
    Triple (fun state => entries state (strategy.counterKey key limited.counter) = entry)
      (strategy.incrementCounters clock key 1 allowedQuotas expirationSeconds)
      (fun _ state =>
        CountedSince first (m + 1) (entries state (strategy.counterKey key limited.counter)) ∧
          isLong (number (seen (clock.counted.commands limited.counter).incrby entry) + 1) = true)
      (fun state =>
        CountedSince first m (entries state (strategy.counterKey key limited.counter))) := by
  obtain ⟨hwindow, htotal⟩ := counterKey_limited_ne strategy limited key
  apply triple_bind
  · apply Keeps.triple (keeps_incrementWindow hredis (fun e => e = entry) hwindow)
    intro state hstate
    rw [hstate]
    exact hcounted
  · intro window
    apply triple_bind
      (triple_incrementDailyAndMonthly hredis hcounted hincrby hexpire htime hseconds)
    intro calls
    apply triple_bind
    · apply Keeps.triple (hredis.keeps_incrby
        (fun e => CountedSince first (m + 1) e ∧
          isLong (number (seen (clock.counted.commands limited.counter).incrby entry) + 1) = true)
        htotal _ _)
      intro state hstate
      exact hstate.1.mono (by omega)
    · intro total
      exact triple_pure fun _ h => h

/-- A call that fits fits under the limit of the period. -/
theorem lt_limit_of_accepts {counts : CallCounter → Int}
    (hlong : isLong (counts limited.counter) = true)
    (hnext : isLong (counts limited.counter + 1) = true)
    (haccepts : allowedQuotas.accepts counts = true) :
    counts limited.counter + 1 ≤ (limited.limit allowedQuotas).1 := by
  rw [AllowedQuota.accepts, Bool.and_eq_true, Bool.and_eq_true] at haccepts
  have hfits : Quota.acceptsMore
      { limit := (limited.limit allowedQuotas).1, consumed := counts limited.counter } 1 =
        true := by
    cases limited with
    | day => exact haccepts.1.2
    | month => exact haccepts.2
  have hlimit := (limited.limit allowedQuotas).2
  have hlimit' := hlimit
  rw [isLong, Bool.and_eq_true, decide_eq_true_eq, decide_eq_true_eq] at hlimit' hnext
  by_cases hgreatest : (limited.limit allowedQuotas).1 = 2 ^ 63 - 1
  · rw [Quota.acceptsMore_greatest 1 hgreatest] at hfits
    cases hfits
  · exact (Quota.acceptsMore_iff hlimit hlong (by dsimp only; omega)
      (by dsimp only; omega)).mp hfits

variable (expirationSeconds) in
/-- What a call in time does to the counter of the period. -/
theorem counted_of_checkAndIncrement
    (hredis : strategy.client.FollowsRedis strategy.platform entries)
    (hcounted : CountedSince first m (entries state (strategy.counterKey key limited.counter)))
    (hread : first ≤ limited.read clock)
    (hincrby : first ≤ (clock.counted.commands limited.counter).incrby)
    (hexpire : first ≤ (clock.counted.commands limited.counter).expire)
    (hin : strategy.InTime limited first clock key allowedQuotas (entries state)) :
    (∀ result after, strategy.checkAndIncrement clock key 1 allowedQuotas expirationSeconds state =
        (.ok result, after) →
      CountedSince first (m + result.allowed.toNat)
          (entries after (strategy.counterKey key limited.counter)) ∧
        (result.allowed = true → (m : Int) + 1 ≤ (limited.limit allowedQuotas).1)) ∧
      ∀ e after, strategy.checkAndIncrement clock key 1 allowedQuotas expirationSeconds state =
        (.error e, after) →
      CountedSince first m (entries after (strategy.counterKey key limited.counter)) := by
  have hkept : entries (strategy.check clock key allowedQuotas state).2 = entries state :=
    keeps_check hredis state rfl
  rcases hcheck : strategy.check clock key allowedQuotas state with ⟨error | current, looked⟩
  · rw [hcheck] at hkept
    have hrun : strategy.checkAndIncrement clock key 1 allowedQuotas expirationSeconds state =
        (.error error, looked) := by
      simp only [checkAndIncrement, bind, hcheck]
    rw [hrun]
    constructor
    · intro result after h
      cases h
    · intro e after h
      cases h
      dsimp only at hkept
      rw [hkept]
      exact hcounted
  · rw [hcheck] at hkept
    dsimp only at hkept
    obtain ⟨haccepts, hlong⟩ := allowed_of_check_seen hredis hcheck
    rw [checkAndIncrement, bind_of_ok hcheck]
    cases hanswer : current.quotas.acceptsMore 1 with
    | false =>
        rw [Bool.not_false, if_pos rfl]
        constructor
        · intro result after h
          cases h
          rw [hkept]
          exact ⟨hcounted, fun h => absurd h Bool.false_ne_true⟩
        · intro e after h
          cases h
    | true =>
        rw [Bool.not_true, if_neg Bool.false_ne_true]
        rw [haccepts] at hanswer
        have hrest : Triple
            (fun after => entries after (strategy.counterKey key limited.counter) =
              entries state (strategy.counterKey key limited.counter))
            (do
              let quotas ← strategy.incrementCounters clock key 1 allowedQuotas expirationSeconds
              pure ⟨true, quotas⟩)
            (fun (result : ThrottlingResult) after => (CountedSince first (m + 1)
                (entries after (strategy.counterKey key limited.counter)) ∧
              isLong (number (seen (clock.counted.commands limited.counter).incrby
                (entries state (strategy.counterKey key limited.counter))) + 1) = true) ∧
              result.allowed = true)
            (fun after => CountedSince first m
              (entries after (strategy.counterKey key limited.counter))) := by
          apply triple_bind (triple_incrementCounters hredis hcounted hincrby hexpire
            (hin.counted hanswer) (hin.limited hanswer))
          intro quotas
          exact triple_pure fun _ h => ⟨h, rfl⟩
        obtain ⟨hdone, hfailed⟩ := hrest looked (congrFun hkept _)
        refine ⟨fun result after hrun => ?_, hfailed⟩
        obtain ⟨⟨hcount, hnext⟩, hallowed⟩ := hdone result after hrun
        rw [hallowed]
        refine ⟨hcount, fun _ => ?_⟩
        rw [← seen_eq_seen hread hincrby hin.read (hin.counted hanswer)] at hnext
        have hseen : strategy.countsSeen clock key (entries state) limited.counter =
            number (seen (limited.read clock)
              (entries state (strategy.counterKey key limited.counter))) := by
          cases limited <;> rfl
        have hle := hcounted.le_number hin.read
        rw [← hseen] at hnext hle
        have hlimit := lt_limit_of_accepts (hlong limited.counter) hnext hanswer
        omega

/-- Calls in time never pass the limit of the period. -/
theorem accepted_add_le (hredis : strategy.client.FollowsRedis strategy.platform entries)
    {clocks : List ThrottlingClock}
    (hfirst : ∀ clock ∈ clocks, ∀ t ∈ clock.instants, first ≤ t)
    (hcounted : CountedSince first m (entries state (strategy.counterKey key limited.counter)))
    (hin : Along (fun clock state =>
        (strategy.checkAndIncrement clock key 1 allowedQuotas expirationSeconds state).2)
      (fun state clock _ => strategy.InTime limited first clock key allowedQuotas (entries state))
      state clocks)
    (hm : (m : Int) ≤ max 0 (limited.limit allowedQuotas).1) :
    (m : Int) + strategy.accepted key allowedQuotas expirationSeconds clocks state ≤
      max 0 (limited.limit allowedQuotas).1 := by
  induction clocks generalizing m state with
  | nil =>
      rw [accepted]
      omega
  | cons clock clocks ih =>
      rw [List.forall_mem_cons] at hfirst
      have htimes := clock.counted_mem_instants limited.counter
      obtain ⟨hreturns, hthrows⟩ := counted_of_checkAndIncrement expirationSeconds hredis
        hcounted (hfirst.1 _ (limited.read_mem_instants clock)) (hfirst.1 _ htimes.1)
        (hfirst.1 _ htimes.2) hin.1
      rw [accepted]
      have hrest := hin.2
      rcases hrun : strategy.checkAndIncrement clock key 1 allowedQuotas expirationSeconds state
        with ⟨error | result, after⟩
      · dsimp only at hrest
        rw [hrun] at hrest
        exact ih hfirst.2 (hthrows error after hrun) hrest hm
      · dsimp only at hrest
        rw [hrun] at hrest
        obtain ⟨hcount, hlimit⟩ := hreturns result after hrun
        have hnext : ((m + result.allowed.toNat : Nat) : Int) ≤
            max 0 (limited.limit allowedQuotas).1 := by
          cases hallowed : result.allowed with
          | false => simpa using hm
          | true =>
              have hle := hlimit hallowed
              rw [Bool.toNat_true]
              push_cast
              omega
        have hall := ih hfirst.2 hcount hrest hnext
        push_cast at hall ⊢
        omega

variable (strategy) in
/-- Calls during one day, or one month, each in time: no more of them are accepted than
the limit of the day, or of the month. -/
theorem accepted_le_limit (entries : σ → Str → Option CounterEntry)
    (hredis : strategy.client.FollowsRedis strategy.platform entries) (limited : LimitedPeriod)
    (stretch : Stretch (limited.period strategy.calendar)) (key : Str)
    (allowedQuotas : AllowedQuota) (expirationSeconds : Int) (state : σ)
    (hstart : ∀ e, entries state (strategy.counterKey key limited.counter) = some e → 0 ≤ e.value)
    (clocks : List ThrottlingClock) (hduring : ∀ clock ∈ clocks, clock.During stretch)
    (hin : Along (fun clock state =>
        (strategy.checkAndIncrement clock key 1 allowedQuotas expirationSeconds state).2)
      (fun state clock _ =>
        strategy.InTime limited stretch.first clock key allowedQuotas (entries state))
      state clocks) :
    (strategy.accepted key allowedQuotas expirationSeconds clocks state : Int) ≤
      max 0 (limited.limit allowedQuotas).1 := by
  have hcounted : CountedSince stretch.first 0
      (entries state (strategy.counterKey key limited.counter)) := ⟨hstart, .inl rfl⟩
  have hfirst : ∀ clock ∈ clocks, ∀ t ∈ clock.instants, stretch.first ≤ t :=
    fun clock hclock t ht => (hduring clock hclock t ht).1
  have hle := accepted_add_le hredis hfirst hcounted hin (le_max_left _ _)
  push_cast at hle
  omega

/-! ## Outside the last two seconds -/

/-- An expiration that a counter was given since an instant is in the last two
seconds. -/
def ExpiresLate (first next : Int) (entry : Option CounterEntry) : Prop :=
  ∀ t, expirationSince first entry = some t → next < t + 2000

theorem ExpiresLate.incrby {first next now : Int} {entry : Option CounterEntry}
    (h : ExpiresLate first next entry) (n : Int) :
    ExpiresLate first next (some ⟨n, (seen now entry).bind expireAt⟩) := by
  intro t ht
  obtain ⟨⟨e, he, hexpire⟩, hfirst⟩ := expirationSince_eq_some_iff.mp ht
  cases he
  obtain ⟨e, hseen, hexpire⟩ := Option.bind_eq_some_iff.mp hexpire
  exact h t (expirationSince_eq_some_iff.mpr
    ⟨⟨e, (seen_eq_some_iff.mp hseen).1, hexpire⟩, hfirst⟩)

theorem expiresLate_limited {first next now seconds : Int}
    (hlate : next < now + seconds * 1000 + 2000) (entry : Option CounterEntry) :
    ExpiresLate first next (CounterEntry.limited now seconds (seen now entry)) := by
  intro t ht
  obtain ⟨⟨e, he, hexpire⟩, -⟩ := expirationSince_eq_some_iff.mp ht
  rw [CounterEntry.limited] at he
  split at he
  · cases he
  · obtain ⟨e', -, rfl⟩ := Option.map_eq_some_iff.mp he
    cases hexpire
    exact hlate

section Early

variable {stretch : Stretch (limited.period strategy.calendar)}

/-- A life time that a call of the period gives ends in the last two seconds. -/
theorem lifeTime_of_early (hlength : stretch.next - stretch.first < 1000 * 2 ^ 31)
    (hduring : clock.During stretch) (hearly : ∀ t ∈ clock.instants, t + 2000 ≤ stretch.next) :
    0 < limited.lifeTime strategy.calendar clock.counted ∧
      stretch.next < limited.readToEnd clock.counted +
        limited.lifeTime strategy.calendar clock.counted * 1000 + 2000 := by
  have hfor : limited.readForEnd clock.counted ∈ clock.instants := by
    cases limited <;> simp [LimitedPeriod.readForEnd, ThrottlingClock.instants,
      CountedCall.instants]
  have hto : limited.readToEnd clock.counted ∈ clock.instants := by
    cases limited <;> simp [LimitedPeriod.readToEnd, ThrottlingClock.instants,
      CountedCall.instants]
  have hnext := (stretch.spans _).mp (hduring _ hfor)
  have hfirst := (hduring _ hto).1
  have hlast := Period.secondsUntil_lastSecond _ hnext (hearly _ hto) (by omega)
  cases limited with
  | day => exact hlast
  | month => exact hlast

/-- A call outside the last two seconds leaves the counter with an expiration in them. -/
theorem keeps_expiresLate (hredis : strategy.client.FollowsRedis strategy.platform entries)
    (hlength : stretch.next - stretch.first < 1000 * 2 ^ 31) (hduring : clock.During stretch)
    (hearly : ∀ t ∈ clock.instants, t + 2000 ≤ stretch.next)
    (hordered : limited.readToEnd clock.counted ≤
      (clock.counted.commands limited.counter).expire) :
    Keeps (fun state => ExpiresLate stretch.first stretch.next
        (entries state (strategy.counterKey key limited.counter)))
      (strategy.checkAndIncrement clock key 1 allowedQuotas expirationSeconds) := by
  have hkeys := strategy.counterKey_injective key
  obtain ⟨hwindow, htotal⟩ := counterKey_limited_ne strategy limited key
  have hlast := (lifeTime_of_early hlength hduring hearly).2
  have hself : Keeps (fun state => ExpiresLate stretch.first stretch.next
        (entries state (strategy.counterKey key limited.counter)))
      (strategy.client.bump (clock.counted.commands limited.counter)
        (strategy.counterKey key limited.counter) 1
        (limited.lifeTime strategy.calendar clock.counted)) :=
    CounterStore.keeps_countAndLimit (hredis.keeps_incrby_self fun _ n h => h.incrby n)
      (hredis.keeps_pttl _ _ _)
      (hredis.keeps_expire_self fun entry _ => expiresLate_limited (by omega) entry)
      (fun calls _ => calls) (fun calls _ => calls)
  have hboth : Keeps (fun state => ExpiresLate stretch.first stretch.next
        (entries state (strategy.counterKey key limited.counter)))
      (strategy.incrementDailyAndMonthly clock.counted key 1) := by
    cases limited with
    | day =>
        apply keeps_bind hself
        intro _ _ _ _
        apply keeps_bind (hredis.keeps_bump _ (hkeys.ne (by decide)) _ _ _)
        intro _ _ _ _
        exact keeps_pure _
    | month =>
        apply keeps_bind (hredis.keeps_bump _ (hkeys.ne (by decide)) _ _ _)
        intro _ _ _ _
        apply keeps_bind hself
        intro _ _ _ _
        exact keeps_pure _
  apply keeps_bind
  · intro state hstate
    rw [keeps_check hredis state rfl]
    exact hstate
  · intro current _ _ _
    split
    · exact keeps_pure _
    · apply keeps_bind
      · apply keeps_bind (keeps_incrementWindow hredis _ hwindow)
        intro _ _ _ _
        apply keeps_bind hboth
        intro _ _ _ _
        apply keeps_bind (hredis.keeps_incrby _ htotal _ _)
        intro _ _ _ _
        exact keeps_pure _
      · intro _ _ _ _
        exact keeps_pure _

/-- Calls outside the last two seconds are in time. -/
theorem inTime_of_early (hredis : strategy.client.FollowsRedis strategy.platform entries)
    (hlength : stretch.next - stretch.first < 1000 * 2 ^ 31) {clocks : List ThrottlingClock}
    (hduring : ∀ clock ∈ clocks, clock.During stretch)
    (hearly : ∀ clock ∈ clocks, ∀ t ∈ clock.instants, t + 2000 ≤ stretch.next)
    (hordered : ∀ clock ∈ clocks, limited.readToEnd clock.counted ≤
      (clock.counted.commands limited.counter).expire)
    (hstart : ExpiresLate stretch.first stretch.next
      (entries state (strategy.counterKey key limited.counter))) :
    Along (fun clock state =>
        (strategy.checkAndIncrement clock key 1 allowedQuotas expirationSeconds state).2)
      (fun state clock _ =>
        strategy.InTime limited stretch.first clock key allowedQuotas (entries state))
      state clocks := by
  induction clocks generalizing state with
  | nil => exact trivial
  | cons clock clocks ih =>
      rw [List.forall_mem_cons] at hduring hearly hordered
      have hbefore : ∀ t ∈ clock.instants, ∀ t', expirationSince stretch.first
          (entries state (strategy.counterKey key limited.counter)) = some t' → t ≤ t' := by
        intro t ht t' ht'
        have hinstant := hearly.1 t ht
        have hlate := hstart t' ht'
        omega
      refine ⟨⟨?_, ?_, ?_⟩, ih hduring.2 hearly.2 hordered.2 ?_⟩
      · exact hbefore _ (limited.read_mem_instants clock)
      · intro _
        exact hbefore _ (clock.counted_mem_instants limited.counter).1
      · intro _ _
        exact (lifeTime_of_early hlength hduring.1 hearly.1).1
      · exact keeps_expiresLate hredis hlength hduring.1 hearly.1 hordered.1 state hstart

end Early

/-! ## An example -/

section Example

/-- The strategies over a Redis store. -/
def exampleRedis : StoreStrategy (Str → Option CounterEntry) :=
  ThrottlingStrategy.store (.redis starStorePlatform) starStorePlatform "otoroshi".toList
    .january1970

/-- The first day of January 1970. -/
def firstDay : Stretch (LimitedPeriod.day.period exampleRedis.calendar) where
  first := 0
  next := 86400000
  spans := by
    intro t
    show _ ↔ (t / (1000 * (86400 : Nat)) + 1) * (1000 * (86400 : Nat)) = 86400000
    omega

/-- One call a day. -/
def oneCall : AllowedQuota := { daily := ⟨1, isLong_one⟩ }

/-- Two calls at noon, on a day that takes one. -/
theorem accepted_le_limit_example :
    (exampleRedis.accepted "key".toList oneCall 10 [.at 43200000, .at 43200000] (fun _ => none) :
      Int) ≤ max 0 (LimitedPeriod.day.limit oneCall).1 := by
  have hinstants : ∀ clock ∈ [ThrottlingClock.at 43200000, .at 43200000],
      ∀ t ∈ clock.instants, t = 43200000 := by
    decide
  have hduring : ∀ clock ∈ [ThrottlingClock.at 43200000, .at 43200000], clock.During firstDay := by
    intro clock hclock t ht
    rw [hinstants clock hclock t ht]
    decide
  have hearly : ∀ clock ∈ [ThrottlingClock.at 43200000, .at 43200000],
      ∀ t ∈ clock.instants, t + 2000 ≤ firstDay.next := by
    intro clock hclock t ht
    rw [hinstants clock hclock t ht]
    decide
  have hredis := CounterStore.redis_followsRedis StoreEvent.starStorePlatform_standard
  apply accepted_le_limit exampleRedis id hredis .day firstDay "key".toList oneCall 10
    (fun _ => none) (by intro e he; cases he) _ hduring
  apply inTime_of_early hredis (by decide) hduring hearly
  · decide
  · intro t ht
    cases ht

/-- In the last second of the day every call is accepted. -/
theorem exists_limit_lt_accepted :
    ¬ ∀ (allowedQuotas : AllowedQuota) (clocks : List ThrottlingClock),
      (∀ clock ∈ clocks, clock.During firstDay) →
        (exampleRedis.accepted "key".toList allowedQuotas 10 clocks (fun _ => none) : Int) ≤
          max 0 (LimitedPeriod.day.limit allowedQuotas).1 := by
  intro h
  have hinstants : ∀ clock ∈ [ThrottlingClock.at 86399500, .at 86399500],
      ∀ t ∈ clock.instants, t = 86399500 := by
    decide
  have hle := h oneCall [.at 86399500, .at 86399500] (by
    intro clock hclock t ht
    rw [hinstants clock hclock t ht]
    decide)
  have htwo : exampleRedis.accepted "key".toList oneCall 10 [.at 86399500, .at 86399500]
      (fun _ => none) = 2 := rfl
  rw [htwo] at hle
  revert hle
  decide

end Example

end StoreStrategy

end Otoroshi
