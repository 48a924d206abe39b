/-
# Calls in flight

The strategies over a store read their counters before they write one, and calls that
run at the same time come between. How far can they pass a limit? By as many calls as
can be in flight beside the last one that is let through, and not at all if the calls
come one after the other. A call that is turned away counts nowhere.

This is for limits below the greatest `Long`. Under the greatest one nothing is let
through, and a counter at the end of the `Long`s is taken to be below every limit.
-/

import Mathlib.Order.Defs.LinearOrder
import Otoroshi.Foundation.Admission
import Otoroshi.Throttling.Quota

namespace Otoroshi

open Stateful Admission

namespace AllowedQuota

variable (quotas : AllowedQuota)

def least : Int := min quotas.window.1 (min quotas.daily.1 quotas.monthly.1)

def greatest : Int := max quotas.window.1 (max quotas.daily.1 quotas.monthly.1)

/-- The limits hold with so many calls in flight: one of them lets no call through
anyway, or none is the greatest `Long` and none can be passed as far as that. Where one
is the greatest, they hold for calls that are not one after the other. -/
def HoldsFor (atMost : Nat) : Prop :=
  quotas.least ≤ 0 ∨ (quotas.greatest < 2 ^ 63 - 1 ∧ quotas.least + atMost - 1 < 2 ^ 63 - 1) ∨
    (quotas.greatest = 2 ^ 63 - 1 ∧ atMost ≠ 1)

variable {quotas}

/-- Below the end of the `Long`s, a call fits if it fits under every limit. -/
theorem accepts_iff (hgreatest : quotas.greatest < 2 ^ 63 - 1) {counts : CallCounter → Int}
    (hcounts : ∀ i, 0 ≤ counts i ∧ counts i ≤ 2 ^ 63 - 2) :
    quotas.accepts counts = true ↔ counts .window < quotas.window.1 ∧
      counts .day < quotas.daily.1 ∧ counts .month < quotas.monthly.1 := by
  have hlong : ∀ i, isLong (counts i) = true := by
    intro i
    have hcount := hcounts i
    rw [isLong, Bool.and_eq_true, decide_eq_true_eq, decide_eq_true_eq]
    omega
  have hroom : ∀ i, counts i < 2 ^ 63 - 1 := by
    intro i
    have hcount := hcounts i
    omega
  rw [greatest, max_lt_iff, max_lt_iff] at hgreatest
  rw [accepts, Bool.and_eq_true, Bool.and_eq_true,
    Quota.acceptsMore_iff quotas.window.2 (hlong .window) hgreatest.1 (hroom .window),
    Quota.acceptsMore_iff quotas.daily.2 (hlong .day) hgreatest.2.1 (hroom .day),
    Quota.acceptsMore_iff quotas.monthly.2 (hlong .month) hgreatest.2.2 (hroom .month), and_assoc]
  exact Iff.rfl

theorem leastLimit_accepts (hgreatest : quotas.greatest < 2 ^ 63 - 1) :
    LeastLimit quotas.accepts quotas.least (2 ^ 63 - 2) where
  exceeded := by
    have hleast : quotas.least = quotas.window.1 ∨ quotas.least = quotas.daily.1 ∨
        quotas.least = quotas.monthly.1 := by
      rw [least]
      omega
    rcases hleast with h | h | h
    · refine ⟨.window, fun counts hcounts haccepts => ?_⟩
      rw [h]
      exact ((accepts_iff hgreatest hcounts).mp haccepts).1
    · refine ⟨.day, fun counts hcounts haccepts => ?_⟩
      rw [h]
      exact ((accepts_iff hgreatest hcounts).mp haccepts).2.1
    · refine ⟨.month, fun counts hcounts haccepts => ?_⟩
      rw [h]
      exact ((accepts_iff hgreatest hcounts).mp haccepts).2.2
  room := by
    intro counts hcounts hbelow
    rw [least] at hbelow
    rw [accepts_iff hgreatest hcounts]
    exact ⟨(lt_min_iff.mp (hbelow .window)).1,
      (lt_min_iff.mp (lt_min_iff.mp (hbelow .day)).2).1,
      (lt_min_iff.mp (lt_min_iff.mp (hbelow .month)).2).2⟩

/-- With a limit that takes no call, or with the greatest one, the first call does not
fit. -/
theorem accepts_zero (h : quotas.least ≤ 0 ∨ quotas.greatest = 2 ^ 63 - 1) :
    quotas.accepts (fun _ => 0) = false := by
  have hone : ∀ limit : Long, limit.1 ≤ 0 ∨ limit.1 = 2 ^ 63 - 1 →
      ({ limit := limit.1, consumed := 0 } : Quota).acceptsMore 1 = false := by
    intro limit hlimit
    rcases hlimit with hlow | hhigh
    · have hlong := limit.2
      rw [← Bool.not_eq_true,
        Quota.acceptsMore_iff hlong rfl (by dsimp only; omega) (by dsimp only; decide)]
      dsimp only
      omega
    · exact Quota.acceptsMore_greatest 1 hhigh
  have hlimit : (quotas.window.1 ≤ 0 ∨ quotas.window.1 = 2 ^ 63 - 1) ∨
      (quotas.daily.1 ≤ 0 ∨ quotas.daily.1 = 2 ^ 63 - 1) ∨
        (quotas.monthly.1 ≤ 0 ∨ quotas.monthly.1 = 2 ^ 63 - 1) := by
    rw [least, greatest] at h
    omega
  rw [accepts]
  rcases hlimit with h | h | h
  · rw [hone _ h, Bool.false_and, Bool.false_and]
  · rw [hone _ h, Bool.and_false, Bool.false_and]
  · rw [hone _ h, Bool.and_false]

end AllowedQuota

/-! ## The commands of a call -/

namespace StoreStrategy

variable {σ : Type} (strategy : StoreStrategy σ)

/-- What a call does with the store: it reads the counters at once, and if it fits it
increments them one by one. In between it asks how long they live and gives them a life
time. All this is at any time. -/
def gate (key : Str) (allowedQuotas : AllowedQuota) : Gate σ CallCounter where
  look state answer after := ∃ clock current,
    strategy.check clock key allowedQuotas state = (.ok current, after) ∧
      answer = current.quotas.acceptsMore 1
  count counter state after := ∃ now calls,
    strategy.client.incrby now (strategy.counterKey key counter) 1 state = (.ok calls, after)
  tend state after := ∃ now counter,
    (∃ ttl, strategy.client.pttl now (strategy.counterKey key counter) state = (.ok ttl, after)) ∨
      ∃ seconds answer, strategy.client.expire now (strategy.counterKey key counter) seconds state =
        (.ok answer, after)
  counters := [.window, .day, .month, .total]

/-- The counters with a limit stand at these numbers. -/
def LimitsStandAt (key : Str) (counts : CallCounter → Int) (state : σ) : Prop :=
  ∀ counter, counter ≠ .total →
    strategy.client.Stands strategy.platform state (strategy.counterKey key counter)
      (counts counter)

variable {strategy} {key : Str} {allowedQuotas : AllowedQuota} {counts : CallCounter → Int}
  {state after : σ} {clock : ThrottlingClock}

/-- A store whose counters rest keeps them where they stand. -/
theorem LimitsStandAt.rests (h : strategy.LimitsStandAt key counts state)
    (hrests : strategy.client.Rests strategy.platform state after) :
    strategy.LimitsStandAt key counts after := by
  intro counter hlimited
  exact hrests _ _ (h counter hlimited)

/-- A check reads the counters and moves none. -/
theorem check_of_standAt (hstore : strategy.client.Lawful strategy.platform)
    (hstand : strategy.LimitsStandAt key counts state) {current : ThrottlingResult}
    (h : strategy.check clock key allowedQuotas state = (.ok current, after)) :
    current.quotas.acceptsMore 1 = allowedQuotas.accepts counts ∧
      strategy.client.Rests strategy.platform state after := by
  obtain ⟨window, windowed, hwindow, h⟩ := exists_of_bind h
  obtain ⟨ttl, asked, hpttl, h⟩ := exists_of_bind h
  obtain ⟨daily, dailyRead, hdaily, h⟩ := exists_of_bind h
  obtain ⟨monthly, monthlyRead, hmonthly, h⟩ := exists_of_bind h
  cases hwindow.symm.trans (hstand .window (by decide) _)
  obtain ⟨ttl', asked', hpttl', hrests⟩ :=
    hstore.pttl clock.windowTtl (strategy.throttlingKey key) state
  cases hpttl.symm.trans hpttl'
  have hasked := hstand.rests hrests
  cases hdaily.symm.trans (hasked .day (by decide) _)
  cases hmonthly.symm.trans (hasked .month (by decide) _)
  cases h
  exact ⟨rfl, hrests⟩

/-- The gate of the strategy is lawful up to the end of the `Long`s. -/
theorem lawful_gate (hstore : strategy.client.Lawful strategy.platform)
    (hisolated : strategy.client.Isolated strategy.platform) :
    (strategy.gate key allowedQuotas).Lawful (strategy.LimitsStandAt key) allowedQuotas.accepts
      (2 ^ 63 - 2) where
  look := by
    rintro counts state answer after hstand ⟨clock, current, hcheck, rfl⟩
    obtain ⟨haccepts, hrests⟩ := check_of_standAt hstore hstand hcheck
    exact ⟨haccepts, hstand.rests hrests⟩
  count := by
    rintro counts state counter after hstand hbelow ⟨now, calls, hincrby⟩
    have hkeys := strategy.counterKey_injective key
    have hothers : ∀ other, other ≠ counter → other ≠ .total →
        strategy.client.Stands strategy.platform after (strategy.counterKey key other)
          (counts other) := by
      intro other hne hlimited
      have hkept := hisolated now _ 1 _ (counts other) (hkeys.ne hne) state (hstand other hlimited)
      rwa [hincrby] at hkept
    intro other hlimited
    by_cases hsame : other = counter
    · subst hsame
      have hcount := hstand other hlimited
      have hlong := hcount.isLong
      rw [isLong, Bool.and_eq_true, decide_eq_true_eq, decide_eq_true_eq] at hlong
      have hnext : isLong (counts other + 1) = true := by
        rw [isLong, Bool.and_eq_true, decide_eq_true_eq, decide_eq_true_eq]
        omega
      obtain ⟨after', hincrby', hstands, -⟩ := hstore.incrby now _ 1 state _ hcount hnext
      cases hincrby.symm.trans hincrby'
      rwa [Function.update_self]
    · rw [Function.update_of_ne hsame]
      exact hothers other hsame hlimited
  tend := by
    rintro counts state after hstand ⟨now, counter, hpttl | hexpire⟩
    · obtain ⟨ttl, hpttl⟩ := hpttl
      obtain ⟨ttl', after', hpttl', hrests⟩ :=
        hstore.pttl now (strategy.counterKey key counter) state
      cases hpttl.symm.trans hpttl'
      exact hstand.rests hrests
    · obtain ⟨seconds, answer, hexpire⟩ := hexpire
      obtain ⟨answer', after', hexpire', hrests⟩ :=
        hstore.expire now (strategy.counterKey key counter) seconds state
      cases hexpire.symm.trans hexpire'
      exact hstand.rests hrests
  once := by
    intro counter
    cases counter <;> rfl

/-! ## One call as a run -/

section Sequential

variable {κ : Type} {caller : κ} {decisions : List (κ × Bool)} {remaining : List CallCounter}
  {atMost : Nat} {counter : CallCounter} {expirationSeconds seconds calls : Int}

/-- A call that is alone in flight and counts. -/
private abbrev alone (caller : κ) (remaining : List CallCounter) (decisions : List (κ × Bool))
    (state : σ) : Admission σ CallCounter κ :=
  ⟨state, [] ++ (caller, .counting remaining) :: [], decisions⟩

theorem reaches_incrby {now : Int} (hremaining : counter ∈ remaining)
    (h : strategy.client.incrby now (strategy.counterKey key counter) 1 state =
      (.ok calls, after)) :
    Reaches (strategy.gate key allowedQuotas) atMost (alone caller remaining decisions state)
      (alone caller (remaining.erase counter) decisions after) :=
  .single ⟨caller, .count hremaining ⟨now, calls, h⟩⟩

theorem reaches_tend (h : (strategy.gate key allowedQuotas).tend state after) :
    Reaches (strategy.gate key allowedQuotas) atMost (alone caller remaining decisions state)
      (alone caller remaining decisions after) :=
  .single ⟨caller, .tend h⟩

/-- A counter is counted and, if it would live forever, given a life time, whatever is
answered in the end. -/
theorem reaches_countAndLimit {α : Type} {times : BumpTimes} {value : α}
    (forever living : Int → Int → α) (hremaining : counter ∈ remaining)
    (h : (do
      let calls ← strategy.client.incrby times.incrby (strategy.counterKey key counter) 1
      let ttl ← strategy.client.pttl times.pttl (strategy.counterKey key counter)
      if ttl = -1 then
        let _ ← strategy.client.expire times.expire (strategy.counterKey key counter) seconds
        pure (forever calls ttl)
      else pure (living calls ttl) : Stateful σ StoreException α) state = (.ok value, after)) :
    Reaches (strategy.gate key allowedQuotas) atMost (alone caller remaining decisions state)
      (alone caller (remaining.erase counter) decisions after) := by
  obtain ⟨calls, counted, hincrby, h⟩ := exists_of_bind h
  obtain ⟨ttl, asked, hpttl, h⟩ := exists_of_bind h
  have hcounted : Reaches (strategy.gate key allowedQuotas) atMost
      (alone caller remaining decisions state)
      (alone caller (remaining.erase counter) decisions counted) :=
    reaches_incrby hremaining hincrby
  have hasked := hcounted.trans (reaches_tend ⟨_, counter, .inl ⟨ttl, hpttl⟩⟩)
  split at h
  case isTrue hforever =>
    obtain ⟨answer, limited, hexpire, h⟩ := exists_of_bind h
    cases h
    exact hasked.trans (reaches_tend ⟨_, counter, .inr ⟨seconds, answer, hexpire⟩⟩)
  case isFalse hliving =>
    cases h
    exact hasked

theorem reaches_bump {times : BumpTimes} (hremaining : counter ∈ remaining)
    (h : strategy.client.bump times (strategy.counterKey key counter) 1 seconds state =
      (.ok calls, after)) :
    Reaches (strategy.gate key allowedQuotas) atMost (alone caller remaining decisions state)
      (alone caller (remaining.erase counter) decisions after) :=
  reaches_countAndLimit (fun calls _ => calls) (fun calls _ => calls) hremaining h

theorem reaches_incrementWindow {times : BumpTimes} {window : Int × Int}
    (hremaining : .window ∈ remaining)
    (h : strategy.incrementWindow times key 1 expirationSeconds state = (.ok window, after)) :
    Reaches (strategy.gate key allowedQuotas) atMost (alone caller remaining decisions state)
      (alone caller (remaining.erase .window) decisions after) :=
  reaches_countAndLimit (fun calls _ => (calls, wrapLong (expirationSeconds * 1000)))
    (fun calls ttl => (calls, ttl)) hremaining h

/-- Four counters are counted, and then the call leaves. -/
theorem reaches_incrementCounters {quotas : QuotaState}
    (h : strategy.incrementCounters clock key 1 allowedQuotas expirationSeconds state =
      (.ok quotas, after)) :
    Reaches (strategy.gate key allowedQuotas) atMost
      (alone caller [.window, .day, .month, .total] decisions state)
      ⟨after, [] ++ [], decisions⟩ := by
  obtain ⟨window, windowed, hwindow, h⟩ := exists_of_bind h
  obtain ⟨calls, counted, hcalls, h⟩ := exists_of_bind h
  obtain ⟨total, totalled, htotal, h⟩ := exists_of_bind h
  obtain ⟨daily, dailyCounted, hdaily, hcalls⟩ := exists_of_bind hcalls
  obtain ⟨monthly, monthlyCounted, hmonthly, hcalls⟩ := exists_of_bind hcalls
  cases hcalls
  cases h
  refine (reaches_incrementWindow (by decide) hwindow).trans ?_
  refine (reaches_bump (by decide) hdaily).trans ?_
  refine (reaches_bump (by decide) hmonthly).trans ?_
  refine (reaches_incrby (by decide) htotal).trans ?_
  exact .single ⟨caller, .leave⟩

/-- A call of the strategy is a run with nobody else in flight. -/
theorem reaches_of_checkAndIncrement (hroom : 0 < atMost)
    (hnew : caller ∉ decisions.map Prod.fst) {result : ThrottlingResult}
    (h : strategy.checkAndIncrement clock key 1 allowedQuotas expirationSeconds state =
      (.ok result, after)) :
    Reaches (strategy.gate key allowedQuotas) atMost ⟨state, [], decisions⟩
      ⟨after, [], decisions ++ [(caller, result.allowed)]⟩ := by
  have harrive : Reaches (strategy.gate key allowedQuotas) atMost ⟨state, [], decisions⟩
      ⟨state, [] ++ (caller, .arrived) :: [], decisions⟩ :=
    .single ⟨caller, .arrive List.not_mem_nil hnew hroom⟩
  apply harrive.trans
  obtain ⟨current, looked, hcheck, h⟩ := exists_of_bind h
  cases haccepts : current.quotas.acceptsMore 1 with
  | false =>
      rw [haccepts, Bool.not_false, if_pos rfl] at h
      cases h
      exact .single ⟨caller, .reject ⟨clock, current, hcheck, haccepts.symm⟩⟩
  | true =>
      rw [haccepts, Bool.not_true, if_neg Bool.false_ne_true] at h
      obtain ⟨quotas, counted, hcount, h⟩ := exists_of_bind h
      cases h
      refine .head ⟨caller, .accept ⟨clock, current, hcheck, haccepts.symm⟩⟩ ?_
      exact reaches_incrementCounters hcount

end Sequential

/-! ## Any calls in flight -/

section Concurrent

variable {κ : Type} {atMost : Nat} {last : Admission σ CallCounter κ}

/-- A gate that lets no first call through. -/
theorem rejected_of_closed (hstore : strategy.client.Lawful strategy.platform)
    (hisolated : strategy.client.Isolated strategy.platform)
    (hclosed : allowedQuotas.least ≤ 0 ∨ allowedQuotas.greatest = 2 ^ 63 - 1)
    (hstand : strategy.LimitsStandAt key (fun _ => 0) state)
    (hrun : Reaches (strategy.gate key allowedQuotas) atMost (start κ CallCounter state) last) :
    strategy.LimitsStandAt key (fun _ => 0) last.shared ∧
      ∀ decision ∈ last.decisions, decision.2 = false :=
  rejected_of_reaches (lawful_gate hstore hisolated) (AllowedQuota.accepts_zero hclosed) hstand hrun

/-- The counters with a limit stand at some numbers all along a run. -/
theorem exists_limitsStandAt (hstore : strategy.client.Lawful strategy.platform)
    (hisolated : strategy.client.Isolated strategy.platform)
    (hlimits : allowedQuotas.HoldsFor atMost)
    (hstand : strategy.LimitsStandAt key (fun _ => 0) state)
    (hrun : Reaches (strategy.gate key allowedQuotas) atMost (start κ CallCounter state) last) :
    ∃ counts, strategy.LimitsStandAt key counts last.shared := by
  rcases hlimits with hnone | ⟨hgreatest, hroom⟩ | ⟨hgreatest, hmany⟩
  · exact ⟨_, (rejected_of_closed hstore hisolated (.inl hnone) hstand hrun).1⟩
  · have hwithin := within_of_reaches (lawful_gate hstore hisolated)
      (AllowedQuota.leastLimit_accepts hgreatest) (by omega) hstand hrun
    obtain ⟨counts, hcounted⟩ := hwithin.counted
    exact ⟨counts, hcounted.stands⟩
  · exact ⟨_, (rejected_of_closed hstore hisolated (.inr hgreatest) hstand hrun).1⟩

theorem admitted_eq_zero {decisions : List (κ × Bool)}
    (h : ∀ decision ∈ decisions, decision.2 = false) : admitted decisions = 0 := by
  rw [admitted, List.countP_eq_zero]
  intro decision hdecision
  rw [h decision hdecision]
  exact Bool.false_ne_true

/-- The calls that are let through are not more than the least limit and the calls in
flight beside one. -/
theorem admitted_le (hstore : strategy.client.Lawful strategy.platform)
    (hisolated : strategy.client.Isolated strategy.platform)
    (hlimits : allowedQuotas.HoldsFor atMost)
    (hstand : strategy.LimitsStandAt key (fun _ => 0) state)
    (hrun : Reaches (strategy.gate key allowedQuotas) atMost (start κ CallCounter state) last) :
    (admitted last.decisions : Int) ≤ max 0 (allowedQuotas.least + atMost - 1) := by
  rcases hlimits with hnone | ⟨hgreatest, hroom⟩ | ⟨hgreatest, hmany⟩
  · rw [admitted_eq_zero (rejected_of_closed hstore hisolated (.inl hnone) hstand hrun).2]
    exact le_max_left _ _
  · exact (within_of_reaches (lawful_gate hstore hisolated)
      (AllowedQuota.leastLimit_accepts hgreatest) (by omega) hstand hrun).passed
  · rw [admitted_eq_zero (rejected_of_closed hstore hisolated (.inr hgreatest) hstand hrun).2]
    exact le_max_left _ _

/-- One after the other, the first calls are let through. -/
theorem decisions_of_one (hstore : strategy.client.Lawful strategy.platform)
    (hisolated : strategy.client.Isolated strategy.platform) (hlimits : allowedQuotas.HoldsFor 1)
    (hstand : strategy.LimitsStandAt key (fun _ => 0) state)
    (hrun : Reaches (strategy.gate key allowedQuotas) 1 (start κ CallCounter state) last) :
    last.decisions.map Prod.snd =
      KvApiKeyDataStore.firstAccepted last.decisions.length allowedQuotas.least.toNat := by
  rcases hlimits with hnone | ⟨hgreatest, hroom⟩ | ⟨hgreatest, hmany⟩
  · have hrejected := (rejected_of_closed hstore hisolated (.inl hnone) hstand hrun).2
    rw [Int.toNat_of_nonpos hnone, KvApiKeyDataStore.firstAccepted, Nat.min_zero,
      List.replicate_zero, List.nil_append, List.eq_replicate_iff]
    refine ⟨by rw [List.length_map]; rfl, ?_⟩
    intro answer hanswer
    obtain ⟨decision, hdecision, rfl⟩ := List.mem_map.mp hanswer
    exact hrejected decision hdecision
  · have hfirst := firstAdmitted_of_reaches (lawful_gate hstore hisolated)
      (AllowedQuota.leastLimit_accepts hgreatest) (by omega) hstand hrun
    rw [hfirst, KvApiKeyDataStore.map_range_lt]
  · exact absurd rfl hmany

/-- A step of a call that is turned away, at once or later, moves no counter. -/
theorem rests_of_rejected (hstore : strategy.client.Lawful strategy.platform)
    (hisolated : strategy.client.Isolated strategy.platform)
    (hlimits : allowedQuotas.HoldsFor atMost)
    (hstand : strategy.LimitsStandAt key (fun _ => 0) state) {caller : κ}
    {before after : Admission σ CallCounter κ}
    (hbefore : Reaches (strategy.gate key allowedQuotas) atMost (start κ CallCounter state) before)
    (hstep : Admission.Step (strategy.gate key allowedQuotas) atMost caller before after)
    (hafter : Reaches (strategy.gate key allowedQuotas) atMost after last)
    (hrejected : (caller, false) ∈ last.decisions) :
    strategy.client.Rests strategy.platform before.shared after.shared := by
  rcases looks_of_rejected (filed_nil.reaches hbefore) hstep hafter hrejected with hsame | hlook
  · intro other n hstands
    rw [hsame]
    exact hstands
  · obtain ⟨clock, current, hcheck, -⟩ := hlook
    obtain ⟨counts, hcounts⟩ := exists_limitsStandAt hstore hisolated hlimits hstand hbefore
    exact (check_of_standAt hstore hcounts hcheck).2

variable (strategy) in
/-- Any calls, with at most some in flight, and limits that hold for so many: the calls
let through do not pass the least limit by more than the calls in flight beside one;
one after the other, the first calls are let through, as many as the least limit; and a
call that is turned away moves no counter. -/
theorem checkAndIncrement_inFlight (hstore : strategy.client.Lawful strategy.platform)
    (hisolated : strategy.client.Isolated strategy.platform) (key : Str)
    (allowedQuotas : AllowedQuota) (atMost : Nat) (hlimits : allowedQuotas.HoldsFor atMost)
    (state : σ) (hstand : strategy.LimitsStandAt key (fun _ => 0) state) (κ : Type)
    (last : Admission σ CallCounter κ)
    (hrun : Reaches (strategy.gate key allowedQuotas) atMost (start κ CallCounter state) last) :
    (admitted last.decisions : Int) ≤ max 0 (allowedQuotas.least + atMost - 1) ∧
      (atMost = 1 → last.decisions.map Prod.snd =
        KvApiKeyDataStore.firstAccepted last.decisions.length allowedQuotas.least.toNat) ∧
      ∀ caller before after,
        Reaches (strategy.gate key allowedQuotas) atMost (start κ CallCounter state) before →
        Admission.Step (strategy.gate key allowedQuotas) atMost caller before after →
        Reaches (strategy.gate key allowedQuotas) atMost after last →
        (caller, false) ∈ last.decisions →
          strategy.client.Rests strategy.platform before.shared after.shared := by
  refine ⟨admitted_le hstore hisolated hlimits hstand hrun, ?_, ?_⟩
  · intro hone
    subst hone
    exact decisions_of_one hstore hisolated hlimits hstand hrun
  · intro caller before after hbefore hstep hafter hrejected
    exact rests_of_rejected hstore hisolated hlimits hstand hbefore hstep hafter hrejected

end Concurrent

/-! ## An example -/

section Example

theorem limitsStandAt_empty (key : Str) :
    exampleStore.LimitsStandAt key (fun _ => 0) Memory.empty := by
  intro counter _
  show CounterStore.Stands starStorePlatform (.inMemory starStorePlatform .modern) .empty
    (exampleStore.counterKey key counter) 0
  rw [CounterStore.stands_inMemory_iff]
  rfl

/-- The same limit for the window, the day and the month. -/
def exampleLimits (limit : Long) : AllowedQuota := ⟨limit, limit, limit⟩

/-- A call on an empty memory. -/
def exampleCall (limit : Long) : Except StoreException ThrottlingResult × Memory :=
  exampleStore.checkAndIncrement (.at 0) "key".toList 1 (exampleLimits limit) 10 .empty

/-- The one call of a run is within its limits. -/
theorem checkAndIncrement_inFlight_example :
    ∃ last : Admission Memory CallCounter Unit, last.decisions = [((), true)] ∧
      (admitted last.decisions : Int) ≤ max 0 ((exampleLimits ⟨2, rfl⟩).least + (1 : Nat) - 1) := by
  have hrun : Reaches (exampleStore.gate "key".toList (exampleLimits ⟨2, rfl⟩)) 1
      (start Unit CallCounter Memory.empty) ⟨(exampleCall ⟨2, rfl⟩).2, [], [((), true)]⟩ :=
    reaches_of_checkAndIncrement (by decide) List.not_mem_nil
      (show exampleCall ⟨2, rfl⟩ = (.ok _, _) from rfl)
  have hbound := checkAndIncrement_inFlight exampleStore
    (CounterStore.lawful_inMemory StoreEvent.starStorePlatform_standard .modern)
    (CounterStore.isolated_inMemory .modern) "key".toList (exampleLimits ⟨2, rfl⟩) 1
    (.inr (.inl (by decide))) .empty (limitsStandAt_empty _) Unit _ hrun
  exact ⟨_, rfl, hbound.1⟩

/-- Under the greatest limits the first call is turned away. -/
theorem exists_decisions_ne : ¬ ∀ (allowedQuotas : AllowedQuota)
    (last : Admission Memory CallCounter Unit),
    Reaches (exampleStore.gate "key".toList allowedQuotas) 1
      (start Unit CallCounter Memory.empty) last →
      last.decisions.map Prod.snd =
        KvApiKeyDataStore.firstAccepted last.decisions.length allowedQuotas.least.toNat := by
  intro h
  have hrun : Reaches (exampleStore.gate "key".toList (exampleLimits ⟨2 ^ 63 - 1, rfl⟩)) 1
      (start Unit CallCounter Memory.empty)
      ⟨(exampleCall ⟨2 ^ 63 - 1, rfl⟩).2, [], [((), false)]⟩ :=
    reaches_of_checkAndIncrement (by decide) List.not_mem_nil
      (show exampleCall ⟨2 ^ 63 - 1, rfl⟩ = (.ok _, _) from rfl)
  have hdecisions := h _ _ hrun
  revert hdecisions
  decide

end Example

end StoreStrategy

end Otoroshi
