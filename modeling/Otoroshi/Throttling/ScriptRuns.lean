/-
# Calls that share a limit

Redis runs one script at a time, so calls that come from anywhere are a sequence of
scripts. As long as no counter expires, each call that is accepted takes one of what is
left under every limit, and the others take nothing. So as many calls are accepted as the
smallest remaining limit says (`accepted_eq_min`).
-/

import Otoroshi.Throttling.LuaScript

namespace Otoroshi

open Stateful CounterEntry

/-! ## Keys -/

namespace LuaDistributedRedisThrottlingStrategy

/-- The last letters of a key say what it counts. -/
theorem take_reverse_counterKey (storageRoot name : Str) (counter : CallCounter) :
    (counterKey storageRoot name counter).reverse.take 3 = (suffixes counter).reverse.take 3 := by
  have hlength : 3 ≤ (suffixes counter).reverse.length := by
    cases counter <;> decide
  rw [counterKey, List.reverse_append, List.take_append_of_le_length hlength]

/-- Different names have different keys. -/
theorem counterKey_ne (storageRoot : Str) {name other : Str} (hne : name ≠ other)
    (counter counter' : CallCounter) :
    counterKey storageRoot name counter ≠ counterKey storageRoot other counter' := by
  intro h
  have hlast := congrArg (fun key : Str => key.reverse.take 3) h
  rw [take_reverse_counterKey, take_reverse_counterKey] at hlast
  have hcounter : counter = counter' := by
    revert hlast
    cases counter <;> cases counter' <;> decide
  subst hcounter
  exact hne (List.append_cancel_left (List.append_cancel_right h))

end LuaDistributedRedisThrottlingStrategy

/-! ## What a script leaves alone -/

namespace Script

section Reads

variable (keeps : CounterEntries → Prop)

theorem keeps_tonumber (text : Str) : Keeps keeps (tonumber text) := by
  rw [tonumber]
  split
  · exact keeps_pure _
  · exact keeps_throw _

theorem keeps_integer (text : Str) : Keeps keeps (integer text) := by
  rw [integer]
  split
  · exact keeps_pure _
  · exact keeps_throw _

theorem keeps_peek (now : Int) (k : Str) : Keeps keeps (peek now k) := by
  have hget : Keeps keeps (get now k) := fun _ hentries => hentries
  have hpttl : Keeps keeps (pttl now k) := fun _ hentries => hentries
  apply keeps_bind hget
  intro text _ _ _
  apply keeps_bind (keeps_tonumber keeps _)
  intro calls _ _ _
  apply keeps_bind hpttl
  intro ttl _ _ _
  exact keeps_pure _

theorem keeps_ttlOf (p : Int) (ttl : Str) : Keeps keeps (ttlOf p ttl) := by
  rw [ttlOf]
  split
  · exact keeps_tonumber keeps ttl
  · exact keeps_pure p

end Reads

section Writes

variable {L : ScriptPlatform} {now : Int} {k other : Str} {entry : Option CounterEntry}

theorem keeps_incrby (hne : other ≠ k) (increment : Str) :
    Keeps (fun entries => entries other = entry) (incrby now k increment) := by
  apply keeps_bind (keeps_integer (fun entries => entries other = entry) increment)
  intro n _ _ _ entries hentries
  dsimp only
  split
  · exact (Function.update_of_ne hne _ _).trans hentries
  · exact hentries

theorem keeps_pexpire (hne : other ≠ k) (millis : Str) :
    Keeps (fun entries => entries other = entry) (pexpire now k millis) := by
  apply keeps_bind (keeps_integer (fun entries => entries other = entry) millis)
  intro n _ _ _
  apply keeps_modify
  intro entries hentries
  exact (Function.update_of_ne hne _ _).trans hentries

theorem keeps_bump (hne : other ≠ k) (incr p : Int) (ttl : Str) :
    Keeps (fun entries => entries other = entry) (bump L now incr k p ttl) := by
  apply keeps_bind (keeps_incrby hne _)
  intro c _ _ _
  split
  · apply keeps_bind (keeps_pexpire hne _)
    intro _ _ _ _
    exact keeps_pure c
  · exact keeps_pure c

/-- A script writes under its own keys only. -/
theorem keeps_script {KEYS : List Str} (ARGV : List Str)
    (hne : ∀ i ∈ [1, 2, 3, 4], other ≠ nth KEYS i) :
    Keeps (fun entries => entries other = entry) (script L now KEYS ARGV) := by
  have htonumber := keeps_tonumber fun entries => entries other = entry
  have hpeek := keeps_peek fun entries => entries other = entry
  have httlOf := keeps_ttlOf fun entries => entries other = entry
  have hanswer : ∀ (p p' p'' : Int) (list : Int → Int → Int → List Int),
      Keeps (fun entries => entries other = entry) (do
        let ttl ← ttlOf p (nth ARGV 2)
        let ttl' ← ttlOf p' (nth ARGV 3)
        let ttl'' ← ttlOf p'' (nth ARGV 4)
        pure (list ttl ttl' ttl'') : Run (List Int)) := by
    intro p p' p'' list
    apply keeps_bind (httlOf p _)
    intro ttl _ _ _
    apply keeps_bind (httlOf p' _)
    intro ttl' _ _ _
    apply keeps_bind (httlOf p'' _)
    intro ttl'' _ _ _
    exact keeps_pure _
  apply keeps_bind (htonumber _)
  intro incr _ _ _
  apply keeps_bind (hpeek now _)
  intro w _ _ _
  apply keeps_bind (hpeek now _)
  intro d _ _ _
  apply keeps_bind (hpeek now _)
  intro m _ _ _
  apply keeps_bind (htonumber _)
  intro windowLimit _ _ _
  apply keeps_bind (htonumber _)
  intro dailyLimit _ _ _
  apply keeps_bind (htonumber _)
  intro monthlyLimit _ _ _
  split
  · exact hanswer _ _ _ fun ttl ttl' ttl'' => [w.1, ttl, d.1, ttl', m.1, ttl'', 0]
  · apply keeps_bind (keeps_bump (hne 1 (by decide)) _ _ _)
    intro wc _ _ _
    apply keeps_bind (keeps_bump (hne 2 (by decide)) _ _ _)
    intro dc _ _ _
    apply keeps_bind (keeps_bump (hne 3 (by decide)) _ _ _)
    intro mc _ _ _
    apply keeps_bind (keeps_incrby (hne 4 (by decide)) _)
    intro _ _ _ _
    exact hanswer _ _ _ fun ttl ttl' ttl'' => [wc, ttl, dc, ttl', mc, ttl'', 1]

end Writes

end Script

/-! ## Runs -/

/-- A call, as it reaches Redis. -/
structure ScriptCall where
  clock : ScriptClock
  name : Str
  increment : Int
  allowedQuotas : AllowedQuota
  expirationSeconds : Int

namespace ScriptCall

open LuaDistributedRedisThrottlingStrategy

variable (L : ScriptPlatform) (storageRoot : Str) (calendar : Calendar)

def result (call : ScriptCall) (entries : CounterEntries) :
    Except StoreException ThrottlingResult :=
  (checkAndIncrement L storageRoot calendar call.clock call.name call.increment call.allowedQuotas
    call.expirationSeconds entries).1

def serve (call : ScriptCall) (entries : CounterEntries) : CounterEntries :=
  (checkAndIncrement L storageRoot calendar call.clock call.name call.increment call.allowedQuotas
    call.expirationSeconds entries).2

/-- The calls of a name that are accepted. -/
def accepted (name : Str) : List ScriptCall → CounterEntries → Nat
  | [], _ => 0
  | call :: calls, entries =>
      (if call.name = name ∧ (call.result L storageRoot calendar entries).map (·.allowed) = .ok true
        then 1 else 0) + accepted name calls (call.serve L storageRoot calendar entries)

/-- The counters with a limit. -/
def limited : List CallCounter := [.window, .day, .month]

/-- No counter of the call's name is expired, and none goes when the call is counted. -/
def Lasts (call : ScriptCall) (entries : CounterEntries) : Prop :=
  ∀ counter ∈ limited,
    (∀ t ∈ (entries (counterKey storageRoot call.name counter)).bind expireAt,
      call.clock.executed ≤ t) ∧
    ((entries (counterKey storageRoot call.name counter)).bind expireAt = none →
      0 < scriptLifeTimes calendar call.clock call.expirationSeconds counter)

instance (call : ScriptCall) (entries : CounterEntries) :
    Decidable (Lasts storageRoot calendar call entries) :=
  inferInstanceAs (Decidable (∀ counter ∈ limited, _ ∧ _))

/-- What is left under the smallest limit. -/
def remaining (allowedQuotas : AllowedQuota) (counts : CallCounter → Int) : Nat :=
  (min (allowedQuotas.window.1 - counts .window)
    (min (allowedQuotas.daily.1 - counts .day) (allowedQuotas.monthly.1 - counts .month))).toNat

/-- Where the counters of a name stand. -/
def counts (storageRoot name : Str) (entries : CounterEntries) (counter : CallCounter) : Int :=
  CounterEntry.number (entries (counterKey storageRoot name counter))

/-- Limits and counters that a `Double` holds with one more call. -/
structure Bounded (allowedQuotas : AllowedQuota) (counts : CallCounter → Int) : Prop where
  limits : ∀ limit ∈ [allowedQuotas.window, allowedQuotas.daily, allowedQuotas.monthly],
    -2 ^ 53 < limit.1 ∧ limit.1 < 2 ^ 53
  counters : ∀ counter ∈ limited, -2 ^ 53 < counts counter ∧ counts counter < 2 ^ 53
  total : -2 ^ 62 ≤ counts .total ∧ counts .total + remaining allowedQuotas counts ≤ 2 ^ 62

section Step

variable {L storageRoot calendar} {call : ScriptCall} {entries : CounterEntries}
  {allowedQuotas : AllowedQuota} {now increment millis : Int} {k : Str}

/-- A counter that lasts is seen as it stands. -/
theorem seen_of_lasting
    (hlives : ∀ t, (entries k).bind expireAt = some t → now ≤ t) :
    seen now (entries k) = entries k := by
  cases hentry : entries k with
  | none => rfl
  | some entry =>
      rw [seen_eq_some_iff]
      rw [hentry] at hlives
      exact ⟨rfl, hlives⟩

/-- A counter that lasts is counted. -/
theorem bumpMillis_of_lasting
    (hlives : ∀ t, (entries k).bind expireAt = some t → now ≤ t)
    (hlimit : (entries k).bind expireAt = none → 0 < millis)
    (hlong : isLong (CounterEntry.number (entries k) + increment) = true) :
    ∃ n after, bumpMillis now k increment millis entries = (.ok n, after) ∧
      CounterEntry.number (after k) = CounterEntry.number (entries k) + increment ∧
      ∀ other, other ≠ k → after other = entries other := by
  have hseen := seen_of_lasting hlives
  have hcounted : countedTo now k increment entries =
      CounterEntry.number (entries k) + increment := by
    rw [countedTo, hseen]
  have hrun : bumpMillis now k increment millis entries = _ :=
    bumpMillis_of_isLong (by rw [hcounted]; exact hlong)
  refine ⟨_, _, hrun, ?_, fun other hne => Function.update_of_ne hne _ _⟩
  rw [Function.update_self, ← hcounted]
  cases hexpire : (entries k).bind expireAt with
  | none =>
      rw [living_of_eq_none (by rw [hseen]; exact hexpire),
        if_neg (by have := hlimit hexpire; omega)]
      rfl
  | some t =>
      rw [living_of_ne_none (by rw [hseen, hexpire]; exact Option.some_ne_none t)]
      rfl

/-- A call is counted on counters that last. -/
theorem countCall_of_lasting {keys : CallCounter → Str} (hkeys : Function.Injective keys)
    {lifeTimes : CallCounter → Int}
    (hlasts : ∀ counter ∈ limited,
      (∀ t, (entries (keys counter)).bind expireAt = some t → now ≤ t) ∧
        ((entries (keys counter)).bind expireAt = none → 0 < lifeTimes counter))
    (hlong : ∀ counter ∈ limited,
      isLong (CounterEntry.number (entries (keys counter)) + increment) = true)
    (htotal : isLong (CounterEntry.number (seen now (entries (keys .total))) + increment) = true) :
    ∃ calls after, countCall now keys increment lifeTimes entries = (.ok calls, after) ∧
      (∀ counter ∈ limited, CounterEntry.number (after (keys counter)) =
        CounterEntry.number (entries (keys counter)) + increment) ∧
      CounterEntry.number (after (keys .total)) =
        CounterEntry.number (seen now (entries (keys .total))) + increment := by
  have hwindow := hlasts .window (by decide)
  obtain ⟨wc, first, hw, hwn, hwo⟩ := bumpMillis_of_lasting hwindow.1 hwindow.2
    (hlong .window (by decide))
  have hfirst : ∀ counter, counter ≠ .window → first (keys counter) = entries (keys counter) :=
    fun counter hne => hwo _ (hkeys.ne hne)
  have hday := hlasts .day (by decide)
  have hdayLong := hlong .day (by decide)
  rw [← hfirst .day (by decide)] at hday hdayLong
  obtain ⟨dc, second, hd, hdn, hdo⟩ := bumpMillis_of_lasting hday.1 hday.2 hdayLong
  have hsecond : ∀ counter, counter ≠ .window → counter ≠ .day →
      second (keys counter) = entries (keys counter) :=
    fun counter hne hne' => (hdo _ (hkeys.ne hne')).trans (hfirst counter hne)
  have hmonth := hlasts .month (by decide)
  have hmonthLong := hlong .month (by decide)
  rw [← hsecond .month (by decide) (by decide)] at hmonth hmonthLong
  obtain ⟨mc, third, hm, hmn, hmo⟩ := bumpMillis_of_lasting hmonth.1 hmonth.2 hmonthLong
  have hthird : third (keys .total) = entries (keys .total) :=
    (hmo _ (hkeys.ne (by decide))).trans (hsecond .total (by decide) (by decide))
  rw [← hthird] at htotal
  have htc := incrbyEntry_of_isLong htotal
  refine ⟨(wc, dc, mc), Function.update third (keys .total)
    (some (countedEntry now (keys .total) increment third)), ?_, ?_, ?_⟩
  · rw [countCall, bind_of_ok hw, bind_of_ok hd, bind_of_ok hm, bind_of_ok htc]
    rfl
  · have hlast : ∀ counter, counter ≠ .total → Function.update third (keys .total)
        (some (countedEntry now (keys .total) increment third)) (keys counter) =
          third (keys counter) :=
      fun counter hne => Function.update_of_ne (hkeys.ne hne) _ _
    intro counter hcounter
    cases counter with
    | window =>
        rw [hlast .window (by decide), hmo _ (hkeys.ne (by decide)), hdo _ (hkeys.ne (by decide)),
          hwn]
    | day =>
        rw [hlast .day (by decide), hmo _ (hkeys.ne (by decide)), hdn, hfirst .day (by decide)]
    | month => rw [hlast .month (by decide), hmn, hsecond .month (by decide) (by decide)]
    | total => exact absurd hcounter (by decide)
  · rw [Function.update_self, ← hthird]
    rfl

theorem hasRoom_one_iff (counts : CallCounter → Int) :
    allowedQuotas.hasRoom 1 counts = true ↔ 0 < remaining allowedQuotas counts := by
  rw [AllowedQuota.hasRoom, remaining, Bool.and_eq_true, Bool.and_eq_true, decide_eq_true_eq,
    decide_eq_true_eq, decide_eq_true_eq]
  omega

theorem Bounded.allHeld {counts : CallCounter → Int} (h : Bounded allowedQuotas counts) :
    allowedQuotas.AllHeld 1 counts := by
  have hheld : ∀ limit ∈ [allowedQuotas.window, allowedQuotas.daily, allowedQuotas.monthly],
      ∀ counter ∈ limited, Held limit.1 1 (counts counter) := by
    intro limit hlimit counter hcounter
    have hlimits := h.limits limit hlimit
    have hcounters := h.counters counter hcounter
    constructor <;> omega
  exact ⟨hheld _ (by simp) _ (by decide), hheld _ (by simp) _ (by decide),
    hheld _ (by simp) _ (by decide)⟩

theorem AllHeld.congr {counts counts' : CallCounter → Int}
    (h : ∀ counter ∈ limited, counts' counter = counts counter) :
    (allowedQuotas.AllHeld increment counts → allowedQuotas.AllHeld increment counts') ∧
      allowedQuotas.hasRoom increment counts' = allowedQuotas.hasRoom increment counts := by
  have hwindow := h .window (by decide)
  have hday := h .day (by decide)
  have hmonth := h .month (by decide)
  constructor
  · intro hheld
    exact ⟨by rw [hwindow]; exact hheld.window, by rw [hday]; exact hheld.day,
      by rw [hmonth]; exact hheld.month⟩
  · rw [AllowedQuota.hasRoom, AllowedQuota.hasRoom, hwindow, hday, hmonth]

/-- An accepted call takes one of what is left. -/
theorem Bounded.counted {counts counts' : CallCounter → Int}
    (h : Bounded allowedQuotas counts) (hroom : 0 < remaining allowedQuotas counts)
    (hlimited : ∀ counter ∈ limited, counts' counter = counts counter + 1)
    (htotal : counts' .total = counts .total + 1 ∨ counts' .total = 1) :
    Bounded allowedQuotas counts' ∧
      remaining allowedQuotas counts' = remaining allowedQuotas counts - 1 := by
  have hwindow := hlimited .window (by decide)
  have hday := hlimited .day (by decide)
  have hmonth := hlimited .month (by decide)
  have hlimits := h.limits
  have hcounters := h.counters
  have hold := h.total
  simp only [List.mem_cons, List.not_mem_nil, or_false, forall_eq_or_imp, forall_eq, limited]
    at hlimits hcounters
  have hremaining : remaining allowedQuotas counts' = remaining allowedQuotas counts - 1 := by
    rw [remaining, remaining, hwindow, hday, hmonth]
    omega
  have hbelow : remaining allowedQuotas counts ≤ 2 ^ 54 := by
    rw [remaining]
    omega
  refine ⟨⟨h.limits, ?_, ?_⟩, hremaining⟩
  · rw [remaining] at hroom
    simp only [List.mem_cons, List.not_mem_nil, or_false, forall_eq_or_imp, forall_eq, limited]
    omega
  · rw [hremaining]
    omega

/-- One call of the name takes one of what is left, if anything is. -/
theorem Bounded.serve (hL : L.Standard)
    (h : Bounded call.allowedQuotas (counts storageRoot call.name entries))
    (hone : call.increment = 1) (hlasts : Lasts storageRoot calendar call entries) :
    Bounded call.allowedQuotas
        (counts storageRoot call.name (call.serve L storageRoot calendar entries)) ∧
      remaining call.allowedQuotas
          (counts storageRoot call.name (call.serve L storageRoot calendar entries)) =
        remaining call.allowedQuotas (counts storageRoot call.name entries) - 1 ∧
      ((call.result L storageRoot calendar entries).map (·.allowed) = .ok true ↔
        0 < remaining call.allowedQuotas (counts storageRoot call.name entries)) := by
  have hseen : ∀ counter ∈ limited,
      countAt call.clock.executed (counterKey storageRoot call.name) entries counter =
        counts storageRoot call.name entries counter := by
    intro counter hcounter
    rw [countAt, counts, seen_of_lasting (hlasts counter hcounter).1]
  obtain ⟨hheld, hroom⟩ := @AllHeld.congr call.allowedQuotas 1 _ _ hseen
  have hrun := @script_mirrors L storageRoot call.name calendar 1 call.expirationSeconds entries
    call.allowedQuotas hL call.clock (hheld h.allHeld)
  rw [hroom] at hrun
  rw [ScriptCall.serve, ScriptCall.result, hone, ← hasRoom_one_iff]
  cases haccepts : call.allowedQuotas.hasRoom 1 (counts storageRoot call.name entries) with
  | false =>
      have hnone : remaining call.allowedQuotas (counts storageRoot call.name entries) = 0 := by
        have hiff := @hasRoom_one_iff call.allowedQuotas (counts storageRoot call.name entries)
        rw [haccepts] at hiff
        exact Nat.eq_zero_of_not_pos fun hpos => Bool.false_ne_true (hiff.mpr hpos)
      rw [haccepts, if_neg Bool.false_ne_true] at hrun
      obtain ⟨refused, hrefused, hrun⟩ := hrun
      rw [hrun, hnone, map_ok, hrefused]
      refine ⟨h, rfl, iff_of_false ?_ Bool.false_ne_true⟩
      intro htrue
      cases htrue
  | true =>
      have hpos := hasRoom_one_iff _ |>.mp haccepts
      have hlong : ∀ counter ∈ limited,
          isLong (CounterEntry.number (entries (counterKey storageRoot call.name counter)) + 1) =
            true := by
        intro counter hcounter
        have hcounters := h.counters counter hcounter
        rw [counts] at hcounters
        rw [isLong, Bool.and_eq_true, decide_eq_true_eq, decide_eq_true_eq]
        omega
      have htotal : CounterEntry.number
            (seen call.clock.executed (entries (counterKey storageRoot call.name .total))) =
          counts storageRoot call.name entries .total ∨ CounterEntry.number
            (seen call.clock.executed (entries (counterKey storageRoot call.name .total))) = 0 := by
        rw [counts, seen]
        cases hentry : entries (counterKey storageRoot call.name .total) with
        | none => exact Or.inl rfl
        | some entry =>
            rw [Option.filter_some]
            split
            · exact Or.inl rfl
            · exact Or.inr rfl
      have hbound := h.total
      obtain ⟨calls, after, hcall, hlimited, htotalAfter⟩ := countCall_of_lasting
        (counterKey_injective storageRoot call.name) hlasts hlong (by
          rw [isLong, Bool.and_eq_true, decide_eq_true_eq, decide_eq_true_eq]
          omega)
      rw [haccepts, if_pos rfl, Mirrors, hcall] at hrun
      rw [hrun.2, hrun.1]
      have hcounted : Bounded call.allowedQuotas (counts storageRoot call.name after) ∧
          remaining call.allowedQuotas (counts storageRoot call.name after) =
            remaining call.allowedQuotas (counts storageRoot call.name entries) - 1 := by
        apply h.counted hpos hlimited
        rw [htotalAfter]
        omega
      exact ⟨hcounted.1, hcounted.2, iff_of_true rfl rfl⟩

/-- The counters of other names stand where they stood. -/
theorem counts_serve_of_ne {name : Str} (hne : call.name ≠ name) :
    counts storageRoot name (call.serve L storageRoot calendar entries) =
      counts storageRoot name entries := by
  funext counter
  have hkept : Keeps (fun after : CounterEntries =>
      after (counterKey storageRoot name counter) = entries (counterKey storageRoot name counter))
      (checkAndIncrement L storageRoot calendar call.clock call.name call.increment
        call.allowedQuotas call.expirationSeconds) := by
    apply keeps_bind
    · apply Script.keeps_script
      intro i hi
      have hkeys : ∀ key ∈ keys storageRoot call.name,
          counterKey storageRoot name counter ≠ key := by
        intro key hkey
        simp only [keys, List.mem_cons, List.not_mem_nil, or_false] at hkey
        rcases hkey with rfl | rfl | rfl | rfl
        all_goals exact counterKey_ne storageRoot (Ne.symm hne) _ _
      apply hkeys
      simp only [List.mem_cons, List.not_mem_nil, or_false] at hi
      rcases hi with rfl | rfl | rfl | rfl
      all_goals simp [keys, Script.nth]
    · intro list _ _ _
      exact keeps_pure _
  rw [counts, counts, ScriptCall.serve, hkept entries rfl]

end Step

/-- Of calls that come in any order as many are accepted as are left under the smallest
limit. -/
theorem accepted_eq_min {L : ScriptPlatform} (hL : L.Standard) (storageRoot : Str)
    (calendar : Calendar) (name : Str) (allowedQuotas : AllowedQuota) (calls : List ScriptCall)
    (entries : CounterEntries)
    (hcalls : ∀ call ∈ calls, call.name = name →
      call.increment = 1 ∧ call.allowedQuotas = allowedQuotas)
    (hbounded : Bounded allowedQuotas (counts storageRoot name entries))
    (hlasts : Along (fun call => call.serve L storageRoot calendar)
      (fun entries call _ => call.name = name → Lasts storageRoot calendar call entries)
      entries calls) :
    accepted L storageRoot calendar name calls entries =
      min (calls.countP fun call => call.name = name)
        (remaining allowedQuotas (counts storageRoot name entries)) := by
  induction calls generalizing entries with
  | nil => rw [accepted, List.countP_nil, Nat.zero_min]
  | cons call calls ih =>
      rw [List.forall_mem_cons] at hcalls
      rw [accepted, List.countP_cons]
      by_cases hname : call.name = name
      · obtain ⟨hone, hquotas⟩ := hcalls.1 hname
        subst hname hquotas
        obtain ⟨hafter, hremaining, hallowed⟩ := hbounded.serve hL hone (hlasts.1 rfl)
        rw [ih _ hcalls.2 hafter hlasts.2, hremaining, if_pos (decide_eq_true rfl)]
        by_cases hpos : 0 < remaining call.allowedQuotas (counts storageRoot call.name entries)
        · rw [if_pos ⟨rfl, hallowed.mpr hpos⟩]
          omega
        · rw [if_neg (fun h => hpos (hallowed.mp h.2))]
          omega
      · rw [if_neg (fun h => hname h.1), ih _ hcalls.2 _ hlasts.2, counts_serve_of_ne hname,
          decide_eq_false hname, if_neg Bool.false_ne_true, Nat.zero_add, Nat.add_zero]
        · rw [counts_serve_of_ne hname]
          exact hbounded

/-- The script refines the strategy of several commands, and its calls share the smallest
limit, as long as the limits, the increments and the counters are numbers that a `Double`
holds and no counter expires or goes on the way. -/
theorem script_refines {L : ScriptPlatform} (hL : L.Standard) {P : StorePlatform}
    (hP : P.Standard) (storageRoot : Str) (calendar : Calendar) :
    (∀ (now : Int) (key : Str) (increment : Int) (allowedQuotas : AllowedQuota)
      (expirationSeconds : Int) (entries : CounterEntries),
      calendar.month.next now - now < 1000 * 2 ^ 31 →
      -2 ^ 31 ≤ expirationSeconds ∧ expirationSeconds < 2 ^ 31 →
      allowedQuotas.AllHeld increment (countAt now (counterKey storageRoot key) entries) →
        (checkAndIncrement L storageRoot calendar (.at now) key increment allowedQuotas
            expirationSeconds entries).1.map (·.allowed) =
          ((store P storageRoot calendar).checkAndIncrement (.at now) key increment allowedQuotas
            expirationSeconds entries).1.map (·.allowed) ∧
        (checkAndIncrement L storageRoot calendar (.at now) key increment allowedQuotas
            expirationSeconds entries).2 =
          ((store P storageRoot calendar).checkAndIncrement (.at now) key increment allowedQuotas
            expirationSeconds entries).2) ∧
      ∀ (name : Str) (allowedQuotas : AllowedQuota) (calls : List ScriptCall)
        (entries : CounterEntries),
        (∀ call ∈ calls, call.name = name →
          call.increment = 1 ∧ call.allowedQuotas = allowedQuotas) →
        Bounded allowedQuotas (counts storageRoot name entries) →
        Along (fun call => call.serve L storageRoot calendar)
          (fun entries call _ => call.name = name → Lasts storageRoot calendar call entries)
          entries calls →
          accepted L storageRoot calendar name calls entries =
            min (calls.countP fun call => call.name = name)
              (remaining allowedQuotas (counts storageRoot name entries)) := by
  constructor
  · intro now key increment allowedQuotas expirationSeconds entries hmonth hseconds hheld
    exact script_refines_store hL hP hmonth hseconds hheld
  · intro name allowedQuotas calls entries hcalls hbounded hlasts
    exact accepted_eq_min hL storageRoot calendar name allowedQuotas calls entries hcalls hbounded
      hlasts

section Example

/-- Numbers as Redis writes them. -/
def decimal : ScriptPlatform := ⟨longText⟩

theorem decimal_standard : decimal.Standard := fun _ _ _ => rfl

/-- A day that takes as many calls as a `Long` can count. -/
def greatestDay : AllowedQuota := { daily := ⟨2 ^ 63 - 1, isLong_last⟩ }

/-- A day that takes two calls. -/
def twoCalls : AllowedQuota := { daily := ⟨2, isLong_two⟩ }

/-- A call at noon. -/
def noonCall : ScriptCall := ⟨.at 43200000, "key".toList, 1, twoCalls, 10⟩

theorem script_refines_example :
    (checkAndIncrement decimal "otoroshi".toList .january1970 (.at 43200000) "key".toList 1 twoCalls
        10 fun _ => none).1.map (·.allowed) =
      ((store starStorePlatform "otoroshi".toList .january1970).checkAndIncrement (.at 43200000)
        "key".toList 1 twoCalls 10 fun _ => none).1.map (·.allowed) ∧
    accepted decimal "otoroshi".toList .january1970 "key".toList [noonCall, noonCall, noonCall]
      (fun _ => none) = min 3 2 := by
  have hrefines := script_refines decimal_standard StoreEvent.starStorePlatform_standard
    "otoroshi".toList .january1970
  constructor
  · have hheld : ∀ limit : Int, 0 ≤ limit → limit ≤ 10000000 → Held limit 1 0 := by
      intro limit hlow hhigh
      constructor <;> omega
    exact (hrefines.1 43200000 "key".toList 1 twoCalls 10 (fun _ => none) (by decide) (by decide)
      ⟨hheld _ (by decide) (by decide), hheld _ (by decide) (by decide),
        hheld _ (by decide) (by decide)⟩).1
  · apply (hrefines.2 "key".toList twoCalls [noonCall, noonCall, noonCall] (fun _ => none) _ _ _)
    · simp [noonCall]
    · constructor
      · decide
      · decide
      · decide
    · decide +kernel

/-- Under the greatest limit the script takes a call, and the other strategies take none. -/
theorem exists_script_ne_store : ¬ ∀ (allowedQuotas : AllowedQuota) (entries : CounterEntries),
    (checkAndIncrement decimal "otoroshi".toList .january1970 (.at 0) "key".toList 1 allowedQuotas
        10 entries).1.map (·.allowed) =
      ((store starStorePlatform "otoroshi".toList .january1970).checkAndIncrement (.at 0)
        "key".toList 1 allowedQuotas 10 entries).1.map (·.allowed) := by
  intro h
  have hsame := h greatestDay fun _ => none
  revert hsame
  decide +kernel

end Example

end ScriptCall

end Otoroshi
