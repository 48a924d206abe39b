/-
# The quotas of an api key

The calls of a key are counted in a window, in the day, in the month and over all.
One way to use the counters is to increment them and to look afterwards whether they
are within the limits of the key. The other is to look first, and this is written
twice: over the counters, and over what remains of them.

Counting first is exact. `updateQuotasAndCheck_run` says which calls of a run are
accepted and what every call answers. The two ways to look first differ at the limit
of the window, where one of them compares with `≤` what the other compares with `<`.
-/

import Otoroshi.Apikeys.Authorizations
import Otoroshi.Foundation.Calendar
import Otoroshi.Storage.Counters

namespace Otoroshi

open Stateful

structure RemainingQuotas where
  authorizedCallsPerWindow : Int
  throttlingCallsPerWindow : Int
  remainingCallsPerWindow : Int
  authorizedCallsPerDay : Int
  currentCallsPerDay : Int
  remainingCallsPerDay : Int
  authorizedCallsPerMonth : Int
  currentCallsPerMonth : Int
  remainingCallsPerMonth : Int
  deriving DecidableEq

/-- The counters of a key, in the order in which a call is counted. -/
inductive CallCounter
  | window
  | day
  | month
  | total
  deriving DecidableEq

/-- The instants of a call that counts: its four reads of the clock, and the times of
its commands on each counter. -/
structure CountedCall where
  readForDayEnd : Int
  readToDayEnd : Int
  readForMonthEnd : Int
  readToMonthEnd : Int
  commands : CallCounter → BumpTimes

/-- The data store of keys, with what it reads of the environment. -/
structure KvApiKeyDataStore (σ : Type) where
  redisCli : CounterStore σ
  platform : StorePlatform
  storageRoot : Str
  /-- in seconds -/
  throttlingWindow : Int
  calendar : Calendar

namespace KvApiKeyDataStore

variable {σ Throttling Plugins : Type} (dataStore : KvApiKeyDataStore σ)

/-! ## The counters -/

def totalCallsKey (name : Str) : Str :=
  dataStore.storageRoot ++ ":apikey:quotas:global:".toList ++ name

def dailyQuotaKey (name : Str) : Str :=
  dataStore.storageRoot ++ ":apikey:quotas:daily:".toList ++ name

def monthlyQuotaKey (name : Str) : Str :=
  dataStore.storageRoot ++ ":apikey:quotas:monthly:".toList ++ name

def throttlingKey (name : Str) : Str :=
  dataStore.storageRoot ++ ":apikey:quotas:second:".toList ++ name

/-- The key of a counter in the store. -/
def counterKey (name : Str) : CallCounter → Str
  | .window => dataStore.throttlingKey name
  | .day => dataStore.dailyQuotaKey name
  | .month => dataStore.monthlyQuotaKey name
  | .total => dataStore.totalCallsKey name

theorem counterKey_injective (name : Str) : Function.Injective (dataStore.counterKey name) := by
  have hkind : ∀ first second : Str, dataStore.storageRoot ++ first ++ name =
      dataStore.storageRoot ++ second ++ name → first = second := by
    intro first second h
    exact List.append_cancel_left (List.append_cancel_right h)
  intro first second h
  cases first <;> cases second <;> first | rfl | exact absurd (hkind _ _ h) (by decide)

/-- Read a counter. -/
def calls (now : Int) (key : Str) : Stateful σ StoreException Int :=
  dataStore.redisCli.count dataStore.platform now key

/-! ## Counting first -/

/-- What a call that counts answers for its counters. -/
def quotasOf (apiKey : Entities.ApiKey Throttling Plugins)
    (secCalls dailyCalls monthlyCalls : Int) : RemainingQuotas where
  authorizedCallsPerWindow := apiKey.throttlingQuota.1
  throttlingCallsPerWindow := secCalls
  remainingCallsPerWindow := max 0 (wrapLong (apiKey.throttlingQuota.1 - secCalls))
  authorizedCallsPerDay := apiKey.dailyQuota.1
  currentCallsPerDay := dailyCalls
  remainingCallsPerDay := max 0 (wrapLong (apiKey.dailyQuota.1 - dailyCalls))
  authorizedCallsPerMonth := apiKey.monthlyQuota.1
  currentCallsPerMonth := monthlyCalls
  remainingCallsPerMonth := max 0 (wrapLong (apiKey.monthlyQuota.1 - monthlyCalls))

/-- Count a call, and answer whether the counters are within the limits of the key. -/
def updateQuotasAndCheck (call : CountedCall) (apiKey : Entities.ApiKey Throttling Plugins)
    (increment : Int) : Stateful σ StoreException (RemainingQuotas × Bool) := do
  let dayEnd := dataStore.calendar.dayEnd call.readForDayEnd
  let toDayEnd := secondsUntil dayEnd call.readToDayEnd
  let monthEnd := dataStore.calendar.monthEnd call.readForMonthEnd
  let toMonthEnd := secondsUntil monthEnd call.readToMonthEnd
  let secCalls ← dataStore.redisCli.bump (call.commands .window)
    (dataStore.throttlingKey apiKey.clientId) increment dataStore.throttlingWindow
  let dailyCalls ← dataStore.redisCli.bump (call.commands .day)
    (dataStore.dailyQuotaKey apiKey.clientId) increment toDayEnd
  let monthlyCalls ← dataStore.redisCli.bump (call.commands .month)
    (dataStore.monthlyQuotaKey apiKey.clientId) increment toMonthEnd
  let _ ← dataStore.redisCli.incrby (call.commands .total).incrby
    (dataStore.totalCallsKey apiKey.clientId) increment
  let withinQuota := secCalls ≤ apiKey.throttlingQuota.1 && dailyCalls ≤ apiKey.dailyQuota.1 &&
    monthlyCalls ≤ apiKey.monthlyQuota.1
  pure (quotasOf apiKey secCalls dailyCalls monthlyCalls, withinQuota)

/-! ## Looking first -/

def remainingQuotas (now : Int) (apiKey : Entities.ApiKey Throttling Plugins) :
    Stateful σ StoreException RemainingQuotas := do
  let throttlingCallsPerWindow ← dataStore.calls now (dataStore.throttlingKey apiKey.clientId)
  let dailyCalls ← dataStore.calls now (dataStore.dailyQuotaKey apiKey.clientId)
  let monthlyCalls ← dataStore.calls now (dataStore.monthlyQuotaKey apiKey.clientId)
  pure (quotasOf apiKey throttlingCallsPerWindow dailyCalls monthlyCalls)

def withinThrottlingQuota (now : Int) (apiKey : Entities.ApiKey Throttling Plugins) :
    Stateful σ StoreException Bool := do
  let calls ← dataStore.calls now (dataStore.throttlingKey apiKey.clientId)
  pure (calls ≤ apiKey.throttlingQuota.1)

def withinDailyQuota (now : Int) (apiKey : Entities.ApiKey Throttling Plugins) :
    Stateful σ StoreException Bool := do
  let calls ← dataStore.calls now (dataStore.dailyQuotaKey apiKey.clientId)
  pure (calls < apiKey.dailyQuota.1)

def withinMonthlyQuota (now : Int) (apiKey : Entities.ApiKey Throttling Plugins) :
    Stateful σ StoreException Bool := do
  let calls ← dataStore.calls now (dataStore.monthlyQuotaKey apiKey.clientId)
  pure (calls < apiKey.monthlyQuota.1)

def withingQuotas (now : Int) (apiKey : Entities.ApiKey Throttling Plugins) :
    Stateful σ StoreException Bool := do
  let sec ← dataStore.withinThrottlingQuota now apiKey
  let day ← dataStore.withinDailyQuota now apiKey
  let mon ← dataStore.withinMonthlyQuota now apiKey
  pure (sec && day && mon)

/-- `withinQuotasAndRotationQuotas` of a key. The rotation of its secret is evaluated
between the reading and the verdict. -/
def withinQuotasAndRotationQuotas {Rotation : Type} (now : Int)
    (keyRotation : Entities.ApiKey Throttling Plugins → Stateful σ StoreException Rotation)
    (apiKey : Entities.ApiKey Throttling Plugins) :
    Stateful σ StoreException (Bool × Rotation × RemainingQuotas) := do
  let quotas ← dataStore.remainingQuotas now apiKey
  let rotation ← keyRotation apiKey
  let within := 0 < quotas.remainingCallsPerWindow &&
    quotas.currentCallsPerDay < apiKey.dailyQuota.1 &&
    quotas.currentCallsPerMonth < apiKey.monthlyQuota.1
  pure (within, rotation, quotas)

/-! ## What the counters stand at -/

section Stands

variable {dataStore} {state : σ} {name : Str} {counts : CallCounter → Int} {increment : Int}

variable (dataStore) in
/-- The counters of a key stand at these numbers. -/
def StandAt (name : Str) (counts : CallCounter → Int) (state : σ) : Prop :=
  dataStore.redisCli.StandAt dataStore.platform (dataStore.counterKey name) counts state

theorem calls_of_standAt (h : dataStore.StandAt name counts state) (now : Int) (i : CallCounter) :
    dataStore.calls now (dataStore.counterKey name i) state = (.ok (counts i), state) :=
  h i now

variable (dataStore) in
/-- The store of the data store is lawful. -/
abbrev Lawful : Prop := dataStore.redisCli.Lawful dataStore.platform

/-- The verdict over counters that were incremented. -/
def withinQuota (apiKey : Entities.ApiKey Throttling Plugins) (counts : CallCounter → Int) : Bool :=
  counts .window ≤ apiKey.throttlingQuota.1 && counts .day ≤ apiKey.dailyQuota.1 &&
    counts .month ≤ apiKey.monthlyQuota.1

/-- What a call answers that adds to these counters. -/
def answer (apiKey : Entities.ApiKey Throttling Plugins) (counts : CallCounter → Int)
    (increment : Int) : RemainingQuotas × Bool :=
  (quotasOf apiKey (counts .window + increment) (counts .day + increment)
      (counts .month + increment),
    withinQuota apiKey fun i => counts i + increment)

/-- A call that counts adds its increment to the four counters, and answers for their
new numbers. -/
theorem updateQuotasAndCheck_apply (hstore : dataStore.Lawful) (call : CountedCall)
    (apiKey : Entities.ApiKey Throttling Plugins)
    (hstand : dataStore.StandAt apiKey.clientId counts state)
    (hlong : ∀ i, isLong (counts i + increment) = true) :
    ∃ after, dataStore.updateQuotasAndCheck call apiKey increment state =
        (.ok (answer apiKey counts increment), after) ∧
      dataStore.StandAt apiKey.clientId (fun i => counts i + increment) after := by
  have hkeys := dataStore.counterKey_injective apiKey.clientId
  obtain ⟨windowed, hwindow, hwindowed⟩ := hstore.bumpAt hkeys hstand (call.commands .window)
    .window dataStore.throttlingWindow (hlong .window)
  obtain ⟨daily, hday, hdaily⟩ := hstore.bumpAt hkeys hwindowed (call.commands .day) .day
    (secondsUntil (dataStore.calendar.dayEnd call.readForDayEnd) call.readToDayEnd) (hlong .day)
  obtain ⟨monthly, hmonth, hmonthly⟩ := hstore.bumpAt hkeys hdaily (call.commands .month) .month
    (secondsUntil (dataStore.calendar.monthEnd call.readForMonthEnd) call.readToMonthEnd)
    (hlong .month)
  obtain ⟨after, htotal, hafter⟩ := hstore.incrbyAt hkeys hmonthly (call.commands .total).incrby
    .total (hlong .total)
  refine ⟨after, ?_, ?_⟩
  · apply (bind_of_ok hwindow).trans
    apply (bind_of_ok hday).trans
    apply (bind_of_ok hmonth).trans
    exact bind_of_ok htotal
  · intro i
    cases i <;> exact hafter _

/-! ## Runs of calls that count -/

/-- The least number of calls that a limit of the key still allows. -/
def remainingCalls (apiKey : Entities.ApiKey Throttling Plugins) (counts : CallCounter → Int) :
    Int :=
  min (apiKey.throttlingQuota.1 - counts .window)
    (min (apiKey.dailyQuota.1 - counts .day) (apiKey.monthlyQuota.1 - counts .month))

theorem withinQuota_add_iff (apiKey : Entities.ApiKey Throttling Plugins)
    (counts : CallCounter → Int) (n : Int) :
    withinQuota apiKey (fun i => counts i + n) = true ↔ n ≤ remainingCalls apiKey counts := by
  simp only [withinQuota, remainingCalls, Bool.and_eq_true, decide_eq_true_eq, le_min_iff]
  omega

/-- What some calls answer, one after the other. -/
def answersFrom (apiKey : Entities.ApiKey Throttling Plugins) (counts : CallCounter → Int)
    (n : Nat) : List (RemainingQuotas × Bool) :=
  (List.range n).map fun i : Nat => answer apiKey counts ((i : Int) + 1)

theorem answersFrom_succ (apiKey : Entities.ApiKey Throttling Plugins)
    (counts : CallCounter → Int) (n : Nat) :
    answersFrom apiKey counts (n + 1) =
      answer apiKey counts 1 :: answersFrom apiKey (fun i => counts i + 1) n := by
  rw [answersFrom, List.range_succ_eq_map, List.map_cons, List.map_map]
  congr 1
  apply List.map_congr_left
  intro i hi
  have hshift : ∀ c : Int, c + (((i + 1 : Nat) : Int) + 1) = c + 1 + ((i : Int) + 1) := by
    intro c
    omega
  simp only [Function.comp, Nat.succ_eq_add_one, answer, hshift]

/-- A run of calls that count: what each of them answers, and where the counters stand
afterwards. -/
theorem mapM_updateQuotasAndCheck (hstore : dataStore.Lawful)
    (apiKey : Entities.ApiKey Throttling Plugins) (calls : List CountedCall)
    (hstand : dataStore.StandAt apiKey.clientId counts state)
    (hroom : ∀ i, counts i + calls.length < 2 ^ 63) :
    ∃ after, calls.mapM (fun call => dataStore.updateQuotasAndCheck call apiKey 1) state =
        (.ok (answersFrom apiKey counts calls.length), after) ∧
      dataStore.StandAt apiKey.clientId (fun i => counts i + calls.length) after := by
  induction calls generalizing counts state with
  | nil =>
      refine ⟨state, rfl, ?_⟩
      simpa using hstand
  | cons call calls ih =>
      have hlong : ∀ i, isLong (counts i + 1) = true := by
        intro i
        have hlow := (hstand i).isLong
        have hhigh := hroom i
        rw [List.length_cons] at hhigh
        rw [isLong, Bool.and_eq_true, decide_eq_true_eq, decide_eq_true_eq] at hlow ⊢
        omega
      obtain ⟨middle, hfirst, hmiddle⟩ :=
        updateQuotasAndCheck_apply hstore call apiKey hstand hlong
      have hrest : ∀ i, counts i + 1 + (calls.length : Int) < 2 ^ 63 := by
        intro i
        have hhigh := hroom i
        rw [List.length_cons] at hhigh
        omega
      obtain ⟨after, hcalls, hafter⟩ := ih hmiddle hrest
      have hsum : (fun i => counts i + ((call :: calls).length : Int)) =
          fun i => counts i + 1 + (calls.length : Int) := by
        funext i
        rw [List.length_cons]
        omega
      refine ⟨after, ?_, ?_⟩
      · rw [List.mapM_cons, bind_of_ok hfirst, bind_of_ok hcalls, List.length_cons,
          answersFrom_succ]
        rfl
      · rw [hsum]
        exact hafter

/-- The first of some calls are accepted, and the others are not. -/
def firstAccepted (n accepted : Nat) : List Bool :=
  List.replicate (min n accepted) true ++ List.replicate (n - accepted) false

theorem map_range_lt (n accepted : Nat) :
    (List.range n).map (fun i => decide (i < accepted)) = firstAccepted n accepted := by
  apply List.ext_getElem
  · simp only [firstAccepted, List.length_map, List.length_range, List.length_append,
      List.length_replicate]
    omega
  · intro i hi _
    rw [List.length_map, List.length_range] at hi
    rw [List.getElem_map, List.getElem_range]
    by_cases haccepted : i < accepted
    · rw [decide_eq_true haccepted]
      simp only [firstAccepted]
      rw [List.getElem_append_left (by rw [List.length_replicate]; omega), List.getElem_replicate]
    · rw [decide_eq_false haccepted]
      simp only [firstAccepted]
      rw [List.getElem_append_right (by rw [List.length_replicate]; omega), List.getElem_replicate]

theorem map_snd_answersFrom (apiKey : Entities.ApiKey Throttling Plugins)
    (counts : CallCounter → Int) (n : Nat) :
    (answersFrom apiKey counts n).map Prod.snd =
      firstAccepted n (remainingCalls apiKey counts).toNat := by
  rw [← map_range_lt, answersFrom, List.map_map]
  apply List.map_congr_left
  intro i _
  apply Bool.eq_iff_iff.mpr
  rw [Function.comp, answer, withinQuota_add_iff, decide_eq_true_eq]
  omega

/-- What remains of a limit after some calls. -/
def Remains (limit calls remaining : Int) : Prop :=
  0 ≤ remaining ∧ (isLong (limit - calls) = true → remaining = max 0 (limit - calls))

theorem remains_max (limit calls : Int) :
    Remains limit calls (max 0 (wrapLong (limit - calls))) := by
  refine ⟨le_max_left _ _, fun hlong => ?_⟩
  rw [wrapLong_of_isLong hlong]

/-- The answer tells the limits of the key, the counters and what remains. -/
structure Exact (apiKey : Entities.ApiKey Throttling Plugins) (counts : CallCounter → Int)
    (quotas : RemainingQuotas) : Prop where
  window : quotas.throttlingCallsPerWindow = counts .window
  day : quotas.currentCallsPerDay = counts .day
  month : quotas.currentCallsPerMonth = counts .month
  remainingWindow :
    Remains apiKey.throttlingQuota.1 (counts .window) quotas.remainingCallsPerWindow
  remainingDay : Remains apiKey.dailyQuota.1 (counts .day) quotas.remainingCallsPerDay
  remainingMonth : Remains apiKey.monthlyQuota.1 (counts .month) quotas.remainingCallsPerMonth

theorem exact_answer (apiKey : Entities.ApiKey Throttling Plugins) (counts : CallCounter → Int)
    (increment : Int) :
    Exact apiKey (fun i => counts i + increment) (answer apiKey counts increment).1 where
  window := rfl
  day := rfl
  month := rfl
  remainingWindow := remains_max _ _
  remainingDay := remains_max _ _
  remainingMonth := remains_max _ _

variable (dataStore) in
/-- Calls that count, one after the other and with no counter at the end of the
`Long`s: the first ones are accepted, as many as the least limit still allows, and
each answers the new counters and what remains. -/
theorem updateQuotasAndCheck_run (hstore : dataStore.Lawful)
    (apiKey : Entities.ApiKey Throttling Plugins) (counts : CallCounter → Int) (state : σ)
    (hstand : dataStore.StandAt apiKey.clientId counts state) (calls : List CountedCall)
    (hroom : ∀ i, counts i + calls.length < 2 ^ 63) :
    ∃ answers after,
      calls.mapM (fun call => dataStore.updateQuotasAndCheck call apiKey 1) state =
        (.ok answers, after) ∧
      answers.map Prod.snd = firstAccepted calls.length (remainingCalls apiKey counts).toNat ∧
      ∀ (i : Nat) (quotas : RemainingQuotas) (accepted : Bool),
        answers[i]? = some (quotas, accepted) →
          Exact apiKey (fun counter => counts counter + (i + 1)) quotas := by
  obtain ⟨after, hrun, -⟩ := mapM_updateQuotasAndCheck hstore apiKey calls hstand hroom
  refine ⟨answersFrom apiKey counts calls.length, after, hrun, map_snd_answersFrom _ _ _, ?_⟩
  intro i quotas accepted hanswer
  have hfound : answer apiKey counts ((i : Int) + 1) = (quotas, accepted) := by
    rw [answersFrom, List.getElem?_map, List.getElem?_range] at hanswer
    · exact Option.some.inj hanswer
    · by_contra hlarge
      rw [List.getElem?_eq_none (by simpa using hlarge)] at hanswer
      cases hanswer
  have hexact := exact_answer apiKey counts ((i : Int) + 1)
  rwa [hfound] at hexact

/-! ## The two ways to look first -/

theorem withingQuotas_apply (apiKey : Entities.ApiKey Throttling Plugins)
    (hstand : dataStore.StandAt apiKey.clientId counts state) (now : Int) :
    dataStore.withingQuotas now apiKey state =
      (.ok (counts .window ≤ apiKey.throttlingQuota.1 && counts .day < apiKey.dailyQuota.1 &&
        counts .month < apiKey.monthlyQuota.1), state) := by
  have hsec : dataStore.withinThrottlingQuota now apiKey state =
      (.ok (decide (counts .window ≤ apiKey.throttlingQuota.1)), state) :=
    bind_of_ok (calls_of_standAt hstand now .window)
  have hday : dataStore.withinDailyQuota now apiKey state =
      (.ok (decide (counts .day < apiKey.dailyQuota.1)), state) :=
    bind_of_ok (calls_of_standAt hstand now .day)
  have hmon : dataStore.withinMonthlyQuota now apiKey state =
      (.ok (decide (counts .month < apiKey.monthlyQuota.1)), state) :=
    bind_of_ok (calls_of_standAt hstand now .month)
  rw [withingQuotas, bind_of_ok hsec, bind_of_ok hday, bind_of_ok hmon]
  rfl

theorem remainingQuotas_apply (apiKey : Entities.ApiKey Throttling Plugins)
    (hstand : dataStore.StandAt apiKey.clientId counts state) (now : Int) :
    dataStore.remainingQuotas now apiKey state =
      (.ok (quotasOf apiKey (counts .window) (counts .day) (counts .month)), state) := by
  apply (bind_of_ok (calls_of_standAt hstand now .window)).trans
  apply (bind_of_ok (calls_of_standAt hstand now .day)).trans
  exact bind_of_ok (calls_of_standAt hstand now .month)

theorem withinQuotasAndRotationQuotas_apply {Rotation : Type} {rotation : Rotation} {after : σ}
    {keyRotation : Entities.ApiKey Throttling Plugins → Stateful σ StoreException Rotation}
    (apiKey : Entities.ApiKey Throttling Plugins)
    (hstand : dataStore.StandAt apiKey.clientId counts state)
    (hrotation : keyRotation apiKey state = (.ok rotation, after)) (now : Int) :
    dataStore.withinQuotasAndRotationQuotas now keyRotation apiKey state =
      (.ok (0 < max 0 (wrapLong (apiKey.throttlingQuota.1 - counts .window)) &&
          counts .day < apiKey.dailyQuota.1 && counts .month < apiKey.monthlyQuota.1,
        rotation, quotasOf apiKey (counts .window) (counts .day) (counts .month)), after) := by
  rw [withinQuotasAndRotationQuotas, bind_of_ok (remainingQuotas_apply apiKey hstand now),
    bind_of_ok hrotation]
  rfl

/-- A difference of two `Long`s that is none changes its sign. -/
theorem wrapLong_sub_pos_iff {limit calls : Int} (hlimit : isLong limit = true)
    (hcalls : isLong calls = true) (hlong : ¬ isLong (limit - calls) = true) :
    0 < wrapLong (limit - calls) ↔ limit < calls := by
  rw [isLong, Bool.and_eq_true, decide_eq_true_eq, decide_eq_true_eq] at hlimit hcalls hlong
  rw [wrapLong, Int.bmod_def]
  split <;> omega

/-- Something remains of a limit as long as it is not exceeded, but for the limit itself
and for a difference that is no `Long`. -/
theorem remains_iff {limit calls : Int} (hlimit : isLong limit = true)
    (hcalls : isLong calls = true) :
    (calls ≤ limit ↔ 0 < max 0 (wrapLong (limit - calls))) ↔
      calls ≠ limit ∧ isLong (limit - calls) = true := by
  rw [lt_max_iff, or_iff_right (lt_irrefl 0)]
  by_cases hlong : isLong (limit - calls) = true
  · rw [wrapLong_of_isLong hlong]
    simp only [hlong, and_true]
    omega
  · rw [wrapLong_sub_pos_iff hlimit hcalls hlong]
    simp only [hlong, Bool.false_eq_true, and_false, iff_false]
    intro hsame
    omega

variable (dataStore) in
/-- The two ways to look first accept and reject alike exactly when the day or the month
is used up, or the calls of the window are not just at their limit and their difference
to it is a `Long`. -/
theorem withingQuotas_eq_iff {Rotation : Type} (apiKey : Entities.ApiKey Throttling Plugins)
    (counts : CallCounter → Int) (state after : σ)
    (hstand : dataStore.StandAt apiKey.clientId counts state) (now : Int)
    (keyRotation : Entities.ApiKey Throttling Plugins → Stateful σ StoreException Rotation)
    (rotation : Rotation) (hrotation : keyRotation apiKey state = (.ok rotation, after)) :
    (dataStore.withingQuotas now apiKey state).1 =
        (dataStore.withinQuotasAndRotationQuotas now keyRotation apiKey state).1.map Prod.fst ↔
      apiKey.dailyQuota.1 ≤ counts .day ∨ apiKey.monthlyQuota.1 ≤ counts .month ∨
        counts .window ≠ apiKey.throttlingQuota.1 ∧
          isLong (apiKey.throttlingQuota.1 - counts .window) = true := by
  have hwindow := remains_iff apiKey.throttlingQuota.2 (hstand .window).isLong
  rw [withingQuotas_apply apiKey hstand now,
    withinQuotasAndRotationQuotas_apply apiKey hstand hrotation now, map_ok, Except.ok.injEq,
    ← hwindow, Bool.eq_iff_iff]
  simp only [Bool.and_eq_true, decide_eq_true_eq]
  by_cases hday : counts .day < apiKey.dailyQuota.1
  · by_cases hmonth : counts .month < apiKey.monthlyQuota.1
    · simp only [hday, hmonth, and_true, Int.not_le.mpr hday, Int.not_le.mpr hmonth, false_or]
    · simp only [hmonth, and_false, Int.not_lt.mp hmonth, true_or, or_true]
  · simp only [hday, and_false, false_and, Int.not_lt.mp hday, true_or]

end Stands

/-! ## An example -/

section Example

/-- A data store over the modern in-memory store. -/
def exampleDataStore : KvApiKeyDataStore Memory where
  redisCli := .inMemory starStorePlatform .modern
  platform := starStorePlatform
  storageRoot := "otoroshi".toList
  throttlingWindow := 10
  calendar := .january1970

/-- A key with a limit for its window. -/
def limitedKey (throttlingQuota : Long) : Entities.ApiKey Unit Unit where
  clientId := "id".toList
  clientSecret := "secret".toList
  clientName := "name".toList
  authorizedEntities := []
  throttlingQuota

/-- A call at noon of the first day. -/
def noonCall : CountedCall where
  readForDayEnd := 43200000
  readToDayEnd := 43200000
  readForMonthEnd := 43200000
  readToMonthEnd := 43200000
  commands _ := ⟨43200000, 43200000, 43200000⟩

theorem exampleDataStore_lawful : exampleDataStore.Lawful :=
  CounterStore.lawful_inMemory StoreEvent.starStorePlatform_standard .modern

theorem standAt_iff {name : Str} {counts : CallCounter → Int} {memory : Memory} :
    exampleDataStore.StandAt name counts memory ↔
      ∀ counter, CounterStore.countOf starStorePlatform .modern
        (memory.value? (exampleDataStore.counterKey name counter)) = .ok (counts counter) := by
  apply forall_congr'
  intro counter
  show CounterStore.Stands starStorePlatform (.inMemory starStorePlatform .modern) memory
    (exampleDataStore.counterKey name counter) (counts counter) ↔ _
  exact CounterStore.stands_inMemory_iff

/-- In an empty memory every counter stands at zero. -/
theorem standAt_empty (name : Str) : exampleDataStore.StandAt name (fun _ => 0) .empty :=
  standAt_iff.mpr fun _ => rfl

/-- The counter of the window has reached the end of the `Long`s. -/
def fullWindow : Memory where
  store := (∅ : AList fun _ : Str => Value).insert
    (exampleDataStore.throttlingKey "id".toList) (.counter (2 ^ 63 - 1))
  expirations := ∅

theorem standAt_fullWindow :
    exampleDataStore.StandAt "id".toList
      (fun counter => if counter = .window then 2 ^ 63 - 1 else 0) fullWindow := by
  apply standAt_iff.mpr
  intro counter
  cases counter <;> rfl

/-- Three calls for a key whose window takes two. -/
theorem updateQuotasAndCheck_run_example :
    ∃ answers after,
      [noonCall, noonCall, noonCall].mapM
          (fun call => exampleDataStore.updateQuotasAndCheck call (limitedKey ⟨2, rfl⟩) 1) .empty =
        (.ok answers, after) ∧
      answers.map Prod.snd =
        firstAccepted 3 (remainingCalls (limitedKey ⟨2, rfl⟩) fun _ => 0).toNat ∧
      ∀ (i : Nat) (quotas : RemainingQuotas) (accepted : Bool),
        answers[i]? = some (quotas, accepted) →
          Exact (limitedKey ⟨2, rfl⟩) (fun _ => 0 + (i + 1)) quotas :=
  updateQuotasAndCheck_run exampleDataStore exampleDataStore_lawful (limitedKey ⟨2, rfl⟩)
    (fun _ => 0) .empty (standAt_empty _) [noonCall, noonCall, noonCall]
    (by intro counter; decide)

/-- A call that is not accepted does not answer the difference, and a counter at the end
of the `Long`s starts again below every limit. -/
theorem exists_remaining_ne_and_accepted :
    (¬ ∀ (apiKey : Entities.ApiKey Unit Unit) (counts : CallCounter → Int) (state : Memory)
        (call : CountedCall) (quotas : RemainingQuotas) (accepted : Bool),
      exampleDataStore.StandAt apiKey.clientId counts state →
      (exampleDataStore.updateQuotasAndCheck call apiKey 1 state).1 = .ok (quotas, accepted) →
        quotas.remainingCallsPerWindow =
          quotas.authorizedCallsPerWindow - quotas.throttlingCallsPerWindow) ∧
    (¬ ∀ (apiKey : Entities.ApiKey Unit Unit) (counts : CallCounter → Int) (state : Memory)
        (calls : List CountedCall) (answers : List (RemainingQuotas × Bool)),
      exampleDataStore.StandAt apiKey.clientId counts state →
      (calls.mapM (fun call => exampleDataStore.updateQuotasAndCheck call apiKey 1) state).1 =
        .ok answers →
        answers.map Prod.snd =
          firstAccepted calls.length (remainingCalls apiKey counts).toNat) := by
  constructor
  · intro h
    have hremaining := h (limitedKey ⟨0, rfl⟩) (fun _ => 0) .empty noonCall _ _
      (standAt_empty _) rfl
    revert hremaining
    decide
  · intro h
    have haccepted := h (limitedKey ⟨2, rfl⟩) _ fullWindow [noonCall] _ standAt_fullWindow rfl
    revert haccepted
    decide

/-- In an empty memory the two verdicts on a key whose window takes two calls agree. -/
theorem withingQuotas_eq_example :
    (exampleDataStore.withingQuotas 0 (limitedKey ⟨2, rfl⟩) .empty).1 =
        (exampleDataStore.withinQuotasAndRotationQuotas 0 (fun _ => pure ()) (limitedKey ⟨2, rfl⟩)
          .empty).1.map Prod.fst ↔
      (10000000 : Int) ≤ 0 ∨ (10000000 : Int) ≤ 0 ∨ (0 : Int) ≠ 2 ∧ isLong (2 - 0) = true :=
  withingQuotas_eq_iff exampleDataStore (limitedKey ⟨2, rfl⟩) (fun _ => 0) .empty .empty
    (standAt_empty _) 0 (fun _ => pure ()) () rfl

/-- A window that takes no call is within its limit for one verdict only. -/
theorem withingQuotas_ne :
    exampleDataStore.StandAt (limitedKey ⟨0, rfl⟩).clientId (fun _ => 0) .empty ∧
      (exampleDataStore.withingQuotas 0 (limitedKey ⟨0, rfl⟩) .empty).1 = .ok true ∧
      (exampleDataStore.withinQuotasAndRotationQuotas 0 (fun _ => pure ()) (limitedKey ⟨0, rfl⟩)
        .empty).1.map Prod.fst = .ok false :=
  ⟨standAt_empty _, rfl, rfl⟩

end Example

end KvApiKeyDataStore

end Otoroshi
