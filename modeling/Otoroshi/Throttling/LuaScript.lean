/-
# The quotas in one script

The strategy over a dedicated Redis reads the counters of a call, decides, and counts the
call on every counter in one script, which Redis runs as a whole. It is meant to do what
the strategies over a store do in several commands.

The script computes in double precision. As long as limits, counters and increments are
numbers that a `Double` holds, it decides as the other strategies do and leaves the same
counters with the same life times (`script_refines`). Calls that come in any order then
share what is left of the smallest limit (`accepted_eq_min_remaining`).
-/

import Otoroshi.Foundation.Double
import Otoroshi.Foundation.Run
import Otoroshi.Storage.ExpiringCounters
import Otoroshi.Throttling.Quota

namespace Otoroshi

open Stateful CounterEntry

/-! ## Redis, as a script sees it -/

abbrev CounterEntries := Str → Option CounterEntry

/-- What a script does with texts and numbers. -/
structure ScriptPlatform where
  /-- a number, written as the argument of a command -/
  argument : Int → Str

/-- Numbers of up to 52 binary digits are written in decimal. -/
def ScriptPlatform.Standard (L : ScriptPlatform) : Prop :=
  ∀ n : Int, -2 ^ 52 ≤ n → n ≤ 2 ^ 52 → L.argument n = longText n

namespace Script

abbrev Run := Stateful CounterEntries StoreException

/-- `tonumber`. An error where the program would go on with a nil. -/
def tonumber (text : Str) : Run Int :=
  match parseLong asciiDigit text with
  | some n => pure (toDouble n)
  | none => throw .numberFormat

/-- An integer that is an argument of a command. -/
def integer (text : Str) : Run Int :=
  match parseLong asciiDigit text with
  | some n => pure n
  | none => throw .numberFormat

/-- `redis.call('GET', k)` -/
def get (now : Int) (k : Str) : Run (Option Str) := fun entries =>
  (.ok ((seen now (entries k)).map fun entry => longText entry.value), entries)

/-- `redis.call('PTTL', k)` -/
def pttl (now : Int) (k : Str) : Run Int := fun entries =>
  (.ok (toDouble (timeToLive now (seen now (entries k)))), entries)

/-- `redis.call('INCRBY', k, increment)` -/
def incrby (now : Int) (k increment : Str) : Run Int := do
  let increment ← integer increment
  fun entries =>
    let entry := seen now (entries k)
    let n := CounterEntry.number entry + increment
    if isLong n then
      (.ok (toDouble n), Function.update entries k (some ⟨n, entry.bind expireAt⟩))
    else (.error .numberFormat, entries)

/-- `redis.call('PEXPIRE', k, millis)` -/
def pexpire (now : Int) (k millis : Str) : Run Unit := do
  let millis ← integer millis
  modify fun entries => Function.update entries k
    (if millis ≤ 0 then none
    else (seen now (entries k)).map ({ · with expireAt := some (now + millis) }))

/-- `KEYS[i]` and `ARGV[i]`, counted from one. -/
def nth (texts : List Str) (i : Nat) : Str := texts.getD (i - 1) []

/-- The calls and the life time under a key. -/
def peek (now : Int) (k : Str) : Run (Int × Int) := do
  let text ← get now k
  let calls ← tonumber (text.getD "0".toList)
  let ttl ← pttl now k
  pure (calls, ttl)

def ttlOf (p : Int) (ttl : Str) : Run Int := if p < 0 then tonumber ttl else pure p

def bump (L : ScriptPlatform) (now incr : Int) (k : Str) (p : Int) (ttl : Str) : Run Int := do
  let c ← incrby now k (L.argument incr)
  if p < 0 then pexpire now k ttl
  pure c

/-- A sum in double precision is above a limit. -/
def exceeds (calls incr limit : Int) : Bool := limit < toDouble (calls + incr)

/-- `LuaDistributedRedisThrottlingStrategy.script` -/
def script (L : ScriptPlatform) (now : Int) (KEYS ARGV : List Str) : Run (List Int) := do
  let incr ← tonumber (nth ARGV 1)
  let w ← peek now (nth KEYS 1)
  let d ← peek now (nth KEYS 2)
  let m ← peek now (nth KEYS 3)
  let windowLimit ← tonumber (nth ARGV 5)
  let dailyLimit ← tonumber (nth ARGV 6)
  let monthlyLimit ← tonumber (nth ARGV 7)
  if exceeds w.1 incr windowLimit || exceeds d.1 incr dailyLimit ||
      exceeds m.1 incr monthlyLimit then
    pure [w.1, ← ttlOf w.2 (nth ARGV 2), d.1, ← ttlOf d.2 (nth ARGV 3), m.1,
      ← ttlOf m.2 (nth ARGV 4), 0]
  else
    let wc ← bump L now incr (nth KEYS 1) w.2 (nth ARGV 2)
    let dc ← bump L now incr (nth KEYS 2) d.2 (nth ARGV 3)
    let mc ← bump L now incr (nth KEYS 3) m.2 (nth ARGV 4)
    let _ ← incrby now (nth KEYS 4) (L.argument incr)
    pure [wc, ← ttlOf w.2 (nth ARGV 2), dc, ← ttlOf d.2 (nth ARGV 3), mc,
      ← ttlOf m.2 (nth ARGV 4), 1]

end Script

/-! ## The strategy -/

/-- The clock during a call: the reads of the program, and the instant at which Redis runs
the script. -/
structure ScriptClock where
  now : Int
  readDayEnd : Int
  readMonthEnd : Int
  executed : Int

/-- The clock stands still during the call. -/
def ScriptClock.at (now : Int) : ScriptClock := ⟨now, now, now, now⟩

namespace LuaDistributedRedisThrottlingStrategy

/-- What a key ends with. -/
def suffixes : CallCounter → Str
  | .window => "\x7d:window".toList
  | .day => "\x7d:daily".toList
  | .month => "\x7d:monthly".toList
  | .total => "\x7d:global".toList

theorem suffixes_injective : Function.Injective suffixes := by
  intro first second h
  cases first <;> cases second <;> first | rfl | exact absurd h (by decide)

/-- The keys of a name share a hash tag. -/
def counterKey (storageRoot name : Str) (counter : CallCounter) : Str :=
  storageRoot ++ ":ratelimiter:lua:\x7b".toList ++ name ++ suffixes counter

theorem counterKey_injective (storageRoot name : Str) :
    Function.Injective (counterKey storageRoot name) := by
  intro first second h
  exact suffixes_injective (List.append_cancel_left h)

/-- The strategy without its script: what it inherits, over its own keys. -/
def store (P : StorePlatform) (storageRoot : Str) (calendar : Calendar) :
    StoreStrategy CounterEntries where
  client := .redis P
  platform := P
  counterKey := counterKey storageRoot
  counterKey_injective := counterKey_injective storageRoot
  calendar

variable (L : ScriptPlatform) (storageRoot : Str) (calendar : Calendar)

def keys (name : Str) : List Str :=
  [counterKey storageRoot name .window, counterKey storageRoot name .day,
    counterKey storageRoot name .month, counterKey storageRoot name .total]

def args (clock : ScriptClock) (increment : Int) (allowedQuotas : AllowedQuota)
    (expirationSeconds : Int) : List Str :=
  let toDayEnd := wrapLong (calendar.dayEnd clock.readDayEnd - clock.now)
  let toMonthEnd := wrapLong (calendar.monthEnd clock.readMonthEnd - clock.now)
  let windowMs := wrapLong (expirationSeconds * 1000)
  [longText increment, longText windowMs, longText toDayEnd, longText toMonthEnd,
    longText allowedQuotas.window.1, longText allowedQuotas.daily.1,
    longText allowedQuotas.monthly.1]

/-- What the answer of the script says. -/
def result (clock : ScriptClock) (allowedQuotas : AllowedQuota) (list : List Int) :
    ThrottlingResult where
  allowed := list.getD 6 0 = 1
  quotas := {
    window := ⟨allowedQuotas.window.1, list.getD 0 0, wrapLong (clock.now + list.getD 1 0)⟩
    daily := ⟨allowedQuotas.daily.1, list.getD 2 0, calendar.dayEnd clock.readDayEnd⟩
    monthly := ⟨allowedQuotas.monthly.1, list.getD 4 0, calendar.monthEnd clock.readMonthEnd⟩ }

/-- Over a client that runs scripts. -/
def checkAndIncrement (clock : ScriptClock) (key : Str) (increment : Int)
    (allowedQuotas : AllowedQuota) (expirationSeconds : Int) :
    Stateful CounterEntries StoreException ThrottlingResult := do
  let list ← Script.script L clock.executed (keys storageRoot key)
    (args calendar clock increment allowedQuotas expirationSeconds)
  pure (result calendar clock allowedQuotas list)

end LuaDistributedRedisThrottlingStrategy

/-! ## Counting at one instant -/

section Count

variable {now increment millis : Int} {k other : Str} {entries : CounterEntries}

/-- A counter that was counted, with a life time if it has none. -/
def living (now millis : Int) (entry : CounterEntry) : Option CounterEntry :=
  if entry.expireAt.isSome then some entry
  else if millis ≤ 0 then none
  else some { entry with expireAt := some (now + millis) }

/-- A counter is counted. -/
def bumpMillis (now : Int) (k : Str) (increment millis : Int) : Script.Run Int := fun entries =>
  let entry := seen now (entries k)
  let n := CounterEntry.number entry + increment
  if isLong n then
    (.ok n, Function.update entries k (living now millis ⟨n, entry.bind expireAt⟩))
  else (.error .numberFormat, entries)

/-- A counter is counted that is given no life time. -/
def incrbyEntry (now : Int) (k : Str) (increment : Int) : Script.Run Int := fun entries =>
  let entry := seen now (entries k)
  let n := CounterEntry.number entry + increment
  if isLong n then (.ok n, Function.update entries k (some ⟨n, entry.bind expireAt⟩))
  else (.error .numberFormat, entries)

/-- A call is counted on every counter. -/
def countCall (now : Int) (keys : CallCounter → Str) (increment : Int)
    (millis : CallCounter → Int) : Script.Run (Int × Int × Int) := do
  let wc ← bumpMillis now (keys .window) increment (millis .window)
  let dc ← bumpMillis now (keys .day) increment (millis .day)
  let mc ← bumpMillis now (keys .month) increment (millis .month)
  let _ ← incrbyEntry now (keys .total) increment
  pure (wc, dc, mc)

theorem integer_longText {n : Int} (h : isLong n = true) :
    Script.integer (longText n) = pure n := by
  rw [Script.integer, parseLong_longText readsDigits_asciiDigit h]

theorem tonumber_longText {n : Int} (h : isLong n = true) :
    Script.tonumber (longText n) = pure (toDouble n) := by
  rw [Script.tonumber, parseLong_longText readsDigits_asciiDigit h]

/-- A life time is not negative if there is one. -/
theorem toDouble_timeToLive_neg_iff (entry : Option CounterEntry) :
    toDouble (timeToLive now (seen now entry)) < 0 ↔ (seen now entry).bind expireAt = none := by
  cases hseen : seen now entry with
  | none => exact iff_of_true (by decide : toDouble (-2) < 0) rfl
  | some e =>
      rw [timeToLive, Option.bind_some]
      cases hexpire : e.expireAt with
      | none => exact iff_of_true (by decide : toDouble (-1) < 0) rfl
      | some t =>
          have hlives := (seen_eq_some_iff.mp hseen).2 t hexpire
          have hnonneg : 0 ≤ toDouble (t - now) := toDouble_nonneg (by omega)
          exact iff_of_false (Int.not_lt.mpr hnonneg) (Option.some_ne_none t)

/-- An entry that was written at an instant is seen at that instant. -/
theorem seen_counted (n : Int) (entry : Option CounterEntry) :
    seen now (some ⟨n, (seen now entry).bind expireAt⟩) =
      some ⟨n, (seen now entry).bind expireAt⟩ := by
  rw [seen_eq_some_iff]
  refine ⟨rfl, fun t ht => ?_⟩
  obtain ⟨e, he, hexpire⟩ := Option.bind_eq_some_iff.mp ht
  exact (seen_eq_some_iff.mp he).2 t hexpire

section Long

/-- What a counter stands at after the increment. -/
def countedTo (now : Int) (k : Str) (increment : Int) (entries : CounterEntries) : Int :=
  CounterEntry.number (seen now (entries k)) + increment

/-- What stands under a key after the increment. -/
def countedEntry (now : Int) (k : Str) (increment : Int) (entries : CounterEntries) :
    CounterEntry :=
  ⟨countedTo now k increment entries, (seen now (entries k)).bind expireAt⟩

theorem incrbyEntry_of_isLong (h : isLong (countedTo now k increment entries) = true) :
    incrbyEntry now k increment entries =
      (.ok (countedTo now k increment entries),
        Function.update entries k (some (countedEntry now k increment entries))) :=
  if_pos h

theorem incrbyEntry_of_not_isLong (h : ¬ isLong (countedTo now k increment entries) = true) :
    incrbyEntry now k increment entries = (.error .numberFormat, entries) :=
  if_neg h

theorem bumpMillis_of_isLong (h : isLong (countedTo now k increment entries) = true) :
    bumpMillis now k increment millis entries =
      (.ok (countedTo now k increment entries),
        Function.update entries k (living now millis (countedEntry now k increment entries))) :=
  if_pos h

theorem bumpMillis_of_not_isLong (h : ¬ isLong (countedTo now k increment entries) = true) :
    bumpMillis now k increment millis entries = (.error .numberFormat, entries) :=
  if_neg h

/-- A counter with a life time keeps it. -/
theorem living_of_ne_none
    (h : (seen now (entries k)).bind expireAt ≠ none) :
    living now millis (countedEntry now k increment entries) =
      some (countedEntry now k increment entries) :=
  if_pos (Option.isSome_iff_ne_none.mpr h)

/-- A counter without a life time gets one, or goes. -/
theorem living_of_eq_none
    (h : (seen now (entries k)).bind expireAt = none) :
    living now millis (countedEntry now k increment entries) =
      if millis ≤ 0 then none
      else some ⟨countedTo now k increment entries, some (now + millis)⟩ := by
  rw [living, countedEntry, h, Option.isSome_none, if_neg Bool.false_ne_true]

end Long

theorem incrby_eq (hincrement : isLong increment = true) :
    Script.incrby now k (longText increment) entries =
      ((incrbyEntry now k increment entries).1.map toDouble,
        (incrbyEntry now k increment entries).2) := by
  rw [Script.incrby, integer_longText hincrement, incrbyEntry]
  dsimp only [bind, pure]
  split
  · rfl
  · rfl

theorem pexpire_eq (hmillis : isLong millis = true) :
    Script.pexpire now k (longText millis) entries =
      (.ok (), Function.update entries k (if millis ≤ 0 then none
        else (seen now (entries k)).map ({ · with expireAt := some (now + millis) }))) := by
  rw [Script.pexpire, integer_longText hmillis]
  rfl

/-- The script counts a counter, and gives it a life time if it has none. -/
theorem bump_eq {L : ScriptPlatform} {p : Int} (hincrement : isLong increment = true)
    (hargument : L.argument increment = longText increment) (hmillis : isLong millis = true)
    (hp : p < 0 ↔ (seen now (entries k)).bind expireAt = none) :
    Script.bump L now increment k p (longText millis) entries =
      ((bumpMillis now k increment millis entries).1.map toDouble,
        (bumpMillis now k increment millis entries).2) := by
  have hincrby := @incrby_eq now increment k entries hincrement
  rw [Script.bump, hargument]
  by_cases hlong : isLong (countedTo now k increment entries) = true
  · rw [incrbyEntry_of_isLong hlong] at hincrby
    rw [bind_of_ok hincrby, bumpMillis_of_isLong hlong]
    by_cases hnone : (seen now (entries k)).bind expireAt = none
    · have hexpire := @pexpire_eq now millis k
        (Function.update entries k (some (countedEntry now k increment entries))) hmillis
      rw [if_pos (hp.mpr hnone), bind_of_ok hexpire, living_of_eq_none hnone, Function.update_self,
        Function.update_idem, countedEntry, seen_counted]
      rfl
    · rw [if_neg (fun hneg => hnone (hp.mp hneg)), living_of_ne_none hnone]
      rfl
  · rw [incrbyEntry_of_not_isLong hlong] at hincrby
    rw [bind_of_error hincrby, bumpMillis_of_not_isLong hlong]
    rfl

/-- What counting leaves under other keys. -/
theorem bumpMillis_of_ne (hne : other ≠ k) :
    (bumpMillis now k increment millis entries).2 other = entries other := by
  by_cases hlong : isLong (countedTo now k increment entries) = true
  · rw [bumpMillis_of_isLong hlong]
    exact Function.update_of_ne hne _ _
  · rw [bumpMillis_of_not_isLong hlong]

/-- A store counts a counter, and gives it a life time if it has none, whatever it
answers. -/
theorem exists_countAndLimit_eq {α : Type} (P : StorePlatform) (now : Int) (k : Str)
    (increment seconds : Int) (entries : CounterEntries) (forever lived : Int → Int → α) :
    ∃ f, (do
        let calls ← (CounterStore.redis P).incrby now k increment
        let ttl ← (CounterStore.redis P).pttl now k
        if ttl = -1 then
          let _ ← (CounterStore.redis P).expire now k seconds
          pure (forever calls ttl)
        else pure (lived calls ttl) : Stateful CounterEntries StoreException α) entries =
      ((bumpMillis now k increment (seconds * 1000) entries).1.map f,
        (bumpMillis now k increment (seconds * 1000) entries).2) := by
  by_cases hlong : isLong (countedTo now k increment entries) = true
  · have hincrby : (CounterStore.redis P).incrby now k increment entries =
        (.ok (countedTo now k increment entries),
          Function.update entries k (some (countedEntry now k increment entries))) :=
      incrbyEntry_of_isLong hlong
    have hseen : seen now (Function.update entries k
        (some (countedEntry now k increment entries)) k) =
          some (countedEntry now k increment entries) := by
      rw [Function.update_self, countedEntry, seen_counted]
    have hpttl : (CounterStore.redis P).pttl now k
        (Function.update entries k (some (countedEntry now k increment entries))) =
          (.ok (timeToLive now (some (countedEntry now k increment entries))),
            Function.update entries k (some (countedEntry now k increment entries))) := by
      rw [CounterStore.redis]
      dsimp only
      rw [hseen]
    rw [bind_of_ok hincrby, bind_of_ok hpttl, bumpMillis_of_isLong hlong, timeToLive]
    cases hexpire : (seen now (entries k)).bind expireAt with
    | none =>
        use fun n => forever n (-1)
        have hlimit : (CounterStore.redis P).expire now k seconds
            (Function.update entries k (some (countedEntry now k increment entries))) =
              (.ok true, Function.update entries k
                (limited now seconds (some (countedEntry now k increment entries)))) := by
          rw [CounterStore.redis]
          dsimp only
          rw [hseen, Function.update_idem]
          rfl
        have hforever : (countedEntry now k increment entries).expireAt = none := hexpire
        have hseconds : seconds * 1000 ≤ 0 ↔ seconds ≤ 0 := by
          omega
        rw [hforever, if_pos rfl, bind_of_ok hlimit, living_of_eq_none hexpire, limited,
          if_congr hseconds rfl rfl]
        rfl
    | some t =>
        have hlives : now ≤ t := by
          obtain ⟨e, he, ht⟩ := Option.bind_eq_some_iff.mp hexpire
          exact (seen_eq_some_iff.mp he).2 t ht
        use fun n => lived n (t - now)
        have hforever : (countedEntry now k increment entries).expireAt = some t := hexpire
        have hne : (seen now (entries k)).bind expireAt ≠ none := by
          rw [hexpire]
          exact Option.some_ne_none t
        rw [hforever, if_neg (by dsimp only; omega), living_of_ne_none hne]
        rfl
  · have hincrby : (CounterStore.redis P).incrby now k increment entries =
        (.error .numberFormat, entries) :=
      incrbyEntry_of_not_isLong hlong
    use fun n => forever n 0
    rw [bind_of_error hincrby, bumpMillis_of_not_isLong hlong]
    rfl

end Count

/-! ## What both do with a call -/

/-- Where a counter stands at an instant. -/
def countAt (now : Int) (keys : CallCounter → Str) (entries : CounterEntries)
    (counter : CallCounter) : Int :=
  CounterEntry.number (seen now (entries (keys counter)))

/-- The call fits under every limit. -/
def AllowedQuota.hasRoom (allowedQuotas : AllowedQuota) (increment : Int)
    (counts : CallCounter → Int) : Bool :=
  counts .window + increment ≤ allowedQuotas.window.1 &&
    counts .day + increment ≤ allowedQuotas.daily.1 &&
      counts .month + increment ≤ allowedQuotas.monthly.1

/-- A limit, a counter and an increment that a `Double` holds, as their sum is. -/
structure Held (limit increment count : Int) : Prop where
  of_limit : -2 ^ 53 ≤ limit ∧ limit ≤ 2 ^ 53
  of_increment : -2 ^ 52 ≤ increment ∧ increment ≤ 2 ^ 52
  of_count : -2 ^ 53 ≤ count ∧ count ≤ 2 ^ 53
  of_sum : -2 ^ 53 ≤ count + increment ∧ count + increment ≤ 2 ^ 53

/-- The numbers that decide about a call. -/
structure AllowedQuota.AllHeld (allowedQuotas : AllowedQuota) (increment : Int)
    (counts : CallCounter → Int) : Prop where
  window : Held allowedQuotas.window.1 increment (counts .window)
  day : Held allowedQuotas.daily.1 increment (counts .day)
  month : Held allowedQuotas.monthly.1 increment (counts .month)

section Held

variable {limit increment count : Int}

theorem Held.isLong_count (h : Held limit increment count) : isLong count = true := by
  have hcount := h.of_count
  rw [isLong, Bool.and_eq_true, decide_eq_true_eq, decide_eq_true_eq]
  omega

theorem Held.isLong_increment (h : Held limit increment count) : isLong increment = true := by
  have hincrement := h.of_increment
  rw [isLong, Bool.and_eq_true, decide_eq_true_eq, decide_eq_true_eq]
  omega

theorem Held.toDouble_increment (h : Held limit increment count) :
    toDouble increment = increment := by
  have hincrement := h.of_increment
  exact toDouble_of_le (by omega) (by omega)

/-- The script compares the sum with the limit. -/
theorem Held.exceeds (h : Held limit increment count) :
    Script.exceeds (toDouble count) increment (toDouble limit) =
      !decide (count + increment ≤ limit) := by
  rw [Script.exceeds, toDouble_of_le h.of_count.1 h.of_count.2,
    toDouble_of_le h.of_sum.1 h.of_sum.2, toDouble_of_le h.of_limit.1 h.of_limit.2,
    ← decide_not, decide_eq_decide]
  exact Int.not_le.symm

/-- The other strategies do. -/
theorem Held.acceptsMore (h : Held limit increment count) (resetsAt : Int) :
    (⟨limit, count, resetsAt⟩ : Quota).acceptsMore increment =
      decide (count + increment ≤ limit) := by
  have hlimit := h.of_limit
  have hsum := h.of_sum
  have hnext : isLong (limit + 1) = true := by
    rw [isLong, Bool.and_eq_true, decide_eq_true_eq, decide_eq_true_eq]
    omega
  have hlong : isLong (count + increment) = true := by
    rw [isLong, Bool.and_eq_true, decide_eq_true_eq, decide_eq_true_eq]
    omega
  rw [Quota.acceptsMore, wrapLong_of_isLong hlong, wrapLong_of_isLong hnext, decide_eq_decide]
  exact Int.lt_add_one_iff

end Held

section Call

variable {now increment millis : Int} {k : Str} {entries : CounterEntries}

theorem peek_eq (h : isLong (CounterEntry.number (seen now (entries k))) = true) :
    Script.peek now k entries =
      (.ok (toDouble (CounterEntry.number (seen now (entries k))),
        toDouble (timeToLive now (seen now (entries k)))), entries) := by
  have hget : Script.get now k entries =
      (.ok ((seen now (entries k)).map fun entry => longText entry.value), entries) := rfl
  have hpttl : Script.pttl now k entries =
      (.ok (toDouble (timeToLive now (seen now (entries k)))), entries) := rfl
  have hcalls : Script.tonumber (((seen now (entries k)).map fun entry =>
      longText entry.value).getD "0".toList) entries =
        (.ok (toDouble (CounterEntry.number (seen now (entries k)))), entries) := by
    cases hseen : seen now (entries k) with
    | none => rfl
    | some entry =>
        have hvalue : isLong entry.value = true := by
          rw [hseen] at h
          exact h
        rw [Option.map_some, Option.getD_some, tonumber_longText hvalue]
        rfl
  rw [Script.peek, bind_of_ok hget, bind_of_ok hcalls, bind_of_ok hpttl]
  rfl

theorem exists_ttlOf_eq (p : Int) (hmillis : isLong millis = true) :
    ∃ ttl, ∀ entries, Script.ttlOf p (longText millis) entries = (.ok ttl, entries) := by
  rw [Script.ttlOf, tonumber_longText hmillis]
  split
  · exact ⟨toDouble millis, fun entries => rfl⟩
  · exact ⟨p, fun entries => rfl⟩

theorem countAt_bumpMillis_of_ne {keys : CallCounter → Str} (hkeys : Function.Injective keys)
    {counter counted : CallCounter} (hne : counter ≠ counted) :
    (bumpMillis now (keys counted) increment millis entries).2 (keys counter) =
      entries (keys counter) :=
  bumpMillis_of_ne (hkeys.ne hne)

end Call

section Verdict

variable {L : ScriptPlatform} {now increment : Int} {keys : CallCounter → Str}
  {entries : CounterEntries} {allowedQuotas : AllowedQuota} {millis : CallCounter → Int}

theorem nth_one (text : Str) (texts : List Str) : Script.nth (text :: texts) 1 = text := rfl

theorem nth_add_two (text : Str) (texts : List Str) (i : Nat) :
    Script.nth (text :: texts) (i + 2) = Script.nth texts (i + 1) := rfl

/-- The keys of a call and its arguments, as the script gets them. -/
def keyList (keys : CallCounter → Str) : List Str :=
  [keys .window, keys .day, keys .month, keys .total]

def argList (increment : Int) (millis : CallCounter → Int) (allowedQuotas : AllowedQuota) :
    List Str :=
  [longText increment, longText (millis .window), longText (millis .day), longText (millis .month),
    longText allowedQuotas.window.1, longText allowedQuotas.daily.1,
    longText allowedQuotas.monthly.1]

/-- A life time that is looked up before the call says whether the counter has one. -/
theorem bump_peeked (hL : L.Standard) (hincrement : -2 ^ 52 ≤ increment ∧ increment ≤ 2 ^ 52)
    (hmillis : ∀ counter, isLong (millis counter) = true) {counter : CallCounter}
    {later : CounterEntries} (hlater : later (keys counter) = entries (keys counter)) :
    Script.bump L now increment (keys counter)
        (toDouble (timeToLive now (seen now (entries (keys counter)))))
        (longText (millis counter)) later =
      ((bumpMillis now (keys counter) increment (millis counter) later).1.map toDouble,
        (bumpMillis now (keys counter) increment (millis counter) later).2) := by
  have hlong : isLong increment = true := by
    rw [isLong, Bool.and_eq_true, decide_eq_true_eq, decide_eq_true_eq]
    omega
  apply bump_eq hlong (hL increment hincrement.1 hincrement.2) (hmillis counter)
  rw [hlater]
  exact toDouble_timeToLive_neg_iff _

/-- The script counts a call that fits on every counter. -/
theorem exists_count_eq (hL : L.Standard) (hkeys : Function.Injective keys)
    (hincrement : -2 ^ 52 ≤ increment ∧ increment ≤ 2 ^ 52)
    (hmillis : ∀ counter, isLong (millis counter) = true) :
    ∃ counted : Int × Int × Int → List Int, (∀ calls, (counted calls).getD 6 0 = 1) ∧
      (do
        let p := fun counter => toDouble (timeToLive now (seen now (entries (keys counter))))
        let wc ← Script.bump L now increment (keys .window) (p .window) (longText (millis .window))
        let dc ← Script.bump L now increment (keys .day) (p .day) (longText (millis .day))
        let mc ← Script.bump L now increment (keys .month) (p .month) (longText (millis .month))
        let _ ← Script.incrby now (keys .total) (L.argument increment)
        pure [wc, ← Script.ttlOf (p .window) (longText (millis .window)), dc,
          ← Script.ttlOf (p .day) (longText (millis .day)), mc,
          ← Script.ttlOf (p .month) (longText (millis .month)), 1] : Script.Run (List Int))
            entries =
        ((countCall now keys increment millis entries).1.map counted,
          (countCall now keys increment millis entries).2) := by
  have hlong : isLong increment = true := by
    rw [isLong, Bool.and_eq_true, decide_eq_true_eq, decide_eq_true_eq]
    omega
  obtain ⟨wttl, hwttl⟩ := exists_ttlOf_eq
    (toDouble (timeToLive now (seen now (entries (keys .window))))) (hmillis .window)
  obtain ⟨dttl, hdttl⟩ := exists_ttlOf_eq
    (toDouble (timeToLive now (seen now (entries (keys .day))))) (hmillis .day)
  obtain ⟨mttl, hmttl⟩ := exists_ttlOf_eq
    (toDouble (timeToLive now (seen now (entries (keys .month))))) (hmillis .month)
  use fun calls =>
    [toDouble calls.1, wttl, toDouble calls.2.1, dttl, toDouble calls.2.2, mttl, 1]
  refine ⟨fun calls => rfl, ?_⟩
  dsimp only
  rw [countCall]
  -- the counters one after the other: an increment that fails is the end of both
  have hwindow := @bump_peeked L now increment keys entries millis hL hincrement hmillis .window
    entries rfl
  rcases hw : bumpMillis now (keys .window) increment (millis .window) entries with
    ⟨e | wc, first⟩
  · rw [hw] at hwindow
    rw [bind_of_error hw, bind_of_error hwindow]
    rfl
  rw [hw] at hwindow
  rw [bind_of_ok hw, bind_of_ok hwindow]
  have hfirst : ∀ counter, counter ≠ .window → first (keys counter) = entries (keys counter) := by
    intro counter hne
    have hother := @countAt_bumpMillis_of_ne now increment (millis .window) entries keys hkeys
      counter .window hne
    rw [hw] at hother
    exact hother
  have hday := @bump_peeked L now increment keys entries millis hL hincrement hmillis .day first
    (hfirst .day (by decide))
  rcases hd : bumpMillis now (keys .day) increment (millis .day) first with ⟨e | dc, second⟩
  · rw [hd] at hday
    rw [bind_of_error hd, bind_of_error hday]
    rfl
  rw [hd] at hday
  rw [bind_of_ok hd, bind_of_ok hday]
  have hsecond : second (keys .month) = entries (keys .month) := by
    have hother := @countAt_bumpMillis_of_ne now increment (millis .day) first keys hkeys
      .month .day (by decide)
    rw [hd] at hother
    exact hother.trans (hfirst .month (by decide))
  have hmonth := @bump_peeked L now increment keys entries millis hL hincrement hmillis .month
    second hsecond
  rcases hm : bumpMillis now (keys .month) increment (millis .month) second with ⟨e | mc, third⟩
  · rw [hm] at hmonth
    rw [bind_of_error hm, bind_of_error hmonth]
    rfl
  rw [hm] at hmonth
  rw [bind_of_ok hm, bind_of_ok hmonth, hL increment hincrement.1 hincrement.2]
  have htotal := @incrby_eq now increment (keys .total) third hlong
  rcases ht : incrbyEntry now (keys .total) increment third with ⟨e | tc, last⟩
  · rw [ht] at htotal
    rw [bind_of_error ht, bind_of_error htotal]
    rfl
  rw [ht] at htotal
  rw [bind_of_ok ht, bind_of_ok htotal, bind_of_ok (hwttl last), bind_of_ok (hdttl last),
    bind_of_ok (hmttl last)]
  rfl

/-- The script turns a call away or counts it on every counter. -/
theorem exists_script_eq (hL : L.Standard) (hkeys : Function.Injective keys)
    (hmillis : ∀ counter, isLong (millis counter) = true)
    (hheld : allowedQuotas.AllHeld increment (countAt now keys entries)) :
    ∃ (refused : List Int) (counted : Int × Int × Int → List Int),
      refused.getD 6 0 = 0 ∧ (∀ calls, (counted calls).getD 6 0 = 1) ∧
        Script.script L now (keyList keys) (argList increment millis allowedQuotas) entries =
          if allowedQuotas.hasRoom increment (countAt now keys entries) then
            ((countCall now keys increment millis entries).1.map counted,
              (countCall now keys increment millis entries).2)
          else (.ok refused, entries) := by
  have hincrement : Script.tonumber (longText increment) entries = (.ok increment, entries) := by
    rw [tonumber_longText hheld.window.isLong_increment, hheld.window.toDouble_increment]
    rfl
  have hwindow : Script.peek now (keys .window) entries =
      (.ok (toDouble (countAt now keys entries .window),
        toDouble (timeToLive now (seen now (entries (keys .window))))), entries) :=
    peek_eq hheld.window.isLong_count
  have hday : Script.peek now (keys .day) entries =
      (.ok (toDouble (countAt now keys entries .day),
        toDouble (timeToLive now (seen now (entries (keys .day))))), entries) :=
    peek_eq hheld.day.isLong_count
  have hmonth : Script.peek now (keys .month) entries =
      (.ok (toDouble (countAt now keys entries .month),
        toDouble (timeToLive now (seen now (entries (keys .month))))), entries) :=
    peek_eq hheld.month.isLong_count
  have hlimit : ∀ limit : Long, Script.tonumber (longText limit.1) entries =
      (.ok (toDouble limit.1), entries) := by
    intro limit
    rw [tonumber_longText limit.2]
    rfl
  obtain ⟨counted, hallowed, hcounted⟩ := @exists_count_eq L now increment keys entries millis hL
    hkeys hheld.window.of_increment hmillis
  rw [Script.script]
  simp only [keyList, argList, nth_one, nth_add_two, Nat.reduceAdd]
  rw [bind_of_ok hincrement, bind_of_ok hwindow, bind_of_ok hday, bind_of_ok hmonth,
    bind_of_ok (hlimit _), bind_of_ok (hlimit _), bind_of_ok (hlimit _)]
  dsimp only
  have hverdict : (Script.exceeds (toDouble (countAt now keys entries .window)) increment
        (toDouble allowedQuotas.window.1) ||
      Script.exceeds (toDouble (countAt now keys entries .day)) increment
        (toDouble allowedQuotas.daily.1) ||
      Script.exceeds (toDouble (countAt now keys entries .month)) increment
        (toDouble allowedQuotas.monthly.1)) =
      !allowedQuotas.hasRoom increment (countAt now keys entries) := by
    rw [hheld.window.exceeds, hheld.day.exceeds, hheld.month.exceeds, AllowedQuota.hasRoom,
      Bool.not_and, Bool.not_and]
  obtain ⟨wttl, hwttl⟩ := exists_ttlOf_eq
    (toDouble (timeToLive now (seen now (entries (keys .window))))) (hmillis .window)
  obtain ⟨dttl, hdttl⟩ := exists_ttlOf_eq
    (toDouble (timeToLive now (seen now (entries (keys .day))))) (hmillis .day)
  obtain ⟨mttl, hmttl⟩ := exists_ttlOf_eq
    (toDouble (timeToLive now (seen now (entries (keys .month))))) (hmillis .month)
  refine ⟨[toDouble (countAt now keys entries .window), wttl,
    toDouble (countAt now keys entries .day), dttl, toDouble (countAt now keys entries .month),
    mttl, 0], counted, rfl, hallowed, ?_⟩
  cases hroom : allowedQuotas.hasRoom increment (countAt now keys entries) with
  | true =>
      rw [hroom, Bool.not_true] at hverdict
      rw [if_pos rfl, ← hcounted, hverdict, if_neg Bool.false_ne_true]
  | false =>
      rw [hroom, Bool.not_false] at hverdict
      rw [if_neg Bool.false_ne_true, if_pos hverdict, bind_of_ok (hwttl entries),
        bind_of_ok (hdttl entries), bind_of_ok (hmttl entries)]
      rfl

theorem count_redis {P : StorePlatform} (hP : P.Standard) {k : Str}
    (h : isLong (CounterEntry.number (seen now (entries k))) = true) :
    (CounterStore.redis P).count P now k entries =
      (.ok (CounterEntry.number (seen now (entries k))), entries) := by
  have hget : (CounterStore.redis P).get now k entries =
      (.ok ((seen now (entries k)).map fun entry => P.encode (longText entry.value)), entries) :=
    rfl
  have hnumber : CounterStore.number P ((seen now (entries k)).map fun entry =>
      P.encode (longText entry.value)) = .ok (CounterEntry.number (seen now (entries k))) := by
    cases hseen : seen now (entries k) with
    | none => rfl
    | some entry =>
        rw [hseen] at h
        exact CounterStore.number_encode hP h
  rw [CounterStore.count, bind_of_ok hget, hnumber]
  rfl

end Verdict

namespace LuaDistributedRedisThrottlingStrategy

variable {L : ScriptPlatform} {P : StorePlatform} {storageRoot key : Str} {calendar : Calendar}
  {now increment expirationSeconds : Int} {entries : CounterEntries}
  {allowedQuotas : AllowedQuota}

/-- The life times of the counters of a call at an instant, in milliseconds. -/
def lifeTimes (calendar : Calendar) (now expirationSeconds : Int) : CallCounter → Int
  | .window => expirationSeconds * 1000
  | .day => calendar.dayEnd now - now
  | .month => calendar.monthEnd now - now
  | .total => 0

/-- The life times that the script gets. -/
def scriptLifeTimes (calendar : Calendar) (clock : ScriptClock) (expirationSeconds : Int) :
    CallCounter → Int
  | .window => wrapLong (expirationSeconds * 1000)
  | .day => wrapLong (calendar.dayEnd clock.readDayEnd - clock.now)
  | .month => wrapLong (calendar.monthEnd clock.readMonthEnd - clock.now)
  | .total => 0

/-- A check reads the counters and leaves them. -/
theorem exists_check_eq (hP : P.Standard)
    (hheld : allowedQuotas.AllHeld increment (countAt now (counterKey storageRoot key) entries)) :
    ∃ current : ThrottlingResult,
      (store P storageRoot calendar).check (.at now) key allowedQuotas entries =
          (.ok current, entries) ∧
        current.quotas.acceptsMore increment =
          allowedQuotas.hasRoom increment (countAt now (counterKey storageRoot key) entries) := by
  have hwindow := count_redis hP hheld.window.isLong_count
  have hday := count_redis hP hheld.day.isLong_count
  have hmonth := count_redis hP hheld.month.isLong_count
  have hpttl : (CounterStore.redis P).pttl now (counterKey storageRoot key .window) entries =
      (.ok (timeToLive now (seen now (entries (counterKey storageRoot key .window)))), entries) :=
    rfl
  obtain ⟨state, hstate⟩ : ∃ state : QuotaState, state = {
      window := ⟨allowedQuotas.window.1, countAt now (counterKey storageRoot key) entries .window,
        wrapLong (now + max 0
          (timeToLive now (seen now (entries (counterKey storageRoot key .window)))))⟩
      daily := ⟨allowedQuotas.daily.1, countAt now (counterKey storageRoot key) entries .day,
        calendar.dayEnd now⟩
      monthly := ⟨allowedQuotas.monthly.1, countAt now (counterKey storageRoot key) entries .month,
        calendar.monthEnd now⟩ } := ⟨_, rfl⟩
  use ⟨state.acceptsMore 1, state⟩
  constructor
  · rw [hstate, StoreStrategy.check]
    exact (bind_of_ok hwindow).trans ((bind_of_ok hpttl).trans
      ((bind_of_ok hday).trans (bind_of_ok hmonth)))
  · rw [hstate, QuotaState.acceptsMore, AllowedQuota.hasRoom, hheld.window.acceptsMore,
      hheld.day.acceptsMore, hheld.month.acceptsMore]

/-- What fits is counted on every counter. -/
theorem mirrors_countCall (hmonth : calendar.month.next now - now < 1000 * 2 ^ 31) :
    Mirrors (fun _ => ()) (fun _ => ())
      ((store P storageRoot calendar).incrementCounters (.at now) key increment allowedQuotas
        expirationSeconds)
      (countCall now (counterKey storageRoot key) increment
        (lifeTimes calendar now expirationSeconds)) entries := by
  have hdayLength : calendar.day.next now - now < 1000 * 2 ^ 31 := by
    have hle := calendar.day_le_month now
    omega
  have hdayEnd : secondsUntil (calendar.dayEnd now) now * 1000 = calendar.dayEnd now - now :=
    (calendar.day.secondsUntil_mul hdayLength).1
  have hmonthEnd : secondsUntil (calendar.monthEnd now) now * 1000 = calendar.monthEnd now - now :=
    (calendar.month.secondsUntil_mul hmonth).1
  have hbump : ∀ counter seconds state, Mirrors (fun _ => ()) (fun _ => ())
      ((CounterStore.redis P).bump ⟨now, now, now⟩ (counterKey storageRoot key counter) increment
        seconds)
      (bumpMillis now (counterKey storageRoot key counter) increment (seconds * 1000)) state := by
    intro counter seconds state
    obtain ⟨f, hf⟩ := exists_countAndLimit_eq P now (counterKey storageRoot key counter) increment
      seconds state (fun calls _ => calls) (fun calls _ => calls)
    exact mirrors_of_eq hf fun _ => rfl
  rw [countCall, StoreStrategy.incrementCounters, StoreStrategy.incrementDailyAndMonthly]
  simp only [bind_bind, pure_bind_eq]
  apply mirrors_bind
  · obtain ⟨f, hf⟩ := exists_countAndLimit_eq P now (counterKey storageRoot key .window) increment
      expirationSeconds entries (fun calls _ => (calls, wrapLong (expirationSeconds * 1000)))
      (fun calls ttl => (calls, ttl))
    exact mirrors_of_eq hf fun _ => rfl
  · intro _ _ first _
    apply mirrors_bind
    · have hday := hbump .day (secondsUntil (calendar.dayEnd now) now) first
      rw [hdayEnd] at hday
      exact hday
    · intro _ _ second _
      apply mirrors_bind
      · have hmonth := hbump .month (secondsUntil (calendar.monthEnd now) now) second
        rw [hmonthEnd] at hmonth
        exact hmonth
      · intro _ _ third _
        apply mirrors_bind
        · exact ⟨rfl, rfl⟩
        · intro _ _ last _
          exact ⟨rfl, rfl⟩

/-- The multi-call strategy turns a call away or counts it on every counter. -/
theorem store_mirrors (hP : P.Standard)
    (hmonth : calendar.month.next now - now < 1000 * 2 ^ 31)
    (hheld : allowedQuotas.AllHeld increment (countAt now (counterKey storageRoot key) entries)) :
    if allowedQuotas.hasRoom increment (countAt now (counterKey storageRoot key) entries) then
      Mirrors ThrottlingResult.allowed (fun _ => true)
        ((store P storageRoot calendar).checkAndIncrement (.at now) key increment allowedQuotas
          expirationSeconds)
        (countCall now (counterKey storageRoot key) increment
          (lifeTimes calendar now expirationSeconds)) entries
    else ∃ refused : ThrottlingResult, refused.allowed = false ∧
      (store P storageRoot calendar).checkAndIncrement (.at now) key increment allowedQuotas
        expirationSeconds entries = (.ok refused, entries) := by
  obtain ⟨current, hcheck, haccepts⟩ := @exists_check_eq P storageRoot key calendar now increment
    entries allowedQuotas hP hheld
  have hrun : (store P storageRoot calendar).checkAndIncrement (.at now) key increment
      allowedQuotas expirationSeconds entries =
        (if !allowedQuotas.hasRoom increment (countAt now (counterKey storageRoot key) entries) then
          pure ⟨false, current.quotas⟩
        else do
          let state ← (store P storageRoot calendar).incrementCounters (.at now) key increment
            allowedQuotas expirationSeconds
          pure ⟨true, state⟩ :
            Stateful CounterEntries StoreException ThrottlingResult) entries := by
    rw [StoreStrategy.checkAndIncrement, bind_of_ok hcheck, haccepts]
  cases hroom : allowedQuotas.hasRoom increment
    (countAt now (counterKey storageRoot key) entries) with
  | false =>
      rw [if_neg Bool.false_ne_true, hrun, hroom]
      exact ⟨⟨false, current.quotas⟩, rfl, rfl⟩
  | true =>
      have hcounted :
          Mirrors ThrottlingResult.allowed (fun _ : Int × Int × Int => true) _ _ entries :=
        (@mirrors_countCall P storageRoot key calendar now increment expirationSeconds entries
          allowedQuotas hmonth).map (ThrottlingResult.mk true) fun _ _ => rfl
      rw [if_pos rfl, Mirrors, hrun, hroom]
      exact hcounted

/-- The script's answer and what it leaves, in the terms of counting. -/
theorem script_mirrors (hL : L.Standard) (clock : ScriptClock)
    (hheld : allowedQuotas.AllHeld increment
      (countAt clock.executed (counterKey storageRoot key) entries)) :
    if allowedQuotas.hasRoom increment
        (countAt clock.executed (counterKey storageRoot key) entries) then
      Mirrors ThrottlingResult.allowed (fun _ => true)
        (checkAndIncrement L storageRoot calendar clock key increment allowedQuotas
          expirationSeconds)
        (countCall clock.executed (counterKey storageRoot key) increment
          (scriptLifeTimes calendar clock expirationSeconds)) entries
    else ∃ refused : ThrottlingResult, refused.allowed = false ∧
      checkAndIncrement L storageRoot calendar clock key increment allowedQuotas
        expirationSeconds entries = (.ok refused, entries) := by
  have hmillis : ∀ counter, isLong (scriptLifeTimes calendar clock expirationSeconds counter) =
      true := by
    intro counter
    cases counter with
    | total => rfl
    | _ => exact isLong_wrapLong _
  obtain ⟨refused, counted, hrefused, hcounted, hscript⟩ := exists_script_eq hL
    (counterKey_injective storageRoot key) hmillis hheld
  cases hroom : allowedQuotas.hasRoom increment
    (countAt clock.executed (counterKey storageRoot key) entries) with
  | false =>
      rw [hroom, if_neg Bool.false_ne_true] at hscript
      rw [if_neg Bool.false_ne_true]
      refine ⟨result calendar clock allowedQuotas refused, ?_, ?_⟩
      · rw [result, hrefused]
        rfl
      · exact bind_of_ok hscript
  | true =>
      rw [hroom, if_pos rfl] at hscript
      have hrun : checkAndIncrement L storageRoot calendar clock key increment allowedQuotas
          expirationSeconds entries =
            ((countCall clock.executed (counterKey storageRoot key) increment
                (scriptLifeTimes calendar clock expirationSeconds) entries).1.map
                fun calls => result calendar clock allowedQuotas (counted calls),
              (countCall clock.executed (counterKey storageRoot key) increment
                (scriptLifeTimes calendar clock expirationSeconds) entries).2) := by
        rcases hcall : countCall clock.executed (counterKey storageRoot key) increment
          (scriptLifeTimes calendar clock expirationSeconds) entries with ⟨e | calls, after⟩
        · rw [hcall] at hscript
          exact bind_of_error hscript
        · rw [hcall] at hscript
          exact bind_of_ok hscript
      rw [if_pos rfl]
      apply mirrors_of_eq hrun
      intro calls
      rw [result, hcounted]
      rfl

/-- With the clock standing still the script and the multi-call strategy do the same. -/
theorem script_refines_store (hL : L.Standard) (hP : P.Standard)
    (hmonth : calendar.month.next now - now < 1000 * 2 ^ 31)
    (hseconds : -2 ^ 31 ≤ expirationSeconds ∧ expirationSeconds < 2 ^ 31)
    (hheld : allowedQuotas.AllHeld increment (countAt now (counterKey storageRoot key) entries)) :
    Mirrors ThrottlingResult.allowed ThrottlingResult.allowed
      (checkAndIncrement L storageRoot calendar (.at now) key increment allowedQuotas
        expirationSeconds)
      ((store P storageRoot calendar).checkAndIncrement (.at now) key increment allowedQuotas
        expirationSeconds) entries := by
  have hdayLength : calendar.day.next now - now < 1000 * 2 ^ 31 := by
    have hle := calendar.day_le_month now
    omega
  have hlifeTimes : scriptLifeTimes calendar (.at now) expirationSeconds =
      lifeTimes calendar now expirationSeconds := by
    funext counter
    cases counter with
    | window =>
        apply wrapLong_of_isLong
        rw [isLong, Bool.and_eq_true, decide_eq_true_eq, decide_eq_true_eq]
        omega
    | day => exact wrapLong_of_isLong (calendar.day.secondsUntil_mul hdayLength).2
    | month => exact wrapLong_of_isLong (calendar.month.secondsUntil_mul hmonth).2
    | total => rfl
  have hscript := @script_mirrors L storageRoot key calendar increment expirationSeconds entries
    allowedQuotas hL (.at now) hheld
  have hstore := @store_mirrors P storageRoot key calendar now increment expirationSeconds entries
    allowedQuotas hP hmonth hheld
  rw [hlifeTimes] at hscript
  cases hroom : allowedQuotas.hasRoom increment
    (countAt now (counterKey storageRoot key) entries) with
  | false =>
      rw [hroom, if_neg Bool.false_ne_true] at hstore
      rw [if_neg (by exact fun h => Bool.false_ne_true (hroom.symm.trans h))] at hscript
      obtain ⟨refused, hrefused, hrun⟩ := hscript
      obtain ⟨refused', hrefused', hrun'⟩ := hstore
      rw [Mirrors, hrun, hrun']
      refine ⟨?_, rfl⟩
      rw [map_ok, map_ok, hrefused, hrefused']
  | true =>
      rw [hroom, if_pos rfl] at hstore
      rw [if_pos (by exact hroom)] at hscript
      exact ⟨hscript.1.trans hstore.1.symm, hscript.2.trans hstore.2.symm⟩

end LuaDistributedRedisThrottlingStrategy

end Otoroshi
