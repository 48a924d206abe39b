/-
# Counters in a store

Quotas count calls under a few keys of a store, and they use four of its commands:
they read a counter, increment it, ask how long it still lives and give it a life
time. A program over these commands runs on any store that has them.

`Stands` says what a counter stands at, and `Lawful` what a store has to do so that
counters can be counted on while none of them expires: an increment adds to one
counter, and nothing else moves any. Both in-memory stores are lawful.
-/

import Mathlib.Logic.Function.Basic
import Otoroshi.Storage.Agreement
import Otoroshi.Storage.Entries

namespace Otoroshi

open Memory Stateful

/-- The commands on counters, each run at a time. -/
structure CounterStore (σ : Type) where
  get (now : Int) (key : Str) : Stateful σ StoreException (Option ByteString)
  incrby (now : Int) (key : Str) (increment : Int) : Stateful σ StoreException Int
  pttl (now : Int) (key : Str) : Stateful σ StoreException Int
  expire (now : Int) (key : Str) (seconds : Int) : Stateful σ StoreException Bool

/-- The times of the commands that count a call. -/
structure BumpTimes where
  incrby : Int
  pttl : Int
  expire : Int

namespace CounterStore

variable {σ : Type} (P : StorePlatform) (store : CounterStore σ)

/-- `map(_.utf8String.toLong).getOrElse(0L)`. -/
def number : Option ByteString → Except StoreException Int
  | none => .ok 0
  | some bs =>
      match parseLong P.digit (P.utf8String bs) with
      | some n => .ok n
      | none => .error .numberFormat

/-- `get(key).map(_.map(_.utf8String.toLong).getOrElse(0L))`. -/
def count (now : Int) (key : Str) : Stateful σ StoreException Int := do
  let bs ← store.get now key
  Stateful.ofExcept (number P bs)

/-- An increment, then a life time if the counter has none. -/
def bump (times : BumpTimes) (key : Str) (increment seconds : Int) :
    Stateful σ StoreException Int := do
  let calls ← store.incrby times.incrby key increment
  let ttl ← store.pttl times.pttl key
  if ttl = -1 then
    let _ ← store.expire times.expire key seconds
    pure calls
  else pure calls

/-- Whenever the counter is read it is this number, and reading changes nothing. -/
def Stands (state : σ) (key : Str) (n : Int) : Prop :=
  ∀ now, store.count P now key state = (.ok n, state)

variable {P store} {state after : σ} {key other : Str} {n m increment : Int}

theorem Stands.unique (h : store.Stands P state key n) (h' : store.Stands P state key m) :
    n = m := by
  have hsame := (h 0).symm.trans (h' 0)
  rw [Prod.mk.injEq, Except.ok.injEq] at hsame
  exact hsame.1

/-- Only a number of type `Long` is read. -/
theorem isLong_of_number {bs : Option ByteString} (h : number P bs = .ok n) : isLong n = true := by
  cases bs with
  | none =>
      rw [← Except.ok.inj h]
      rfl
  | some bs =>
      rw [number] at h
      cases hparse : parseLong P.digit (P.utf8String bs) with
      | none =>
          rw [hparse] at h
          cases h
      | some found =>
          rw [hparse] at h
          rw [← Except.ok.inj h]
          exact isLong_of_parseLong hparse

theorem isLong_of_count {now : Int} (h : store.count P now key state = (.ok n, after)) :
    isLong n = true := by
  obtain ⟨bs, read, -, hnumber⟩ := exists_of_bind h
  rw [Stateful.ofExcept, Prod.mk.injEq] at hnumber
  exact isLong_of_number hnumber.1

/-- A counter stands at a `Long`. -/
theorem Stands.isLong (h : store.Stands P state key n) : isLong n = true :=
  isLong_of_count (h 0)

variable (P store) in
/-- Every counter stands where it stood. -/
def Rests (before after : σ) : Prop :=
  ∀ key n, store.Stands P before key n → store.Stands P after key n

variable (P store) in
/-- What counters need of a store while none expires. An increment that leaves the
`Long`s is nothing to count on. -/
structure Lawful : Prop where
  incrby : ∀ now key increment state n, store.Stands P state key n →
    isLong (n + increment) = true →
      ∃ after, store.incrby now key increment state = (.ok (n + increment), after) ∧
        store.Stands P after key (n + increment) ∧
        ∀ other m, other ≠ key → store.Stands P state other m → store.Stands P after other m
  pttl : ∀ now key state, ∃ ttl after, store.pttl now key state = (.ok ttl, after) ∧
    store.Rests P state after
  expire : ∀ now key seconds state, ∃ answer after,
    store.expire now key seconds state = (.ok answer, after) ∧ store.Rests P state after

variable (P store) in
/-- An increment moves no other counter, whatever it answers or throws. -/
def Isolated : Prop :=
  ∀ now key increment other m, other ≠ key →
    Keeps (fun state => store.Stands P state other m) (store.incrby now key increment)

/-- A bump adds to one counter and moves no other. -/
theorem Lawful.bump (h : store.Lawful P) (times : BumpTimes) (seconds : Int)
    (hstands : store.Stands P state key n) (hlong : isLong (n + increment) = true) :
    ∃ after, store.bump times key increment seconds state = (.ok (n + increment), after) ∧
      store.Stands P after key (n + increment) ∧
      ∀ other m, other ≠ key → store.Stands P state other m → store.Stands P after other m := by
  obtain ⟨counted, hincrby, hcounted, hothers⟩ :=
    h.incrby times.incrby key increment state n hstands hlong
  obtain ⟨ttl, asked, hpttl, hasked⟩ := h.pttl times.pttl key counted
  have hbump : store.bump times key increment seconds state =
      (if ttl = -1 then do
        let _ ← store.expire times.expire key seconds
        pure (n + increment)
      else pure (n + increment) : Stateful σ StoreException Int) asked := by
    rw [CounterStore.bump, bind_of_ok hincrby, bind_of_ok hpttl]
  by_cases hforever : ttl = -1
  · obtain ⟨answer, limited, hexpire, hlimited⟩ := h.expire times.expire key seconds asked
    refine ⟨limited, ?_, hlimited _ _ (hasked _ _ hcounted), ?_⟩
    · rw [hbump, if_pos hforever, bind_of_ok hexpire]
      rfl
    · intro other m hne hother
      exact hlimited _ _ (hasked _ _ (hothers other m hne hother))
  · refine ⟨asked, ?_, hasked _ _ hcounted, ?_⟩
    · rw [hbump, if_neg hforever]
      rfl
    · intro other m hne hother
      exact hasked _ _ (hothers other m hne hother)

/-! ## A family of counters -/

section Family

variable {ι : Type} {keys : ι → Str} {counts : ι → Int}

variable (P store) in
/-- Each counter of the family stands at its number. -/
def StandAt (keys : ι → Str) (counts : ι → Int) (state : σ) : Prop :=
  ∀ i, store.Stands P state (keys i) (counts i)

variable [DecidableEq ι]

/-- One counter of the family moves, and no other key does. -/
theorem StandAt.update (h : store.StandAt P keys counts state) (hkeys : Function.Injective keys)
    {i : ι} (hself : store.Stands P after (keys i) n)
    (hothers : ∀ other m, other ≠ keys i →
      store.Stands P state other m → store.Stands P after other m) :
    store.StandAt P keys (Function.update counts i n) after := by
  intro j
  by_cases hij : j = i
  · subst hij
    rwa [Function.update_self]
  · rw [Function.update_of_ne hij]
    exact hothers _ _ (hkeys.ne hij) (h j)

theorem Lawful.incrbyAt (h : store.Lawful P) (hkeys : Function.Injective keys)
    (hstand : store.StandAt P keys counts state) (now : Int) (i : ι)
    (hlong : isLong (counts i + increment) = true) :
    ∃ after, store.incrby now (keys i) increment state = (.ok (counts i + increment), after) ∧
      store.StandAt P keys (Function.update counts i (counts i + increment)) after := by
  obtain ⟨after, hrun, hself, hothers⟩ :=
    h.incrby now (keys i) increment state _ (hstand i) hlong
  exact ⟨after, hrun, hstand.update hkeys hself hothers⟩

theorem Lawful.bumpAt (h : store.Lawful P) (hkeys : Function.Injective keys)
    (hstand : store.StandAt P keys counts state) (times : BumpTimes) (i : ι) (seconds : Int)
    (hlong : isLong (counts i + increment) = true) :
    ∃ after,
      store.bump times (keys i) increment seconds state = (.ok (counts i + increment), after) ∧
      store.StandAt P keys (Function.update counts i (counts i + increment)) after := by
  obtain ⟨after, hrun, hself, hothers⟩ := h.bump times seconds (hstand i) hlong
  exact ⟨after, hrun, hstand.update hkeys hself hothers⟩

end Family

/-! ## The in-memory stores -/

section InMemory

variable {impl : Implementation} {memory : Memory}

variable (P) in
/-- An in-memory store as a store of counters. -/
def inMemory (impl : Implementation) : CounterStore Memory where
  get _ key :=
    match impl with
    | .modern => ModernSwappableInMemoryRedis.get P key
    | .legacy => SwappableInMemoryRedis.get key
  incrby _ key increment :=
    match impl with
    | .modern => ModernSwappableInMemoryRedis.incrby P key increment
    | .legacy => SwappableInMemoryRedis.incrby P key increment
  pttl now key := RedisLike.pttl now key
  expire now key seconds := RedisLike.expire now key seconds

variable (P) in
/-- What a value counts for. -/
def countOf : Implementation → Option Value → Except StoreException Int
  | _, none => .ok 0
  | _, some (.bytes bs) => number P (some bs)
  | .modern, some (.counter n) => number P (some (P.encode (longText n)))
  | .modern, some _ => .ok 0
  | .legacy, some _ => .error .classCast

theorem count_inMemory (now : Int) :
    (inMemory P impl).count P now key memory = (countOf P impl (memory.value? key), memory) := by
  cases hvalue : memory.value? key with
  | none =>
      cases impl with
      | modern =>
          have hget : ModernSwappableInMemoryRedis.get P key memory = (.ok none, memory) := by
            rw [ModernSwappableInMemoryRedis.get, bind_of_ok (get_eq hvalue)]
            rfl
          exact bind_of_ok hget
      | legacy => exact bind_of_ok (SwappableInMemoryRedis.get_of_none hvalue)
  | some value =>
      cases impl with
      | modern =>
          have hread : ∀ bs,
              ModernSwappableInMemoryRedis.get P key memory = (.ok bs, memory) →
              (inMemory P .modern).count P now key memory = (number P bs, memory) :=
            fun bs hget => bind_of_ok hget
          cases value with
          | bytes bs => exact hread (some bs) (bind_of_ok (get_eq hvalue))
          | counter n =>
              exact hread (some (P.encode (longText n))) (bind_of_ok (get_eq hvalue))
          | hash fields => exact hread none (bind_of_ok (get_eq hvalue))
          | list elements => exact hread none (bind_of_ok (get_eq hvalue))
          | set members => exact hread none (bind_of_ok (get_eq hvalue))
      | legacy =>
          have hget : SwappableInMemoryRedis.get key memory =
              (do pure (some (← cast Value.asBytes value)) : Run (Option ByteString)) memory := by
            rw [SwappableInMemoryRedis.get, bind_of_ok (get_eq hvalue)]
          show (do
            let bs ← SwappableInMemoryRedis.get key
            Stateful.ofExcept (number P bs)) memory = _
          cases value <;> (simp only [bind, hget]; rfl)

theorem stands_inMemory_iff :
    (inMemory P impl).Stands P memory key n ↔ countOf P impl (memory.value? key) = .ok n := by
  constructor
  · intro h
    have hcount := h 0
    rw [count_inMemory, Prod.mk.injEq] at hcount
    exact hcount.1
  · intro h now
    rw [count_inMemory, h]

/-- A counter only depends on the value under its key. -/
theorem rests_inMemory {after : Memory} (h : ∀ key, after.value? key = memory.value? key) :
    (inMemory P impl).Rests P memory after := by
  intro key n hstands
  rw [stands_inMemory_iff] at hstands ⊢
  rwa [h key]

/-- The number written for a counter is read again. -/
theorem number_encode (hP : P.Standard) (hn : isLong n = true) :
    number P (some (P.encode (longText n))) = .ok n := by
  rw [number, hP.parseLong_encode hn]

/-- A number is read from a text in one way. -/
theorem number_encode_eq (hP : P.Standard)
    (h : number P (some (P.encode (longText m))) = .ok n) : m = n := by
  have hparse : parseLong P.digit (P.utf8String (P.encode (longText m))) =
      (some m).filter isLong := by
    rw [hP.utf8String_encode _ fun c hc => toNat_lt_of_mem_longText hc]
    exact parseLong_longText_filter hP.digits m
  rw [number, hparse, Option.filter_some] at h
  by_cases hlong : isLong m = true
  · rw [if_pos hlong] at h
    exact Except.ok.inj h
  · rw [if_neg hlong] at h
    cases h

/-- A written counter stands at its number, and the others where they stood. -/
theorem stands_insert {written : Value} (hwritten : countOf P impl (some written) = .ok m) :
    (inMemory P impl).Stands P { memory with store := memory.store.insert key written } key m ∧
      ∀ other n, other ≠ key → (inMemory P impl).Stands P memory other n →
        (inMemory P impl).Stands P { memory with store := memory.store.insert key written }
          other n := by
  constructor
  · rw [stands_inMemory_iff, value?_insert, if_pos rfl]
    exact hwritten
  · intro other n hne hother
    rw [stands_inMemory_iff] at hother ⊢
    rw [value?_insert, if_neg hne]
    exact hother

theorem toLong_of_number {bs : ByteString} (h : number P (some bs) = .ok n) :
    RedisLike.toLong P bs memory = (.ok n, memory) := by
  rw [number] at h
  rw [RedisLike.toLong]
  cases hparse : parseLong P.digit (P.utf8String bs) with
  | some found =>
      rw [hparse] at h
      cases h
      rfl
  | none =>
      rw [hparse] at h
      cases h

/-- The modern store keeps the sum as a counter. -/
theorem incrby_modern (hP : P.Standard) (h : countOf P .modern (memory.value? key) = .ok n)
    (hlong : isLong (n + increment) = true) :
    ModernSwappableInMemoryRedis.incrby P key increment memory =
      (.ok (n + increment),
        { memory with store := memory.store.insert key (.counter (n + increment)) }) := by
  have hzero : n = 0 → ModernSwappableInMemoryRedis.incrby P key increment memory =
      (.ok increment, { memory with store := memory.store.insert key (.counter increment) }) →
      ModernSwappableInMemoryRedis.incrby P key increment memory =
        (.ok (n + increment),
          { memory with store := memory.store.insert key (.counter (n + increment)) }) := by
    rintro rfl hrun
    rw [hrun, Int.zero_add]
  cases hvalue : memory.value? key with
  | none =>
      rw [hvalue] at h
      apply hzero (Except.ok.inj h).symm
      rw [ModernSwappableInMemoryRedis.incrby, bind_of_ok (get_eq hvalue)]
      rfl
  | some value =>
      rw [hvalue] at h
      cases value with
      | bytes bs =>
          rw [ModernSwappableInMemoryRedis.incrby, bind_of_ok (get_eq hvalue)]
          dsimp only
          rw [bind_of_ok (toLong_of_number h), wrapLong_of_isLong hlong]
          rfl
      | counter m =>
          have hm : m = n := number_encode_eq hP h
          rw [ModernSwappableInMemoryRedis.incrby, bind_of_ok (get_eq hvalue)]
          dsimp only
          rw [hm, wrapLong_of_isLong hlong]
          rfl
      | hash fields =>
          apply hzero (Except.ok.inj h).symm
          rw [ModernSwappableInMemoryRedis.incrby, bind_of_ok (get_eq hvalue)]
          rfl
      | list elements =>
          apply hzero (Except.ok.inj h).symm
          rw [ModernSwappableInMemoryRedis.incrby, bind_of_ok (get_eq hvalue)]
          rfl
      | set members =>
          apply hzero (Except.ok.inj h).symm
          rw [ModernSwappableInMemoryRedis.incrby, bind_of_ok (get_eq hvalue)]
          rfl

/-- The legacy store writes the sum as text. -/
theorem incrby_legacy (h : countOf P .legacy (memory.value? key) = .ok n)
    (hlong : isLong (n + increment) = true) :
    SwappableInMemoryRedis.incrby P key increment memory =
      (.ok (n + increment), { memory with
        store := memory.store.insert key (.bytes (P.encode (longText (n + increment)))) }) := by
  have hcounter : ∀ bs, SwappableInMemoryRedis.get key memory = (.ok bs, memory) →
      SwappableInMemoryRedis.counterOf P bs memory = (.ok n, memory) →
      SwappableInMemoryRedis.incrby P key increment memory =
        (.ok (n + increment), { memory with
          store := memory.store.insert key (.bytes (P.encode (longText (n + increment)))) }) := by
    intro bs hget hcount
    rw [SwappableInMemoryRedis.incrby, bind_of_ok hget, bind_of_ok hcount,
      wrapLong_of_isLong hlong]
    rfl
  cases hvalue : memory.value? key with
  | none =>
      rw [hvalue] at h
      cases h
      exact hcounter none (SwappableInMemoryRedis.get_of_none hvalue) rfl
  | some value =>
      rw [hvalue] at h
      cases value with
      | bytes bs =>
          exact hcounter (some bs) (SwappableInMemoryRedis.get_of_bytes hvalue)
            (toLong_of_number h)
      | counter _ => cases h
      | hash _ => cases h
      | list _ => cases h
      | set _ => cases h

/-- The in-memory stores are lawful. -/
theorem lawful_inMemory (hP : P.Standard) (impl : Implementation) :
    (inMemory P impl).Lawful P where
  incrby := by
    intro now key increment memory n hstands hlong
    rw [stands_inMemory_iff] at hstands
    cases impl with
    | modern => exact ⟨_, incrby_modern hP hstands hlong, stands_insert (number_encode hP hlong)⟩
    | legacy => exact ⟨_, incrby_legacy hstands hlong, stands_insert (number_encode hP hlong)⟩
  pttl := by
    intro now key memory
    refine ⟨_, memory, pttl_apply, ?_⟩
    exact rests_inMemory fun _ => rfl
  expire := by
    intro now key seconds memory
    refine ⟨true, _, rfl, ?_⟩
    exact rests_inMemory fun _ => rfl

/-- In the in-memory stores an increment only writes its own key. -/
theorem isolated_inMemory (impl : Implementation) : (inMemory P impl).Isolated P := by
  intro now key increment other m hne
  have hput : ∀ written, Keeps (fun memory => (inMemory P impl).Stands P memory other m)
      (put key written) := by
    intro written memory hstands
    rw [stands_inMemory_iff] at hstands ⊢
    rw [put, Stateful.modify, value?_insert, if_neg hne]
    exact hstands
  cases impl with
  | modern => exact ModernSwappableInMemoryRedis.keeps_incrby (fun _ => hput) increment
  | legacy => exact SwappableInMemoryRedis.keeps_incrby (fun _ => hput) increment

end InMemory

end CounterStore

end Otoroshi
