/-
# What the commands write

A command empties the memory, puts a value under its key, removes its keys or
records an expiration. Whether it puts a value depends on what stands under the
key: a command on collections throws on a text, and an increment throws on a text
that is no number.

`Command.Writes` lists the single writes of a command under an invariant, and
`keeps_exec` says that a command keeps the invariant in both stores when each of
its writes does. What holds along the runs of a store is then a matter of a few
writes, and not of the twenty-four commands of two classes. The first invariant is
that the expirations, which are integers here, are of type `Long` as in the program:
every expiration that is recorded is a wrapped sum.
-/

import Otoroshi.Storage.InMemoryRedis

namespace Otoroshi

open Memory Stateful RedisLike

variable {P : StorePlatform} {holds : Memory → Prop}

/-! ## Single writes -/

/-- A command on collections, by the key of the collection. -/
def Command.collectionKey : Command → Option Str
  | .hdel key _ | .hgetall key | .hset key _ _ => some key
  | .llen key | .lpush key _ | .lrange key _ _ | .ltrim key _ _ => some key
  | .sadd key _ | .sismember key _ | .smembers key | .srem key _ | .scard key => some key
  | _ => none

/-- Under the invariant the key may be without a text. -/
def WithoutText (holds : Memory → Prop) (key : Str) : Prop :=
  ∃ memory, holds memory ∧ ∀ bs, memory.value? key ≠ some (.bytes bs)

/-- Under the invariant the key may be without a text that is no number. -/
def WithNumber (P : StorePlatform) (holds : Memory → Prop) (key : Str) : Prop :=
  ∃ memory, holds memory ∧
    ∀ bs, memory.value? key = some (.bytes bs) → parseLong P.digit (P.utf8String bs) ≠ none

/-- One of the writes of a command, run from memories with the invariant. -/
inductive Command.Writes (P : StorePlatform) (holds : Memory → Prop) : Command → Run Unit → Prop
  | flushall : Writes P holds .flushall (modify fun _ => Memory.empty)
  | set {key value ex px} : Writes P holds (.set key value ex px) (put key (.bytes value))
  | lifetime {key value ex px time} (hlong : isLong time = true) :
      Writes P holds (.set key value ex px) (putExpiration key time)
  | expire {key seconds time} (hlong : isLong time = true) :
      Writes P holds (.expire key seconds) (putExpiration key time)
  | pexpire {key milliseconds time} (hlong : isLong time = true) :
      Writes P holds (.pexpire key milliseconds) (putExpiration key time)
  | remove {key keys} (hmem : key ∈ keys) : Writes P holds (.del keys) (Memory.remove key)
  | incrby {key increment written} (hnumber : WithNumber P holds key) :
      Writes P holds (.incrby key increment) (put key written)
  | collection {request key written} (hkey : Command.collectionKey request = some key)
      (hwithout : WithoutText holds key) : Writes P holds request (put key written)

/-! ## Programs over the memory -/

namespace Memory

variable {α β : Type} {as : Value → Option α} {key : Str} {up : Value}

theorem keeps_read (key : Str) : Keeps holds (Memory.get key) := fun _ hmemory => hmemory

theorem keeps_getExpiration (key : Str) : Keeps holds (getExpiration key) :=
  fun _ hmemory => hmemory

theorem keeps_cast (as : Value → Option α) (found : Value) : Keeps holds (cast as found) := by
  rw [cast]
  cases as found with
  | some a => exact keeps_pure a
  | none => exact keeps_throw _

/-- Turning an answer into a reply does nothing to the memory. -/
theorem keeps_reply {program : Run α} (h : Keeps holds program) (reply : α → β) :
    Keeps holds (do pure (reply (← program))) :=
  keeps_bind h fun a _ _ _ => keeps_pure (reply a)

theorem keeps_getTypedOrElse (as : Value → Option α) (key : Str) (up : Value) :
    Keeps holds (getTypedOrElse as key up) := by
  refine keeps_bind (keeps_read key) fun found memory _ _ => ?_
  cases found with
  | some found => exact keeps_cast as found
  | none => exact keeps_cast as up

/-- A new collection is only put under a key without a value. -/
theorem keeps_getTypedOrUpdate
    (hput : WithoutText holds key → ∀ written, Keeps holds (put key written))
    (as : Value → Option α) (up : Value) : Keeps holds (getTypedOrUpdate as key up) := by
  refine keeps_bind (keeps_read key) fun found memory hmemory hfound => ?_
  cases found with
  | some found => exact keeps_cast as found
  | none =>
      have hnone : memory.value? key = none := Except.ok.inj hfound
      have hwithout : WithoutText holds key := by
        refine ⟨memory, hmemory, fun bs hbytes => ?_⟩
        rw [hnone] at hbytes
        cases hbytes
      exact keeps_bind (hput hwithout up) fun _ _ _ _ => keeps_cast as up

/-- What reads a collection under a key never returns for a key with a text. -/
theorem withoutText_of_typed (has : ∀ bs, as (.bytes bs) = none) {memory : Memory}
    (hmemory : holds memory) {a : α}
    (h : (getTypedOrUpdate as key up memory).1 = .ok a ∨
      (getTypedOrElse as key up memory).1 = .ok a) : WithoutText holds key := by
  refine ⟨memory, hmemory, fun bs hfound => ?_⟩
  rw [getTypedOrUpdate_of_some hfound, getTypedOrElse_of_some hfound] at h
  simp only [cast, has] at h
  rcases h with h | h
  · cases h
  · cases h

/-- A command that reads a collection, puts a new one and answers. -/
theorem keeps_updating_put
    (hput : WithoutText holds key → ∀ written, Keeps holds (put key written))
    (has : ∀ bs, as (.bytes bs) = none) (up : Value) (written : α → Value) (answer : α → β) :
    Keeps holds (do
      let a ← getTypedOrUpdate as key up
      put key (written a)
      pure (answer a)) := by
  refine keeps_bind (keeps_getTypedOrUpdate hput as up) fun a memory hmemory hresult => ?_
  have hwithout := withoutText_of_typed has hmemory (Or.inl hresult)
  exact keeps_bind (hput hwithout _) fun _ _ _ _ => keeps_pure _

theorem keeps_reading_put
    (hput : WithoutText holds key → ∀ written, Keeps holds (put key written))
    (has : ∀ bs, as (.bytes bs) = none) (up : Value) (written : α → Value) (answer : α → β) :
    Keeps holds (do
      let a ← getTypedOrElse as key up
      put key (written a)
      pure (answer a)) := by
  refine keeps_bind (keeps_getTypedOrElse as key up) fun a memory hmemory hresult => ?_
  have hwithout := withoutText_of_typed has hmemory (Or.inr hresult)
  exact keeps_bind (hput hwithout _) fun _ _ _ _ => keeps_pure _

end Memory

/-! ## Commands -/

namespace RedisLike

variable {key : Str}

theorem keeps_expire
    (hexpire : ∀ time, isLong time = true → Keeps holds (putExpiration key time))
    (now seconds : Int) : Keeps holds (expire now key seconds) :=
  keeps_bind (hexpire _ (isLong_wrapLong _)) fun _ _ _ _ => keeps_pure true

theorem keeps_pexpire
    (hexpire : ∀ time, isLong time = true → Keeps holds (putExpiration key time))
    (now milliseconds : Int) : Keeps holds (pexpire now key milliseconds) :=
  keeps_bind (hexpire _ (isLong_wrapLong _)) fun _ _ _ _ => keeps_pure true

theorem keeps_ifDefined (duration : Option Int) {command : Int → Run Bool}
    (hcommand : ∀ given, Keeps holds (command given)) :
    Keeps holds (ifDefined duration command) := by
  cases duration with
  | some given => exact keeps_bind (hcommand given) fun _ _ _ _ => keeps_pure ()
  | none => exact keeps_pure ()

theorem keeps_setBS {value : ByteString} (hput : Keeps holds (put key (.bytes value)))
    (hexpire : ∀ time, isLong time = true → Keeps holds (putExpiration key time)) (now : Int)
    (exSeconds pxMilliseconds : Option Int) :
    Keeps holds (setBS now key value exSeconds pxMilliseconds) := by
  apply keeps_bind hput
  intro _ _ _ _
  have hex := keeps_ifDefined exSeconds fun seconds =>
    keeps_expire hexpire now (longToInt seconds)
  have hpx := keeps_ifDefined pxMilliseconds fun milliseconds =>
    keeps_pexpire hexpire now milliseconds
  refine keeps_bind hex fun _ _ _ _ => ?_
  refine keeps_bind hpx fun _ _ _ _ => ?_
  exact keeps_pure true

theorem keeps_removeAll {keys : List Str}
    (hremove : ∀ key ∈ keys, Keeps holds (Memory.remove key)) : Keeps holds (removeAll keys) := by
  induction keys with
  | nil => exact keeps_pure ()
  | cons key keys ih =>
      rw [List.forall_mem_cons] at hremove
      exact keeps_bind hremove.1 fun _ _ _ _ => ih hremove.2

theorem keeps_existsKey (key : Str) : Keeps holds (existsKey key) :=
  keeps_bind (keeps_read key) fun _ _ _ _ => keeps_pure _

theorem keeps_keys (P : StorePlatform) (pattern : Str) :
    Keeps holds (RedisLike.keys P pattern) := by
  rw [RedisLike.keys]
  cases P.compile (replaceChar pattern '*' ".*".toList) with
  | none => exact keeps_throw _
  | some compiled => exact keeps_bind keeps_get fun _ _ _ _ => keeps_pure _

theorem keeps_pttl (now : Int) (key : Str) : Keeps holds (pttl now key) := by
  refine keeps_bind (keeps_getExpiration key) fun found _ _ _ => ?_
  cases found with
  | some expiration => exact keeps_pure _
  | none => exact keeps_pure _

theorem keeps_toLong (P : StorePlatform) (bs : ByteString) : Keeps holds (toLong P bs) := by
  rw [toLong]
  cases parseLong P.digit (P.utf8String bs) with
  | some n => exact keeps_pure n
  | none => exact keeps_throw _

/-- Only a number is read as one. -/
theorem parseLong_ne_none_of_toLong {bs : ByteString} {memory : Memory} {n : Int}
    (h : (toLong P bs memory).1 = .ok n) : parseLong P.digit (P.utf8String bs) ≠ none := by
  intro hnone
  rw [toLong, hnone] at h
  cases h

end RedisLike

namespace ModernSwappableInMemoryRedis

theorem keeps_get (P : StorePlatform) (key : Str) :
    Keeps holds (ModernSwappableInMemoryRedis.get P key) := by
  refine keeps_bind (keeps_read key) fun found _ _ _ => ?_
  split
  · exact keeps_pure _
  · exact keeps_pure _
  · exact keeps_pure none

theorem keeps_incrby {key : Str}
    (hput : WithNumber P holds key → ∀ written, Keeps holds (put key written)) (increment : Int) :
    Keeps holds (incrby P key increment) := by
  refine keeps_bind (keeps_read key) fun found memory hmemory hfound => ?_
  have hvalue : memory.value? key = found := Except.ok.inj hfound
  split
  · next bs =>
      refine keeps_bind (keeps_toLong P bs) fun n state _ hn => ?_
      have hnumber : WithNumber P holds key := by
        refine ⟨memory, hmemory, fun other hother => ?_⟩
        rw [hvalue] at hother
        cases hother
        exact parseLong_ne_none_of_toLong hn
      exact keeps_bind (hput hnumber _) fun _ _ _ _ => keeps_pure _
  · next n =>
      have hnumber : WithNumber P holds key := by
        refine ⟨memory, hmemory, fun bs hbytes => ?_⟩
        rw [hvalue] at hbytes
        cases hbytes
      exact keeps_bind (hput hnumber _) fun _ _ _ _ => keeps_pure _
  · next hnot _ =>
      have hnumber : WithNumber P holds key := by
        refine ⟨memory, hmemory, fun bs hbytes => ?_⟩
        rw [hvalue] at hbytes
        exact absurd hbytes (hnot bs)
      exact keeps_bind (hput hnumber _) fun _ _ _ _ => keeps_pure _

theorem keeps_mget (P : StorePlatform) (keys : List Str) : Keeps holds (mget P keys) := by
  induction keys with
  | nil => exact keeps_pure []
  | cons key keys ih =>
      refine keeps_bind (ModernSwappableInMemoryRedis.keeps_get P key) fun found _ _ _ => ?_
      exact keeps_bind ih fun _ _ _ _ => keeps_pure _

end ModernSwappableInMemoryRedis

namespace SwappableInMemoryRedis

theorem keeps_get (key : Str) : Keeps holds (SwappableInMemoryRedis.get key) := by
  refine keeps_bind (keeps_read key) fun found _ _ _ => ?_
  cases found with
  | some found => exact keeps_bind (keeps_cast _ found) fun _ _ _ _ => keeps_pure _
  | none => exact keeps_pure none

theorem keeps_counterOf (P : StorePlatform) (bs : Option ByteString) :
    Keeps holds (counterOf P bs) := by
  cases bs with
  | some bs => exact keeps_toLong P bs
  | none => exact keeps_pure 0

theorem keeps_incrby {key : Str}
    (hput : WithNumber P holds key → ∀ written, Keeps holds (put key written)) (increment : Int) :
    Keeps holds (incrby P key increment) := by
  refine keeps_bind (SwappableInMemoryRedis.keeps_get key) fun found memory hmemory hfound => ?_
  refine keeps_bind (keeps_counterOf P found) fun n state _ hn => ?_
  have hnumber : WithNumber P holds key := by
    refine ⟨memory, hmemory, fun bs hbytes => ?_⟩
    rw [get_of_bytes hbytes] at hfound
    cases hfound
    exact parseLong_ne_none_of_toLong hn
  exact keeps_bind (hput hnumber _) fun _ _ _ _ => keeps_pure _

theorem keeps_mget (keys : List Str) : Keeps holds (mget keys) := by
  induction keys with
  | nil => exact keeps_pure []
  | cons key keys ih =>
      refine keeps_bind (SwappableInMemoryRedis.keeps_get key) fun found _ _ _ => ?_
      exact keeps_bind ih fun _ _ _ _ => keeps_pure _

theorem keeps_llen (key : Str) : Keeps holds (llen key) := by
  refine keeps_bind (keeps_read key) fun found _ _ _ => ?_
  cases found with
  | some found => exact keeps_cast _ found
  | none => exact keeps_pure 0

theorem keeps_hdel {key : Str}
    (hput : WithoutText holds key → ∀ written, Keeps holds (put key written))
    (fields : List Str) : Keeps holds (hdel key fields) := by
  refine keeps_bind (keeps_existsKey key) fun present _ _ _ => ?_
  have hread : Keeps holds (getTypedOrElse Value.asHash key (.hash ∅)) :=
    keeps_getTypedOrElse _ key _
  refine keeps_bind hread fun hash memory hmemory hresult => ?_
  have hwithout := withoutText_of_typed (fun _ => rfl) hmemory (Or.inr hresult)
  cases present with
  | true => exact keeps_bind (hput hwithout _) fun _ _ _ _ => keeps_pure _
  | false => exact keeps_bind (keeps_pure ()) fun _ _ _ _ => keeps_pure _

end SwappableInMemoryRedis

/-- A command keeps what each of its writes keeps, in both stores. -/
theorem keeps_exec (impl : Implementation) (now : Int) {request : Command}
    (h : ∀ write, request.Writes P holds write → Keeps holds write) :
    Keeps holds (impl.exec P now request) := by
  have hput : ∀ key, request.collectionKey = some key → WithoutText holds key →
      ∀ written, Keeps holds (put key written) :=
    fun key hkey hwithout written => h _ (.collection hkey hwithout)
  cases request with
  | flushall => exact keeps_reply (keeps_bind (h _ .flushall) fun _ _ _ _ => keeps_pure true) _
  | get key =>
      cases impl with
      | modern => exact keeps_reply (ModernSwappableInMemoryRedis.keeps_get P key) _
      | legacy => exact keeps_reply (SwappableInMemoryRedis.keeps_get key) _
  | set key value ex px =>
      have hexpire : ∀ time, isLong time = true → Keeps holds (putExpiration key time) :=
        fun time hlong => h _ (.lifetime hlong)
      exact keeps_reply (keeps_setBS (h _ .set) hexpire now ex px) _
  | del keys =>
      have hremove := keeps_removeAll fun key hmem => h _ (.remove hmem)
      exact keeps_reply (keeps_bind hremove fun _ _ _ _ => keeps_pure _) _
  | incrby key increment =>
      have hcounter : WithNumber P holds key → ∀ written, Keeps holds (put key written) :=
        fun hnumber written => h _ (.incrby hnumber)
      cases impl with
      | modern => exact keeps_reply (ModernSwappableInMemoryRedis.keeps_incrby hcounter increment) _
      | legacy => exact keeps_reply (SwappableInMemoryRedis.keeps_incrby hcounter increment) _
  | «exists» key => exact keeps_reply (keeps_existsKey key) _
  | mget keys =>
      cases impl with
      | modern => exact keeps_reply (ModernSwappableInMemoryRedis.keeps_mget P keys) _
      | legacy => exact keeps_reply (SwappableInMemoryRedis.keeps_mget keys) _
  | keys pattern => exact keeps_reply (keeps_keys P pattern) _
  | hdel key fields =>
      cases impl with
      | modern => exact keeps_reply (keeps_updating_put (hput key rfl) (fun _ => rfl) _ _ _) _
      | legacy => exact keeps_reply (SwappableInMemoryRedis.keeps_hdel (hput key rfl) fields) _
  | hgetall key =>
      cases impl with
      | modern => exact keeps_reply (keeps_getTypedOrUpdate (hput key rfl) _ _) _
      | legacy => exact keeps_reply (keeps_getTypedOrElse _ key _) _
  | hset key field value =>
      cases impl with
      | modern => exact keeps_reply (keeps_updating_put (hput key rfl) (fun _ => rfl) _ _ _) _
      | legacy => exact keeps_reply (keeps_reading_put (hput key rfl) (fun _ => rfl) _ _ _) _
  | llen key =>
      cases impl with
      | modern => exact keeps_reply (keeps_reply (keeps_getTypedOrUpdate (hput key rfl) _ _) _) _
      | legacy => exact keeps_reply (SwappableInMemoryRedis.keeps_llen key) _
  | lpush key values =>
      exact keeps_reply (keeps_updating_put (hput key rfl) (fun _ => rfl) _ _ _) _
  | lrange key start stop =>
      cases impl with
      | modern => exact keeps_reply (keeps_reply (keeps_getTypedOrUpdate (hput key rfl) _ _) _) _
      | legacy => exact keeps_reply (keeps_reply (keeps_getTypedOrElse _ key _) _) _
  | ltrim key start stop =>
      exact keeps_reply (keeps_updating_put (hput key rfl) (fun _ => rfl) _ _ _) _
  | pttl key => exact keeps_reply (keeps_pttl now key) _
  | ttl key => exact keeps_reply (keeps_reply (keeps_pttl now key) _) _
  | expire key seconds =>
      exact keeps_reply (keeps_expire (fun time hlong => h _ (.expire hlong)) now seconds) _
  | pexpire key milliseconds =>
      exact keeps_reply (keeps_pexpire (fun time hlong => h _ (.pexpire hlong)) now milliseconds) _
  | sadd key members =>
      exact keeps_reply (keeps_updating_put (hput key rfl) (fun _ => rfl) _ _ _) _
  | sismember key member =>
      cases impl with
      | modern => exact keeps_reply (keeps_reply (keeps_getTypedOrUpdate (hput key rfl) _ _) _) _
      | legacy => exact keeps_reply (keeps_reply (keeps_getTypedOrElse _ key _) _) _
  | smembers key =>
      cases impl with
      | modern => exact keeps_reply (keeps_getTypedOrUpdate (hput key rfl) _ _) _
      | legacy => exact keeps_reply (keeps_getTypedOrElse _ key _) _
  | srem key members =>
      exact keeps_reply (keeps_updating_put (hput key rfl) (fun _ => rfl) _ _ _) _
  | scard key => exact keeps_reply (keeps_reply (keeps_getTypedOrUpdate (hput key rfl) _ _) _) _

/-- The same for what happens to a store. -/
theorem StoreEvent.keeps_run (impl : Implementation) {event : StoreEvent}
    (hcommand : ∀ now request, event = .command now request →
      ∀ write, request.Writes P holds write → Keeps holds write)
    (hsweep : ∀ now, event = .sweep now → ∀ memory, holds memory → holds (memory.sweep now)) :
    Keeps holds (event.run P impl) := by
  cases event with
  | command now request => exact keeps_reply (keeps_exec impl now (hcommand now request rfl)) _
  | sweep now => exact keeps_bind (keeps_modify (hsweep now rfl)) fun _ _ _ _ => keeps_pure none

/-! ## The expirations of reachable memories -/

namespace Memory

/-- The expirations are of type `Long`. -/
def LongTimes (memory : Memory) : Prop :=
  ∀ key e, memory.expiration? key = some e → isLong e = true

theorem longTimes_empty : LongTimes .empty := by
  intro key e h
  cases h

theorem longTimes_put (key : Str) (value : Value) : Keeps LongTimes (put key value) :=
  keeps_modify fun _ hmemory => hmemory

theorem longTimes_putExpiration {key : Str} {time : Int} (h : isLong time = true) :
    Keeps LongTimes (putExpiration key time) := by
  refine keeps_modify fun memory hmemory => ?_
  intro other e he
  rw [expiration?_insert] at he
  split at he
  · exact Option.some.inj he ▸ h
  · exact hmemory other e he

/-- A pass of the sweeper only removes expirations. -/
theorem LongTimes.sweep {memory : Memory} (h : memory.LongTimes) (now : Int) :
    (memory.sweep now).LongTimes := by
  intro key e he
  by_cases hexpired : memory.ExpiredBy now key
  · rw [expiration?_sweep_of_expired hexpired] at he
    cases he
  · rw [expiration?_sweep hexpired] at he
    exact h key e he

end Memory

/-- Every write leaves expirations of type `Long`. -/
theorem Command.Writes.longTimes {request : Command} {write : Memory.Run Unit}
    (h : request.Writes P LongTimes write) : Keeps LongTimes write := by
  cases h with
  | flushall => exact keeps_modify fun _ _ => longTimes_empty
  | set => exact longTimes_put _ _
  | lifetime hlong => exact longTimes_putExpiration hlong
  | expire hlong => exact longTimes_putExpiration hlong
  | pexpire hlong => exact longTimes_putExpiration hlong
  | remove => exact keeps_modify fun _ hmemory => hmemory
  | incrby => exact longTimes_put _ _
  | collection => exact longTimes_put _ _

/-- In every memory that a run reaches the expirations are of type `Long`. -/
theorem StoreEvent.longTimes_after (P : StorePlatform) (impl : Implementation)
    (events : List StoreEvent) : (after P impl .empty events).LongTimes := by
  refine keeps_of_forall (fun event _ => ?_) longTimes_empty
  exact keeps_run impl (fun _ _ _ _ hwrite => hwrite.longTimes)
    fun now _ _ hmemory => hmemory.sweep now

end Otoroshi
