/-
# What the reads leave behind

A read is not supposed to change which keys exist. Most reads of a collection first ask for
the collection or a new one, and the modern store keeps the new one: after the read, its key
exists. `exists_after_reads_iff` says which runs of reads, with passes of the sweeper in
between, leave the keys of a store alone.
-/

import Otoroshi.Storage.KeyPatterns

namespace Otoroshi

open Memory Stateful RedisLike

/-- The commands that only ask for something. -/
def Command.isRead : Command → Bool
  | .get _ | .exists _ | .mget _ | .keys _ | .pttl _ | .ttl _ => true
  | .hgetall _ | .llen _ | .lrange _ _ _ | .sismember _ _ | .smembers _ | .scard _ => true
  | _ => false

/-- The key under which a read leaves a new collection, if nothing is there. -/
def Command.leavesUnder : Implementation → Command → Option Str
  | .modern, .hgetall key | .modern, .llen key | .modern, .lrange key _ _ => some key
  | .modern, .sismember key _ | .modern, .smembers key => some key
  | _, .scard key => some key
  | _, _ => none

namespace StoreEvent

/-- A read, or a pass of the sweeper. -/
def isRead : StoreEvent → Bool
  | .command _ request => request.isRead
  | .sweep _ => true

def time : StoreEvent → Int
  | .command now _ => now
  | .sweep now => now

def leavesUnder (impl : Implementation) : StoreEvent → Option Str
  | .command _ request => request.leavesUnder impl
  | .sweep _ => none

end StoreEvent

/-- The expiry of the key passes during the events. -/
def Memory.Lapses (memory : Memory) (events : List StoreEvent) (key : Str) : Prop :=
  ∃ event ∈ events, memory.ExpiredBy event.time key

/-- `exists` and `keys` tell the same about a key in two memories. -/
structure Memory.SameKey (P : StorePlatform) (before after : Memory) (key : Str) : Prop where
  existsKey : (existsKey key before).1 = (existsKey key after).1
  keys : ∀ pattern found found', (RedisLike.keys P pattern before).1 = .ok found →
    (RedisLike.keys P pattern after).1 = .ok found' → (key ∈ found ↔ key ∈ found')

namespace Reads

variable {P : StorePlatform} {impl : Implementation} {memory after : Memory} {key : Str}

theorem mem_keys_iff {pattern : Str} {found : Finset Str}
    (h : (RedisLike.keys P pattern memory).1 = .ok found) :
    ∃ compiled, P.compile (Glob.source pattern) = some compiled ∧
      ∀ key, key ∈ found ↔ (memory.value? key).isSome = true ∧ P.finds compiled key = true := by
  cases hcompiled : P.compile (Glob.source pattern) with
  | none =>
      rw [KeyPatterns.keys_of_not_compiles hcompiled] at h
      cases h
  | some compiled =>
      rw [KeyPatterns.keys_of_compiles hcompiled, Except.ok.injEq] at h
      exact ⟨compiled, rfl, fun key => h ▸ KeyPatterns.mem_listed_iff⟩

/-- The two commands tell whether there is a value. -/
theorem sameKey_iff :
    memory.SameKey P after key ↔ (memory.value? key).isSome = (after.value? key).isSome := by
  refine ⟨fun h => Except.ok.inj h.existsKey, fun h => ⟨congrArg Except.ok h, ?_⟩⟩
  intro pattern found found' hfound hfound'
  obtain ⟨compiled, hcompiled, hmem⟩ := mem_keys_iff hfound
  obtain ⟨compiled', hcompiled', hmem'⟩ := mem_keys_iff hfound'
  rw [hcompiled, Option.some.injEq] at hcompiled'
  rw [hmem, hmem', hcompiled', h]

/-! ## One read -/

section Step

variable {α β : Type} {as : Value → Option α} {up : Value}

theorem cast_state (as : Value → Option α) (value : Value) : (cast as value memory).2 = memory :=
  (keeps_cast as value : Keeps (· = memory) (cast as value)) memory rfl

/-- The reads that leave nothing behind keep every invariant. -/
theorem state_of_keeps {program : Run α} (h : Keeps (· = memory) program) :
    (program memory).2 = memory := h memory rfl

theorem isSome_value?_getTypedOrUpdate (as : Value → Option α) (up : Value) (other : Str) :
    ((getTypedOrUpdate as key up memory).2.value? other).isSome =
      ((memory.value? other).isSome || decide (key = other)) := by
  cases hvalue : memory.value? key with
  | some value =>
      rw [getTypedOrUpdate_of_some hvalue, cast_state]
      by_cases hkey : key = other
      · rw [← hkey, hvalue, Option.isSome_some, Bool.true_or]
      · rw [decide_eq_false hkey, Bool.or_false]
  | none =>
      rw [getTypedOrUpdate_of_none hvalue, cast_state, value?_insert]
      by_cases hkey : other = key
      · rw [if_pos hkey, hkey, decide_eq_true rfl, Bool.or_true, Option.isSome_some]
      · rw [if_neg hkey, decide_eq_false (Ne.symm hkey), Bool.or_false]

theorem expirations_getTypedOrUpdate (as : Value → Option α) (up : Value) :
    (getTypedOrUpdate as key up memory).2.expirations = memory.expirations := by
  cases hvalue : memory.value? key with
  | some value => rw [getTypedOrUpdate_of_some hvalue, cast_state]
  | none => rw [getTypedOrUpdate_of_none hvalue, cast_state]

/-- What a program leaves behind that only may create a value under a key. -/
def Leaves (program : Run α) (created : Option Str) : Prop :=
  ∀ memory : Memory, (program memory).2.expirations = memory.expirations ∧
    ∀ other, ((program memory).2.value? other).isSome =
      ((memory.value? other).isSome || decide (created = some other))

theorem leaves_of_keeps {program : Run α} (h : ∀ memory, Keeps (· = memory) program) :
    Leaves program none := by
  intro memory
  rw [state_of_keeps (h memory)]
  simp

theorem leaves_getTypedOrUpdate (as : Value → Option α) (key : Str) (up : Value) :
    Leaves (getTypedOrUpdate as key up) (some key) := by
  intro memory
  refine ⟨expirations_getTypedOrUpdate as up, fun other => ?_⟩
  rw [isSome_value?_getTypedOrUpdate]
  simp

theorem Leaves.map {program : Run α} {created : Option Str} (h : Leaves program created)
    (f : α → β) : Leaves (do pure (f (← program))) created := by
  intro memory
  rw [bind_pure_apply]
  exact h memory

end Step

open ModernSwappableInMemoryRedis in
/-- A read leaves at most an empty collection behind. -/
theorem leaves_exec (now : Int) {request : Command} (hread : request.isRead = true) :
    Leaves (impl.exec P now request) (request.leavesUnder impl) := by
  cases request with
  | get key =>
      cases impl with
      | modern => exact leaves_of_keeps fun _ => keeps_reply (keeps_get P key) _
      | legacy => exact leaves_of_keeps fun _ => keeps_reply (SwappableInMemoryRedis.keeps_get key) _
  | «exists» key =>
      cases impl <;> exact leaves_of_keeps fun _ => keeps_reply (keeps_existsKey key) _
  | mget keys =>
      cases impl with
      | modern => exact leaves_of_keeps fun _ => keeps_reply (keeps_mget P keys) _
      | legacy =>
          exact leaves_of_keeps fun _ => keeps_reply (SwappableInMemoryRedis.keeps_mget keys) _
  | keys pattern =>
      cases impl <;> exact leaves_of_keeps fun _ => keeps_reply (keeps_keys P pattern) _
  | pttl key => cases impl <;> exact leaves_of_keeps fun _ => keeps_reply (keeps_pttl now key) _
  | ttl key =>
      cases impl <;>
        exact leaves_of_keeps fun _ => keeps_reply (keeps_reply (keeps_pttl now key) _) _
  | hgetall key =>
      cases impl with
      | modern => exact (leaves_getTypedOrUpdate _ key _).map _
      | legacy => exact leaves_of_keeps fun _ => keeps_reply (keeps_getTypedOrElse _ key _) _
  | llen key =>
      cases impl with
      | modern => exact ((leaves_getTypedOrUpdate _ key _).map _).map _
      | legacy => exact leaves_of_keeps fun _ => keeps_reply (SwappableInMemoryRedis.keeps_llen key) _
  | lrange key start stop =>
      cases impl with
      | modern => exact ((leaves_getTypedOrUpdate _ key _).map _).map _
      | legacy =>
          exact leaves_of_keeps fun _ =>
            keeps_reply (keeps_reply (keeps_getTypedOrElse _ key _) _) _
  | sismember key member =>
      cases impl with
      | modern => exact ((leaves_getTypedOrUpdate _ key _).map _).map _
      | legacy =>
          exact leaves_of_keeps fun _ =>
            keeps_reply (keeps_reply (keeps_getTypedOrElse _ key _) _) _
  | smembers key =>
      cases impl with
      | modern => exact (leaves_getTypedOrUpdate _ key _).map _
      | legacy => exact leaves_of_keeps fun _ => keeps_reply (keeps_getTypedOrElse _ key _) _
  | scard key => cases impl <;> exact ((leaves_getTypedOrUpdate _ key _).map _).map _
  | _ => cases hread

/-! ## Runs of reads -/

/-- What one event does to a key whose expiry does not pass. -/
theorem run_event {event : StoreEvent} (hread : event.isRead = true)
    (hexpired : ¬ memory.ExpiredBy event.time key) :
    (event.run P impl memory).2.expiration? key = memory.expiration? key ∧
      ((event.run P impl memory).2.value? key).isSome =
        ((memory.value? key).isSome || decide (event.leavesUnder impl = some key)) := by
  cases event with
  | command now request =>
      obtain ⟨hexpirations, hvalue⟩ :=
        ((leaves_exec now hread : Leaves (impl.exec P now request) _).map some) memory
      exact ⟨congrArg (AList.lookup key) hexpirations, hvalue key⟩
  | sweep now =>
      refine ⟨expiration?_sweep hexpired, ?_⟩
      have hvalue : ((StoreEvent.sweep now).run P impl memory).2.value? key = memory.value? key :=
        value?_sweep hexpired
      rw [hvalue]
      simp [StoreEvent.leavesUnder]

/-- After a run of reads a key exists if it did before, or if some read has left a collection
under it. The induction is on the events. -/
theorem isSome_value?_after {events : List StoreEvent}
    (hreads : ∀ event ∈ events, event.isRead = true) (hlapses : ¬ memory.Lapses events key) :
    ((StoreEvent.after P impl memory events).value? key).isSome = true ↔
      (memory.value? key).isSome = true ∨ ∃ event ∈ events, event.leavesUnder impl = some key := by
  induction events generalizing memory with
  | nil => simp [StoreEvent.after, afterAll]
  | cons event events ih =>
      rw [List.forall_mem_cons] at hreads
      have hfirst : ¬ memory.ExpiredBy event.time key :=
        fun hexpired => hlapses ⟨event, List.mem_cons_self, hexpired⟩
      obtain ⟨hexpiration, hvalue⟩ := @run_event P impl _ _ _ hreads.1 hfirst
      have hrest : ¬ Memory.Lapses (event.run P impl memory).2 events key := by
        rintro ⟨later, hmem, expiration, hlookup, hpast⟩
        rw [hexpiration] at hlookup
        exact hlapses ⟨later, List.mem_cons_of_mem event hmem, expiration, hlookup, hpast⟩
      have hafter : StoreEvent.after P impl memory (event :: events) =
          StoreEvent.after P impl (event.run P impl memory).2 events := rfl
      rw [hafter, ih hreads.2 hrest, hvalue, Bool.or_eq_true, decide_eq_true_eq, or_assoc]
      simp only [List.mem_cons, exists_eq_or_imp]

/-- The reads of a run leave the keys alone whose expiry does not pass, if and only if none of
them asks for a collection under a key without a value, where it would leave one. -/
theorem exists_after_reads_iff (P : StorePlatform) (impl : Implementation) (memory : Memory)
    (events : List StoreEvent) (hreads : ∀ event ∈ events, event.isRead = true) :
    (∀ key, ¬ memory.Lapses events key →
      memory.SameKey P (StoreEvent.after P impl memory events) key) ↔
    ∀ event ∈ events, ∀ key, event.leavesUnder impl = some key →
      (memory.value? key).isSome = true ∨ memory.Lapses events key := by
  refine ⟨fun h event hmem key hleaves => ?_, fun h key hlapses => ?_⟩
  · by_cases hlapses : memory.Lapses events key
    · exact .inr hlapses
    · left
      rw [sameKey_iff.mp (h key hlapses), isSome_value?_after hreads hlapses]
      exact .inr ⟨event, hmem, hleaves⟩
  · rw [sameKey_iff, Bool.eq_iff_iff, isSome_value?_after hreads hlapses]
    refine ⟨Or.inl, fun hexists => ?_⟩
    rcases hexists with hvalue | ⟨event, hmem, hleaves⟩
    · exact hvalue
    · exact (h event hmem key hleaves).resolve_right hlapses

theorem not_lapses_empty (events : List StoreEvent) (key : Str) :
    ¬ Memory.empty.Lapses events key := by
  rintro ⟨event, -, expiration, hlookup, -⟩
  cases hlookup

theorem exists_after_reads_of_example :
    Memory.empty.SameKey starStorePlatform
      (StoreEvent.after starStorePlatform .modern .empty
        [.command 0 (.get "k".toList), .sweep 1]) "k".toList :=
  (exists_after_reads_iff starStorePlatform .modern .empty
    [.command 0 (.get "k".toList), .sweep 1] (by simp [StoreEvent.isRead, Command.isRead])).mpr
      (by simp [StoreEvent.leavesUnder, Command.leavesUnder]) "k".toList (not_lapses_empty _ _)

/-- The length of a list that is not there is asked for, and then it is there. -/
theorem not_forall_sameKey :
    ¬ ∀ (P : StorePlatform) (memory : Memory) (events : List StoreEvent),
      (∀ event ∈ events, event.isRead = true) → ∀ key, ¬ memory.Lapses events key →
        memory.SameKey P (StoreEvent.after P .modern memory events) key := by
  intro h
  have hsame := sameKey_iff.mp (h starStorePlatform .empty [.command 0 (.llen "k".toList)]
    (by simp [StoreEvent.isRead, Command.isRead]) "k".toList (not_lapses_empty _ _))
  have hthere : ((StoreEvent.after starStorePlatform .modern .empty
      [.command 0 (.llen "k".toList)]).value? "k".toList).isSome = true := by rfl
  rw [hthere] at hsame
  cases hsame

end Reads

end Otoroshi
