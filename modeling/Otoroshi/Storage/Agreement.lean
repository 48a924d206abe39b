/-
# The two stores next to each other

The legacy store and the modern one run the same commands, and a process may be
on either. They keep different values for the same data: the modern store holds a
counter as a number, and a read of a collection that is not there leaves an empty
one behind. `Agree` relates two memories that only differ in this way.

When every key is used for one kind of data, each command takes agreeing memories
to agreeing ones. Its answers are the same too, but for three commands: the
length of a list, which the legacy store cannot read, and the two commands that
see whether a key is there. `replies_eq_iff` says so for whole runs.
-/

import Otoroshi.Foundation.Run
import Otoroshi.Storage.Expiration

namespace Otoroshi

open Memory RedisLike Stateful

/-! ## What a key is used for -/

/-- The kinds of data under a key. -/
inductive Kind
  | text
  | hash
  | list
  | set
  deriving DecidableEq

def Value.kind : Value → Kind
  | .bytes _ => .text
  | .counter _ => .text
  | .hash _ => .hash
  | .list _ => .list
  | .set _ => .set

/-- The collection that a command creates. -/
def Kind.new : Kind → Value
  | .text => .bytes []
  | .hash => .hash ∅
  | .list => .list []
  | .set => .set ∅

/-- The command uses its keys for data of their kinds, and its increment is a
`Long`. -/
def Command.Typed (kinds : Str → Kind) : Command → Prop
  | .get key => kinds key = .text
  | .set key _ _ _ => kinds key = .text
  | .incrby key increment => kinds key = .text ∧ isLong increment = true
  | .mget others => ∀ key ∈ others, kinds key = .text
  | .hdel key _ => kinds key = .hash
  | .hgetall key => kinds key = .hash
  | .hset key _ _ => kinds key = .hash
  | .llen key => kinds key = .list
  | .lpush key _ => kinds key = .list
  | .lrange key _ _ => kinds key = .list
  | .ltrim key _ _ => kinds key = .list
  | .sadd key _ => kinds key = .set
  | .sismember key _ => kinds key = .set
  | .smembers key => kinds key = .set
  | .srem key _ => kinds key = .set
  | .scard key => kinds key = .set
  | _ => True

instance (kinds : Str → Kind) (request : Command) : Decidable (request.Typed kinds) := by
  cases request <;> (unfold Command.Typed; infer_instance)

def StoreEvent.Typed (kinds : Str → Kind) : StoreEvent → Prop
  | .command _ request => request.Typed kinds
  | .sweep _ => True

instance (kinds : Str → Kind) : (event : StoreEvent) → Decidable (event.Typed kinds)
  | .command _ request => inferInstanceAs (Decidable (request.Typed kinds))
  | .sweep _ => isTrue trivial

/-- The platform reads the ASCII texts and the digits it writes. -/
structure StorePlatform.Standard (P : StorePlatform) : Prop where
  utf8String_encode : ∀ text : Str, (∀ c ∈ text, c.toNat < 128) →
    P.utf8String (P.encode text) = text
  digits : ReadsDigits P.digit

theorem StorePlatform.Standard.parseLong_encode {P : StorePlatform} (h : P.Standard) {n : Int}
    (hn : isLong n = true) : parseLong P.digit (P.utf8String (P.encode (longText n))) = some n := by
  rw [h.utf8String_encode _ fun c hc => toNat_lt_of_mem_longText hc]
  exact parseLong_longText h.digits hn

/-! ## Memories that agree -/

/-- What the two stores hold under a key of some kind. -/
inductive Represents (P : StorePlatform) : Kind → Option Value → Option Value → Prop
  | missing (kind : Kind) : Represents P kind none none
  | bytes (value : ByteString) : Represents P .text (some (.bytes value)) (some (.bytes value))
  | counter {n : Int} (h : isLong n = true) :
      Represents P .text (some (.counter n)) (some (.bytes (P.encode (longText n))))
  | collection (value : Value) (h : value.kind ≠ .text) :
      Represents P value.kind (some value) (some value)
  | created {kind : Kind} (h : kind ≠ .text) : Represents P kind (some kind.new) none

/-- The memories of the modern and of the legacy store hold the same data. -/
structure Agree (P : StorePlatform) (kinds : Str → Kind) (modern legacy : Memory) : Prop where
  represents : ∀ key, Represents P (kinds key) (modern.value? key) (legacy.value? key)
  expiration?_eq : ∀ key, modern.expiration? key = legacy.expiration? key

section Agree

variable {P : StorePlatform} {kinds : Str → Kind} {key : Str}

theorem agree_empty : Agree P kinds .empty .empty :=
  ⟨fun key => .missing (kinds key), fun _ => rfl⟩

/-- A collection represents itself. -/
theorem represents_self {value : Value} (h : kinds key = value.kind) (hkind : value.kind ≠ .text) :
    Represents P (kinds key) (some value) (some value) := by
  rw [h]
  exact .collection value hkind

theorem kind_new (kind : Kind) : kind.new.kind = kind := by
  cases kind <;> rfl

theorem represents_new {kind : Kind} (h : kinds key = kind) (hkind : kind ≠ .text) :
    Represents P (kinds key) (some kind.new) (some kind.new) :=
  represents_self (by rw [h, kind_new]) (by rwa [kind_new])

theorem Agree.insert {modern legacy : Memory} (h : Agree P kinds modern legacy)
    {value value' : Value} (hvalue : Represents P (kinds key) (some value) (some value')) :
    Agree P kinds { modern with store := modern.store.insert key value }
      { legacy with store := legacy.store.insert key value' } := by
  refine ⟨fun other => ?_, h.expiration?_eq⟩
  rw [value?_insert, value?_insert]
  by_cases hother : other = key
  · rw [if_pos hother, if_pos hother, hother]
    exact hvalue
  · rw [if_neg hother, if_neg hother]
    exact h.represents other

theorem couples_put {value value' : Value}
    (hvalue : Represents P (kinds key) (some value) (some value')) :
    Couples (Agree P kinds) (put key value) (put key value') :=
  couples_modify fun _ _ h => h.insert hvalue

theorem couples_remove (key : Str) : Couples (Agree P kinds) (remove key) (remove key) := by
  apply couples_modify
  intro modern legacy h
  refine ⟨fun other => ?_, h.expiration?_eq⟩
  rw [value?_erase, value?_erase]
  by_cases hother : other = key
  · rw [if_pos hother, if_pos hother]
    exact .missing _
  · rw [if_neg hother, if_neg hother]
    exact h.represents other

theorem couples_putExpiration (key : Str) (time : Int) :
    Couples (Agree P kinds) (putExpiration key time) (putExpiration key time) := by
  apply couples_modify
  intro modern legacy h
  refine ⟨h.represents, fun other => ?_⟩
  rw [expiration?_insert, expiration?_insert, h.expiration?_eq other]

theorem couples_getExpiration (key : Str) :
    Couples (Agree P kinds) (getExpiration key) (getExpiration key) :=
  fun _ _ h => ⟨congrArg Except.ok (h.expiration?_eq key), h⟩

theorem couples_flushall : Couples (Agree P kinds) flushall flushall :=
  couples_bind (couples_modify fun _ _ _ => agree_empty) fun _ => couples_pure true

theorem couples_sweep (time : Int) :
    Couples (Agree P kinds) (modify (Memory.sweep time) : Run Unit)
      (modify (Memory.sweep time)) := by
  apply couples_modify
  intro modern legacy h
  have hexpired : ∀ key, modern.ExpiredBy time key ↔ legacy.ExpiredBy time key := by
    intro key
    rw [ExpiredBy, ExpiredBy, h.expiration?_eq key]
  refine ⟨fun key => ?_, fun key => ?_⟩
  · by_cases hpast : modern.ExpiredBy time key
    · rw [value?_sweep_of_expired hpast, value?_sweep_of_expired ((hexpired key).mp hpast)]
      exact .missing _
    · rw [value?_sweep hpast, value?_sweep (mt (hexpired key).mpr hpast)]
      exact h.represents key
  · by_cases hpast : modern.ExpiredBy time key
    · rw [expiration?_sweep_of_expired hpast,
        expiration?_sweep_of_expired ((hexpired key).mp hpast)]
    · rw [expiration?_sweep hpast, expiration?_sweep (mt (hexpired key).mpr hpast)]
      exact h.expiration?_eq key

end Agree

/-! ## Commands on collections -/

namespace Memory

variable {P : StorePlatform} {kinds : Str → Kind} {key : Str} {kind : Kind} {α β : Type}

theorem couples_cast (as : Value → Option α) (value : Value) :
    Couples (Agree P kinds) (cast as value) (cast as value) := by
  rw [cast]
  cases as value with
  | some a => exact couples_pure a
  | none => exact couples_throw _

/-- What the memories hold under the key of a collection. -/
theorem collection_cases {modern legacy : Memory} (h : Agree P kinds modern legacy)
    (hkey : kinds key = kind) (hkind : kind ≠ .text) :
    (modern.value? key = none ∧ legacy.value? key = none) ∨
      (∃ value, modern.value? key = some value ∧ legacy.value? key = some value ∧
        value.kind = kind) ∨
      (modern.value? key = some kind.new ∧ legacy.value? key = none) := by
  have hrepresents := h.represents key
  rw [hkey] at hrepresents
  generalize modern.value? key = found, legacy.value? key = found' at hrepresents ⊢
  cases hrepresents with
  | missing => exact Or.inl ⟨rfl, rfl⟩
  | bytes value => exact absurd rfl hkind
  | counter hlong => exact absurd rfl hkind
  | collection value hvalue => exact Or.inr (Or.inl ⟨value, rfl, rfl, rfl⟩)
  | created hcreated => exact Or.inr (Or.inr ⟨rfl, rfl⟩)

/-- A new collection on one side only. -/
theorem Agree.create {modern legacy : Memory} (h : Agree P kinds modern legacy)
    (hkey : kinds key = kind) (hkind : kind ≠ .text) (hlegacy : legacy.value? key = none) :
    Agree P kinds { modern with store := modern.store.insert key kind.new } legacy := by
  refine ⟨fun other => ?_, h.expiration?_eq⟩
  rw [value?_insert]
  by_cases hother : other = key
  · rw [if_pos hother, hother, hlegacy, hkey]
    exact .created hkind
  · rw [if_neg hother]
    exact h.represents other

/-- Both stores read a collection and put a new one under the key if it is
missing. -/
theorem couples_getTypedOrUpdate (as : Value → Option α) (hkey : kinds key = kind)
    (hkind : kind ≠ .text) :
    Couples (Agree P kinds) (getTypedOrUpdate as key kind.new)
      (getTypedOrUpdate as key kind.new) := by
  intro modern legacy h
  have hnew := represents_new (P := P) hkey hkind
  rcases collection_cases h hkey hkind with ⟨hm, hl⟩ | ⟨value, hm, hl, -⟩ | ⟨hm, hl⟩
  · rw [getTypedOrUpdate_of_none hm, getTypedOrUpdate_of_none hl]
    exact couples_cast as kind.new _ _ (h.insert hnew)
  · rw [getTypedOrUpdate_of_some hm, getTypedOrUpdate_of_some hl]
    exact couples_cast as value _ _ h
  · rw [getTypedOrUpdate_of_some hm, getTypedOrUpdate_of_none hl]
    apply couples_cast as kind.new
    refine ⟨fun other => ?_, h.expiration?_eq⟩
    rw [value?_insert]
    by_cases hother : other = key
    · rw [if_pos hother, hother, hm]
      exact hnew
    · rw [if_neg hother]
      exact h.represents other

/-- The legacy store does not keep the new collection. -/
theorem couples_getTypedOrElse (as : Value → Option α) (hkey : kinds key = kind)
    (hkind : kind ≠ .text) :
    Couples (Agree P kinds) (getTypedOrUpdate as key kind.new)
      (getTypedOrElse as key kind.new) := by
  intro modern legacy h
  rcases collection_cases h hkey hkind with ⟨hm, hl⟩ | ⟨value, hm, hl, -⟩ | ⟨hm, hl⟩
  · rw [getTypedOrUpdate_of_none hm, getTypedOrElse_of_none hl]
    exact couples_cast as kind.new _ _ (Agree.create h hkey hkind hl)
  · rw [getTypedOrUpdate_of_some hm, getTypedOrElse_of_some hl]
    exact couples_cast as value _ _ h
  · rw [getTypedOrUpdate_of_some hm, getTypedOrElse_of_none hl]
    exact couples_cast as kind.new _ _ h

end Memory

/-! ## Commands on texts -/

section Texts

variable {P : StorePlatform} {kinds : Str → Kind} {key : Str}

/-- What the memories hold under the key of a text. -/
theorem text_cases {modern legacy : Memory} (h : Agree P kinds modern legacy)
    (hkey : kinds key = .text) :
    (modern.value? key = none ∧ legacy.value? key = none) ∨
      (∃ value, modern.value? key = some (.bytes value) ∧
        legacy.value? key = some (.bytes value)) ∨
      (∃ n, isLong n = true ∧ modern.value? key = some (.counter n) ∧
        legacy.value? key = some (.bytes (P.encode (longText n)))) := by
  have hrepresents := h.represents key
  rw [hkey] at hrepresents
  generalize hkind : Kind.text = kind, modern.value? key = found, legacy.value? key = found'
    at hrepresents ⊢
  cases hrepresents with
  | missing => exact Or.inl ⟨rfl, rfl⟩
  | bytes value => exact Or.inr (Or.inl ⟨value, rfl, rfl⟩)
  | counter hlong => exact Or.inr (Or.inr ⟨_, hlong, rfl, rfl⟩)
  | collection value hvalue => exact absurd hkind.symm hvalue
  | created hcreated => exact absurd hkind.symm hcreated

theorem couples_get (hkey : kinds key = .text) :
    Couples (Agree P kinds) (ModernSwappableInMemoryRedis.get P key)
      (SwappableInMemoryRedis.get key) := by
  intro modern legacy h
  rw [ModernSwappableInMemoryRedis.get]
  rcases text_cases h hkey with ⟨hm, hl⟩ | ⟨value, hm, hl⟩ | ⟨n, -, hm, hl⟩
  · rw [bind_of_ok (get_eq hm), SwappableInMemoryRedis.get_of_none hl]
    exact ⟨rfl, h⟩
  · rw [bind_of_ok (get_eq hm), SwappableInMemoryRedis.get_of_bytes hl]
    exact ⟨rfl, h⟩
  · rw [bind_of_ok (get_eq hm), SwappableInMemoryRedis.get_of_bytes hl]
    exact ⟨rfl, h⟩

theorem couples_mget {keys : List Str} (hkeys : ∀ key ∈ keys, kinds key = .text) :
    Couples (Agree P kinds) (ModernSwappableInMemoryRedis.mget P keys)
      (SwappableInMemoryRedis.mget keys) := by
  induction keys with
  | nil => exact couples_pure []
  | cons key keys ih =>
      rw [List.forall_mem_cons] at hkeys
      apply couples_bind (couples_get hkeys.1)
      intro value
      exact couples_bind (ih hkeys.2) fun _ => couples_pure _

/-- A counter is a number in one store and the text of that number in the other. -/
theorem couples_putCounter (hkey : kinds key = .text) {n : Int} (hn : isLong n = true) :
    Couples (Agree P kinds) (do put key (.counter n); pure n)
      (do put key (.bytes (P.encode (longText n))); pure n) := by
  have hcounter : Represents P (kinds key) (some (.counter n))
      (some (.bytes (P.encode (longText n)))) := by
    rw [hkey]
    exact .counter hn
  exact couples_bind (couples_put hcounter) fun _ => couples_pure n

theorem couples_toLong (bs : ByteString) :
    Couples (Agree P kinds) (toLong P bs) (toLong P bs) := by
  rw [toLong]
  cases parseLong P.digit (P.utf8String bs) with
  | some n => exact couples_pure n
  | none => exact couples_throw _

theorem couples_incrby (hP : P.Standard) (hkey : kinds key = .text) {increment : Int}
    (hincrement : isLong increment = true) :
    Couples (Agree P kinds) (ModernSwappableInMemoryRedis.incrby P key increment)
      (SwappableInMemoryRedis.incrby P key increment) := by
  intro modern legacy h
  rw [ModernSwappableInMemoryRedis.incrby, SwappableInMemoryRedis.incrby]
  have hwritten : ∀ n, Couples (Agree P kinds)
      (do put key (.counter (wrapLong (n + increment))); pure (wrapLong (n + increment)))
      (do
        put key (.bytes (P.encode (longText (wrapLong (n + increment)))))
        pure (wrapLong (n + increment))) :=
    fun n => couples_putCounter hkey (isLong_wrapLong _)
  rcases text_cases h hkey with ⟨hm, hl⟩ | ⟨value, hm, hl⟩ | ⟨n, hn, hm, hl⟩
  · rw [bind_of_ok (get_eq hm), bind_of_ok (SwappableInMemoryRedis.get_of_none hl)]
    have hzero : wrapLong (0 + increment) = increment := by
      rw [zero_add, wrapLong_of_isLong hincrement]
    have hread : SwappableInMemoryRedis.counterOf P none legacy = (.ok 0, legacy) := rfl
    rw [bind_of_ok hread, hzero]
    exact couples_putCounter hkey hincrement modern legacy h
  · rw [bind_of_ok (get_eq hm), bind_of_ok (SwappableInMemoryRedis.get_of_bytes hl)]
    exact couples_bind (couples_toLong value) hwritten _ _ h
  · rw [bind_of_ok (get_eq hm), bind_of_ok (SwappableInMemoryRedis.get_of_bytes hl)]
    have hread : SwappableInMemoryRedis.counterOf P (some (P.encode (longText n))) legacy =
        (.ok n, legacy) := by
      rw [SwappableInMemoryRedis.counterOf, toLong, hP.parseLong_encode hn]
      rfl
    rw [bind_of_ok hread]
    exact hwritten n modern legacy h

end Texts

/-! ## Commands that both classes share -/

section Shared

variable {P : StorePlatform} {kinds : Str → Kind} {key : Str} {α β : Type}

/-- Turning an answer into a reply. -/
theorem couples_reply {program other : Run α} (h : Couples (Agree P kinds) program other)
    (reply : α → β) :
    Couples (Agree P kinds) (do pure (reply (← program))) (do pure (reply (← other))) :=
  couples_bind h fun a => couples_pure (reply a)

theorem couples_expire (now : Int) (key : Str) (seconds : Int) :
    Couples (Agree P kinds) (expire now key seconds) (expire now key seconds) :=
  couples_bind (couples_putExpiration key _) fun _ => couples_pure true

theorem couples_pexpire (now : Int) (key : Str) (milliseconds : Int) :
    Couples (Agree P kinds) (pexpire now key milliseconds) (pexpire now key milliseconds) :=
  couples_bind (couples_putExpiration key _) fun _ => couples_pure true

theorem couples_ifDefined (duration : Option Int) {command : Int → Run Bool}
    (h : ∀ given, Couples (Agree P kinds) (command given) (command given)) :
    Couples (Agree P kinds) (ifDefined duration command) (ifDefined duration command) := by
  cases duration with
  | some given => exact couples_bind (h given) fun _ => couples_pure ()
  | none => exact couples_pure ()

theorem couples_setBS (hkey : kinds key = .text) (now : Int) (value : ByteString)
    (exSeconds pxMilliseconds : Option Int) :
    Couples (Agree P kinds) (setBS now key value exSeconds pxMilliseconds)
      (setBS now key value exSeconds pxMilliseconds) := by
  have hvalue : Represents P (kinds key) (some (.bytes value)) (some (.bytes value)) := by
    rw [hkey]
    exact .bytes value
  apply couples_bind (couples_put hvalue)
  intro _
  apply couples_bind (couples_ifDefined exSeconds fun _ => couples_expire now key _)
  intro _
  apply couples_bind (couples_ifDefined pxMilliseconds fun _ => couples_pexpire now key _)
  intro _
  exact couples_pure true

theorem couples_removeAll (keys : List Str) :
    Couples (Agree P kinds) (removeAll keys) (removeAll keys) := by
  induction keys with
  | nil => exact couples_pure ()
  | cons key keys ih => exact couples_bind (couples_remove key) fun _ => ih

theorem couples_pttl (now : Int) (key : Str) :
    Couples (Agree P kinds) (pttl now key) (pttl now key) := by
  apply couples_bind (couples_getExpiration key)
  intro found
  cases found with
  | some expiration => exact couples_pure _
  | none => exact couples_pure _

/-- A command that reads a collection, puts one back and answers. -/
theorem couples_updating_put {kind : Kind} (as : Value → Option α) (hkey : kinds key = kind)
    (hkind : kind ≠ .text) (written : α → Value) (hwritten : ∀ a, (written a).kind = kind)
    (answer : α → β) :
    Couples (Agree P kinds)
      (do
        let a ← getTypedOrUpdate as key kind.new
        put key (written a)
        pure (answer a))
      (do
        let a ← getTypedOrUpdate as key kind.new
        put key (written a)
        pure (answer a)) := by
  apply couples_bind (couples_getTypedOrUpdate as hkey hkind)
  intro a
  have hput : Represents P (kinds key) (some (written a)) (some (written a)) :=
    represents_self (by rw [hkey, hwritten]) (by rwa [hwritten])
  exact couples_bind (couples_put hput) fun _ => couples_pure _

theorem couples_hsetBS (hkey : kinds key = .hash) (field : Str) (value : ByteString) :
    Couples (Agree P kinds) (ModernSwappableInMemoryRedis.hsetBS key field value)
      (SwappableInMemoryRedis.hsetBS key field value) := by
  apply couples_bind (couples_getTypedOrElse Value.asHash hkey (by decide))
  intro hash
  have hput : ∀ fields, Represents P (kinds key) (some (.hash fields)) (some (.hash fields)) :=
    fun fields => represents_self hkey nofun
  exact couples_bind (couples_put (hput _)) fun _ => couples_pure true

/-- The fields of a missing hash are removed from a new one, which only the modern
store keeps. -/
theorem couples_hdel (hkey : kinds key = .hash) (fields : List Str) :
    Couples (Agree P kinds) (ModernSwappableInMemoryRedis.hdel key fields)
      (SwappableInMemoryRedis.hdel key fields) := by
  intro modern legacy h
  have hexists : existsKey key legacy = (.ok (legacy.value? key).isSome, legacy) := rfl
  have hput : ∀ fields, Represents P (kinds key) (some (.hash fields)) (some (.hash fields)) :=
    fun fields => represents_self hkey nofun
  rw [ModernSwappableInMemoryRedis.hdel, SwappableInMemoryRedis.hdel, bind_of_ok hexists]
  cases hl : legacy.value? key with
  | some value =>
      apply couples_bind (couples_getTypedOrElse Value.asHash hkey (by decide)) _ _ _ h
      intro hash
      exact couples_bind (couples_put (hput _)) fun _ => couples_pure _
  | none =>
      obtain ⟨hresult, hafter⟩ :=
        couples_getTypedOrElse Value.asHash hkey (by decide) modern legacy h
      have hread : getTypedOrElse Value.asHash key Kind.hash.new legacy = (.ok ∅, legacy) := by
        rw [getTypedOrElse_of_none hl]
        rfl
      rcases hrun : getTypedOrUpdate Value.asHash key Kind.hash.new modern with ⟨result, after⟩
      rw [hrun, hread] at hresult hafter
      subst hresult
      simp only [Kind.new] at hrun hread
      rw [bind_of_ok hrun, bind_of_ok hread, removeFields_empty]
      exact ⟨rfl, Agree.create hafter hkey (by decide) hl⟩

end Shared

/-! ## Commands that may be answered differently -/

/-- Nothing that only the modern store holds, nor a list that only it can measure,
is seen by the command. -/
def Command.Alike (P : StorePlatform) (modern legacy : Memory) : Command → Prop
  | .llen key => legacy.value? key = none
  | .exists key => modern.value? key ≠ none → legacy.value? key ≠ none
  | .keys pattern => ∀ compiled,
      P.compile (replaceChar pattern '*' ".*".toList) = some compiled →
        ∀ key, P.finds compiled key = true →
          modern.value? key ≠ none → legacy.value? key ≠ none
  | _ => True

def StoreEvent.Alike (P : StorePlatform) (modern legacy : Memory) : StoreEvent → Prop
  | .command _ request => request.Alike P modern legacy
  | .sweep _ => True

section Steps

variable {P : StorePlatform} {kinds : Str → Kind} {key : Str} {α β : Type}
  {modern legacy : Memory}

/-- The programs leave the memories in agreement, and answer the same in some
cases. -/
def Step (P : StorePlatform) (kinds : Str → Kind) (modern legacy : Memory)
    (program other : Run α) (alike : Prop) : Prop :=
  Agree P kinds (program modern).2 (other legacy).2 ∧
    ((program modern).1 = (other legacy).1 ↔ alike)

theorem step_of_couples {program other : Run α} (h : Couples (Agree P kinds) program other)
    (hagree : Agree P kinds modern legacy) : Step P kinds modern legacy program other True :=
  ⟨(h modern legacy hagree).2, iff_true_intro (h modern legacy hagree).1⟩

theorem step_reply {program other : Run α} {alike : Prop} {reply : α → β}
    (hreply : Function.Injective reply) (h : Step P kinds modern legacy program other alike) :
    Step P kinds modern legacy (do pure (reply (← program))) (do pure (reply (← other))) alike := by
  rw [Step, bind_pure_apply, bind_pure_apply, (map_injective hreply).eq_iff]
  exact h

/-- What the legacy store holds, the modern one holds. -/
theorem Agree.present (h : Agree P kinds modern legacy) (key : Str)
    (hlegacy : legacy.value? key ≠ none) : modern.value? key ≠ none := by
  have hrepresents := h.represents key
  generalize kinds key = kind, modern.value? key = found, legacy.value? key = found'
    at hrepresents hlegacy ⊢
  cases hrepresents with
  | missing => exact hlegacy
  | bytes value => exact Option.some_ne_none _
  | counter hlong => exact Option.some_ne_none _
  | collection value hvalue => exact Option.some_ne_none _
  | created hcreated => exact Option.some_ne_none _

/-- The legacy store cannot read the length of a list it holds. -/
theorem step_llen (hkey : kinds key = .list) (hagree : Agree P kinds modern legacy) :
    Step P kinds modern legacy (ModernSwappableInMemoryRedis.llen key)
      (SwappableInMemoryRedis.llen key) (legacy.value? key = none) := by
  obtain ⟨-, hafter⟩ :=
    couples_getTypedOrElse Value.asList hkey (by decide) modern legacy hagree
  have hmodern := bind_pure_apply (getTypedOrUpdate Value.asList key (.list []))
    (fun seq => (seq.length : Int)) modern
  rw [Step, ModernSwappableInMemoryRedis.llen, SwappableInMemoryRedis.llen, hmodern,
    bind_of_ok (get_eq rfl)]
  rcases collection_cases hagree hkey (by decide) with ⟨hm, hl⟩ | ⟨value, hm, hl, hkind⟩ | ⟨hm, hl⟩
  · rw [getTypedOrUpdate_of_none hm] at hafter ⊢
    rw [getTypedOrElse_of_none hl] at hafter
    rw [hl]
    exact ⟨hafter, iff_of_true rfl rfl⟩
  · rw [getTypedOrUpdate_of_some hm, hl]
    cases value with
    | list elements => exact ⟨hagree, iff_of_false nofun nofun⟩
    | bytes bs => cases hkind
    | counter n => cases hkind
    | hash fields => cases hkind
    | set members => cases hkind
  · rw [getTypedOrUpdate_of_some hm, hl]
    exact ⟨hagree, iff_of_true rfl rfl⟩

theorem step_existsKey (key : Str) (hagree : Agree P kinds modern legacy) :
    Step P kinds modern legacy (existsKey key) (existsKey key)
      (modern.value? key ≠ none → legacy.value? key ≠ none) := by
  refine ⟨hagree, ?_⟩
  have hanswer : ∀ memory, (existsKey key memory).1 = .ok (memory.value? key).isSome := fun _ => rfl
  rw [hanswer, hanswer, Except.ok.injEq, Bool.eq_iff_iff, Option.isSome_iff_ne_none,
    Option.isSome_iff_ne_none]
  exact ⟨fun h => h.mp, fun h => ⟨h, hagree.present key⟩⟩

theorem step_keys (pattern : Str) (hagree : Agree P kinds modern legacy) :
    Step P kinds modern legacy (RedisLike.keys P pattern) (RedisLike.keys P pattern)
      ((Command.keys pattern).Alike P modern legacy) := by
  rw [RedisLike.keys, Step, Command.Alike]
  cases hcompile : P.compile (replaceChar pattern '*' ".*".toList) with
  | none =>
      refine ⟨hagree, iff_of_true rfl ?_⟩
      intro found hfound
      cases hfound
  | some compiled =>
      refine ⟨hagree, ?_⟩
      have hmem : ∀ (memory : Memory) key,
          key ∈ (memory.store.keys.filter (P.finds compiled)).toFinset ↔
            memory.value? key ≠ none ∧ P.finds compiled key = true := by
        intro memory key
        rw [List.mem_toFinset, List.mem_filter, ← AList.mem_keys, ← AList.lookup_isSome,
          Option.isSome_iff_ne_none, value?]
      have hanswer : ∀ memory : Memory,
          ((do
            let memory ← Stateful.get
            pure (memory.store.keys.filter (P.finds compiled)).toFinset : Run _) memory).1 =
              .ok (memory.store.keys.filter (P.finds compiled)).toFinset := fun _ => rfl
      rw [hanswer, hanswer, Except.ok.injEq, Finset.ext_iff]
      simp only [hmem]
      constructor
      · intro h found hfound key hfinds hm
        cases hfound
        exact ((h key).mp ⟨hm, hfinds⟩).1
      · intro h key
        constructor
        · rintro ⟨hm, hfinds⟩
          exact ⟨h compiled rfl key hfinds hm, hfinds⟩
        · rintro ⟨hl, hfinds⟩
          exact ⟨hagree.present key hl, hfinds⟩

end Steps

/-! ## Runs -/

section Runs

variable {P : StorePlatform} {kinds : Str → Kind} {modern legacy : Memory}

/-- Every command keeps the memories in agreement, and is answered alike exactly in
the cases that `Alike` names. -/
theorem step_exec (hP : P.Standard) (now : Int) {request : Command} (htyped : request.Typed kinds)
    (h : Agree P kinds modern legacy) :
    Step P kinds modern legacy (Implementation.modern.exec P now request)
      (Implementation.legacy.exec P now request) (request.Alike P modern legacy) := by
  cases request with
  | llen key => exact step_reply (fun _ _ => Reply.long.inj) (step_llen htyped h)
  | «exists» key => exact step_reply (fun _ _ => Reply.bool.inj) (step_existsKey key h)
  | keys pattern => exact step_reply (fun _ _ => Reply.keys.inj) (step_keys pattern h)
  | flushall => exact step_of_couples (couples_reply couples_flushall _) h
  | get key => exact step_of_couples (couples_reply (couples_get htyped) _) h
  | set key value ex px =>
      exact step_of_couples (couples_reply (couples_setBS htyped now value ex px) _) h
  | del keys =>
      have hdel : Couples (Agree P kinds) (del keys) (del keys) :=
        couples_bind (couples_removeAll keys) fun _ => couples_pure (keys.length : Int)
      exact step_of_couples (couples_reply hdel _) h
  | incrby key increment =>
      exact step_of_couples (couples_reply (couples_incrby hP htyped.1 htyped.2) _) h
  | mget keys => exact step_of_couples (couples_reply (couples_mget htyped) _) h
  | hdel key fields => exact step_of_couples (couples_reply (couples_hdel htyped fields) _) h
  | hgetall key =>
      exact step_of_couples (couples_reply
        (couples_getTypedOrElse Value.asHash htyped (by decide)) _) h
  | hset key field value =>
      exact step_of_couples (couples_reply (couples_hsetBS htyped field value) _) h
  | lpush key values =>
      exact step_of_couples (couples_reply (couples_updating_put Value.asList htyped (by decide) _
        (fun _ => rfl) _) _) h
  | lrange key start stop =>
      exact step_of_couples (couples_reply (couples_reply
        (couples_getTypedOrElse Value.asList htyped (by decide)) _) _) h
  | ltrim key start stop =>
      exact step_of_couples (couples_reply (couples_updating_put Value.asList htyped (by decide) _
        (fun _ => rfl) _) _) h
  | pttl key => exact step_of_couples (couples_reply (couples_pttl now key) _) h
  | ttl key => exact step_of_couples (couples_reply (couples_reply (couples_pttl now key) _) _) h
  | expire key seconds => exact step_of_couples (couples_reply (couples_expire now key seconds) _) h
  | pexpire key milliseconds =>
      exact step_of_couples (couples_reply (couples_pexpire now key milliseconds) _) h
  | sadd key members =>
      exact step_of_couples (couples_reply (couples_updating_put Value.asSet htyped (by decide) _
        (fun _ => rfl) _) _) h
  | sismember key member =>
      exact step_of_couples (couples_reply (couples_reply
        (couples_getTypedOrElse Value.asSet htyped (by decide)) _) _) h
  | smembers key =>
      exact step_of_couples (couples_reply
        (couples_getTypedOrElse Value.asSet htyped (by decide)) _) h
  | srem key members =>
      exact step_of_couples (couples_reply (couples_updating_put Value.asSet htyped (by decide) _
        (fun _ => rfl) _) _) h
  | scard key =>
      exact step_of_couples (couples_reply (couples_reply
        (couples_getTypedOrUpdate Value.asSet htyped (by decide)) _) _) h

namespace StoreEvent

theorem step_run (hP : P.Standard) {event : StoreEvent} (htyped : event.Typed kinds)
    (h : Agree P kinds modern legacy) :
    Step P kinds modern legacy (event.run P .modern) (event.run P .legacy)
      (event.Alike P modern legacy) := by
  cases event with
  | command now request =>
      exact step_reply (Option.some_injective _) (step_exec hP now htyped h)
  | sweep now =>
      exact step_of_couples (couples_bind (couples_sweep now) fun _ => couples_pure none) h

/-- What the events of a run are answered with, or what they throw. -/
def replies (P : StorePlatform) (impl : Implementation) :
    Memory → List StoreEvent → List (Except StoreException (Option Reply))
  | _, [] => []
  | memory, event :: rest =>
      (event.run P impl memory).1 :: replies P impl (event.run P impl memory).2 rest

/-- An event happens to both stores. -/
def runBoth (P : StorePlatform) (event : StoreEvent) (memories : Memory × Memory) :
    Memory × Memory :=
  ((event.run P .modern memories.1).2, (event.run P .legacy memories.2).2)

/-- No event of the run is answered differently. -/
def AlikeRun (P : StorePlatform) : Memory × Memory → List StoreEvent → Prop :=
  Along (runBoth P) fun memories event _ => event.Alike P memories.1 memories.2

theorem replies_eq_iff_of_agree (hP : P.Standard) {events : List StoreEvent}
    (htyped : ∀ event ∈ events, event.Typed kinds) (h : Agree P kinds modern legacy) :
    replies P .modern modern events = replies P .legacy legacy events ↔
      AlikeRun P (modern, legacy) events := by
  induction events generalizing modern legacy with
  | nil => exact iff_of_true rfl trivial
  | cons event rest ih =>
      rw [List.forall_mem_cons] at htyped
      obtain ⟨hagree, hanswer⟩ := step_run hP htyped.1 h
      rw [replies, replies, List.cons.injEq, hanswer, ih htyped.2 hagree]
      rfl

/-- When every key is used for one kind of data, the two stores answer a run from
the empty memory in the same way, exceptions included, if and only if no event of
it asks for the length of a list that is there, or whether a key is there that only
a read of the modern store has created. -/
theorem replies_eq_iff (P : StorePlatform) (hP : P.Standard) (kinds : Str → Kind)
    (events : List StoreEvent) (htyped : ∀ event ∈ events, event.Typed kinds) :
    replies P .modern .empty events = replies P .legacy .empty events ↔
      AlikeRun P (.empty, .empty) events :=
  replies_eq_iff_of_agree hP htyped agree_empty

theorem starStorePlatform_standard : starStorePlatform.Standard where
  utf8String_encode := by
    intro text htext
    have hread : ∀ c ∈ text, Char.ofNat (UInt8.ofNat c.toNat).toNat = c := by
      intro c hc
      have hsmall : c.toNat % 2 ^ 8 = c.toNat := by
        have hascii := htext c hc
        omega
      rw [UInt8.toNat_ofNat', hsmall, Char.ofNat_toNat]
    calc
      (text.map fun c => UInt8.ofNat c.toNat).map (fun byte => Char.ofNat byte.toNat)
          = text.map fun c => Char.ofNat (UInt8.ofNat c.toNat).toNat := List.map_map
      _ = text.map id := List.map_congr_left hread
      _ = text := List.map_id text
  digits := by
    show ∀ d < 10, starStorePlatform.digit (Nat.digitChar d) = some d
    decide

/-- A counter, a hash and a list, each under a key of its own. -/
def exampleKinds (key : Str) : Kind :=
  if key = "counter".toList then .text else if key = "hash".toList then .hash else .list

theorem replies_eq_of_example :
    replies starStorePlatform .modern .empty
        [.command 0 (.incrby "counter".toList 5), .command 1 (.get "counter".toList),
          .command 2 (.hgetall "hash".toList), .command 3 (.hset "hash".toList "f".toList [1]),
          .command 4 (.exists "hash".toList), .command 5 (.llen "list".toList), .sweep 6] =
      replies starStorePlatform .legacy .empty
        [.command 0 (.incrby "counter".toList 5), .command 1 (.get "counter".toList),
          .command 2 (.hgetall "hash".toList), .command 3 (.hset "hash".toList "f".toList [1]),
          .command 4 (.exists "hash".toList), .command 5 (.llen "list".toList), .sweep 6] := by
  apply (replies_eq_iff starStorePlatform starStorePlatform_standard exampleKinds _ _).mpr
  · exact ⟨trivial, trivial, trivial, trivial, fun _ => Option.some_ne_none _, rfl, trivial,
      trivial⟩
  · decide

/-- After a push the legacy store throws for the length of the list. -/
theorem exists_replies_ne :
    ¬ ∀ (P : StorePlatform) (kinds : Str → Kind) (events : List StoreEvent), P.Standard →
      (∀ event ∈ events, event.Typed kinds) →
      replies P .modern .empty events = replies P .legacy .empty events := by
  intro h
  have hsame := h starStorePlatform exampleKinds
    [.command 0 (.lpush "list".toList [[1]]), .command 1 (.llen "list".toList)]
    starStorePlatform_standard (by decide)
  injection hsame with _ hsame
  injection hsame with hlength
  cases hlength

end StoreEvent

end Runs

end Otoroshi
