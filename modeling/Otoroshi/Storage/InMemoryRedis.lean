/-
# The two in-memory stores

The process keeps its data in one of two classes with the same commands: the
modern one, where counters are numbers of their own and reading a collection
creates it, and the legacy one, where every value but a collection is text.

A command that both classes write the same way is defined once. Where they
differ, each class has its own definition in its own namespace, and `exec` runs
a command on one of them.
-/

import Mathlib.Data.Finset.Card
import Otoroshi.Storage.Memory

namespace Otoroshi

open Memory

/-- What a command answers. -/
inductive Reply
  | bool (answer : Bool)
  | long (answer : Int)
  | bytes (answer : Option ByteString)
  | many (answer : List (Option ByteString))
  | elements (answer : List ByteString)
  | keys (answer : Finset Str)
  | members (answer : Finset ByteString)
  | fields (answer : Fields)

/-- The commands of `RedisLike` that touch the memory. `incr` is `incrby` with
one, and the commands over strings encode them first. -/
inductive Command
  | flushall
  | get (key : Str)
  | set (key : Str) (value : ByteString) (exSeconds pxMilliseconds : Option Int)
  | del (keys : List Str)
  | incrby (key : Str) (increment : Int)
  | exists (key : Str)
  | mget (keys : List Str)
  | keys (pattern : Str)
  | hdel (key : Str) (fields : List Str)
  | hgetall (key : Str)
  | hset (key field : Str) (value : ByteString)
  | llen (key : Str)
  | lpush (key : Str) (values : List ByteString)
  | lrange (key : Str) (start stop : Int)
  | ltrim (key : Str) (start stop : Int)
  | pttl (key : Str)
  | ttl (key : Str)
  | expire (key : Str) (seconds : Int)
  | pexpire (key : Str) (milliseconds : Int)
  | sadd (key : Str) (members : List ByteString)
  | sismember (key : Str) (member : ByteString)
  | smembers (key : Str)
  | srem (key : Str) (members : List ByteString)
  | scard (key : Str)

/-! ## Commands that both classes write the same way -/

namespace SwappableInMemoryRedis

/-- `listRange`: the slice that the arguments of a range command designate. -/
def listRange (size start stop : Int) : Int × Int :=
  let first := max (if start < 0 then wrapLong (size + start) else start) 0
  let last := min (if stop < 0 then wrapLong (wrapLong (size + stop) + 1) else wrapLong (stop + 1))
    size
  (longToInt (min first size), longToInt (max last first))

/-- `slice`. -/
def slice (range : Int × Int) (elements : List ByteString) : List ByteString :=
  (elements.take range.2.toNat).drop range.1.toNat

end SwappableInMemoryRedis

open SwappableInMemoryRedis

namespace RedisLike

def flushall : Run Bool := do
  Stateful.modify fun _ => Memory.empty
  pure true

def expire (now : Int) (key : Str) (seconds : Int) : Run Bool := do
  putExpiration key (wrapLong (now + wrapLong (seconds * 1000)))
  pure true

def pexpire (now : Int) (key : Str) (milliseconds : Int) : Run Bool := do
  putExpiration key (wrapLong (now + milliseconds))
  pure true

/-- Run a command with a duration that may be given. -/
def ifDefined (duration : Option Int) (command : Int → Run Bool) : Run Unit :=
  match duration with
  | some given => do
      let _ ← command given
      pure ()
  | none => pure ()

/-- The value is put first, whatever was there, and then the expirations that
are given. -/
def setBS (now : Int) (key : Str) (value : ByteString)
    (exSeconds pxMilliseconds : Option Int) : Run Bool := do
  put key (.bytes value)
  ifDefined exSeconds fun seconds => expire now key (longToInt seconds)
  ifDefined pxMilliseconds fun milliseconds => pexpire now key milliseconds
  pure true

def removeAll : List Str → Run Unit
  | [] => pure ()
  | key :: keys => do
      remove key
      removeAll keys

/-- Every key that was asked for is counted, whether it was there or not. -/
def del (keys : List Str) : Run Int := do
  removeAll keys
  pure keys.length

def existsKey (key : Str) : Run Bool := do
  let value ← get key
  pure value.isSome

/-- The keys in which the pattern is found. -/
def keys (P : StorePlatform) (pattern : Str) : Run (Finset Str) :=
  match P.compile (replaceChar pattern '*' ".*".toList) with
  | none => Stateful.throw (.patternSyntax (replaceChar pattern '*' ".*".toList))
  | some compiled => do
      let memory ← Stateful.get
      pure (memory.store.keys.filter (P.finds compiled)).toFinset

def pttl (now : Int) (key : Str) : Run Int := do
  match ← getExpiration key with
  | some expiration =>
      pure (if wrapLong (expiration - now) < 0 then -1 else wrapLong (expiration - now))
  | none => pure (-1)

def ttl (now : Int) (key : Str) : Run Int := do
  let milliseconds ← pttl now key
  pure (if milliseconds = -1 then -1 else milliseconds.tdiv 1000)

/-- Each value goes to the head in turn. -/
def lpushBS (key : Str) (values : List ByteString) : Run Int := do
  let seq ← getTypedOrUpdate Value.asList key (.list [])
  put key (.list (values.reverse ++ seq))
  pure values.length

def ltrim (key : Str) (start stop : Int) : Run Bool := do
  let seq ← getTypedOrUpdate Value.asList key (.list [])
  put key (.list (slice (listRange seq.length start stop) seq))
  pure true

def saddBS (key : Str) (members : List ByteString) : Run Int := do
  let seq ← getTypedOrUpdate Value.asSet key (.set ∅)
  put key (.set (seq ∪ members.toFinset))
  pure members.length

def sremBS (key : Str) (members : List ByteString) : Run Int := do
  let seq ← getTypedOrUpdate Value.asSet key (.set ∅)
  put key (.set (seq \ members.toFinset))
  pure members.length

def scard (key : Str) : Run Int := do
  let seq ← getTypedOrUpdate Value.asSet key (.set ∅)
  pure seq.card

/-- `utf8String.toLong`. -/
def toLong (P : StorePlatform) (bs : ByteString) : Run Int :=
  match parseLong P.digit (P.utf8String bs) with
  | some n => pure n
  | none => Stateful.throw .numberFormat

/-- Remove fields from a hash. The removed fields are mapped to ones in a set
before they are added up, so that the answer is one for any number of them. -/
def removeFields (hash : Fields) (fields : List Str) : Int × Fields :=
  (if hash.keys.any fields.contains then 1 else 0,
    fields.foldl (fun hash field => hash.erase field) hash)

theorem removeFields_empty (fields : List Str) : removeFields ∅ fields = (0, ∅) := by
  have hfold : fields.foldl (fun (hash : Fields) field => hash.erase field) ∅ = ∅ := by
    induction fields with
    | nil => rfl
    | cons field fields ih => exact ih
  rw [removeFields, hfold]
  rfl

end RedisLike

open RedisLike

/-! ## The modern store -/

namespace ModernSwappableInMemoryRedis

def get (P : StorePlatform) (key : Str) : Run (Option ByteString) := do
  match ← Memory.get key with
  | some (.bytes bs) => pure (some bs)
  | some (.counter n) => pure (some (P.encode (longText n)))
  | _ => pure none

/-- Text that is no number throws; a collection is replaced. -/
def incrby (P : StorePlatform) (key : Str) (increment : Int) : Run Int := do
  match ← Memory.get key with
  | some (.bytes bs) => do
      let n ← toLong P bs
      put key (.counter (wrapLong (n + increment)))
      pure (wrapLong (n + increment))
  | some (.counter n) => do
      put key (.counter (wrapLong (n + increment)))
      pure (wrapLong (n + increment))
  | _ => do
      put key (.counter increment)
      pure increment

def mget (P : StorePlatform) : List Str → Run (List (Option ByteString))
  | [] => pure []
  | key :: keys => do
      let value ← get P key
      let rest ← mget P keys
      pure (value :: rest)

def hdel (key : Str) (fields : List Str) : Run Int := do
  let hash ← getTypedOrUpdate Value.asHash key (.hash ∅)
  put key (.hash (removeFields hash fields).2)
  pure (removeFields hash fields).1

def hgetall (key : Str) : Run Fields := getTypedOrUpdate Value.asHash key (.hash ∅)

def hsetBS (key field : Str) (value : ByteString) : Run Bool := do
  let hash ← getTypedOrUpdate Value.asHash key (.hash ∅)
  put key (.hash (hash.insert field value))
  pure true

def llen (key : Str) : Run Int := do
  let seq ← getTypedOrUpdate Value.asList key (.list [])
  pure seq.length

def lrange (key : Str) (start stop : Int) : Run (List ByteString) := do
  let seq ← getTypedOrUpdate Value.asList key (.list [])
  pure (slice (listRange seq.length start stop) seq)

def sismemberBS (key : Str) (member : ByteString) : Run Bool := do
  let seq ← getTypedOrUpdate Value.asSet key (.set ∅)
  pure (member ∈ seq)

def smembers (key : Str) : Run (Finset ByteString) := getTypedOrUpdate Value.asSet key (.set ∅)

end ModernSwappableInMemoryRedis

/-! ## The legacy store -/

namespace SwappableInMemoryRedis

def get (key : Str) : Run (Option ByteString) := do
  match ← Memory.get key with
  | some value => do
      let bs ← cast Value.asBytes value
      pure (some bs)
  | none => pure none

theorem get_of_bytes {key : Str} {memory : Memory} {bs : ByteString}
    (h : memory.value? key = some (.bytes bs)) : get key memory = (.ok (some bs), memory) := by
  rw [get, Stateful.bind_of_ok (get_eq h)]
  rfl

theorem get_of_none {key : Str} {memory : Memory} (h : memory.value? key = none) :
    get key memory = (.ok none, memory) := by
  rw [get, Stateful.bind_of_ok (get_eq h)]
  rfl

/-- The number a text stands for; a key without value stands for zero. -/
def counterOf (P : StorePlatform) : Option ByteString → Run Int
  | some bs => toLong P bs
  | none => pure 0

def incrby (P : StorePlatform) (key : Str) (increment : Int) : Run Int := do
  let bs ← get key
  let value ← counterOf P bs
  put key (.bytes (P.encode (longText (wrapLong (value + increment)))))
  pure (wrapLong (value + increment))

def mget : List Str → Run (List (Option ByteString))
  | [] => pure []
  | key :: keys => do
      let value ← get key
      let rest ← mget keys
      pure (value :: rest)

/-- The fields of a hash that is not in the store are removed from a new one,
which is not kept. -/
def hdel (key : Str) (fields : List Str) : Run Int := do
  let present ← existsKey key
  let hash ← getTypedOrElse Value.asHash key (.hash ∅)
  if present then put key (.hash (removeFields hash fields).2) else pure ()
  pure (removeFields hash fields).1

def hgetall (key : Str) : Run Fields := getTypedOrElse Value.asHash key (.hash ∅)

def hsetBS (key field : Str) (value : ByteString) : Run Bool := do
  let hash ← getTypedOrElse Value.asHash key (.hash ∅)
  put key (.hash (hash.insert field value))
  pure true

/-- The value is cast to an immutable sequence. The lists of this store are
none; the bytes of a text are. -/
def asSeqLength : Value → Option Int
  | .bytes bs => some bs.length
  | _ => none

def llen (key : Str) : Run Int := do
  match ← Memory.get key with
  | some value => cast asSeqLength value
  | none => pure 0

def lrange (key : Str) (start stop : Int) : Run (List ByteString) := do
  let seq ← getTypedOrElse Value.asList key (.list [])
  pure (slice (listRange seq.length start stop) seq)

def sismemberBS (key : Str) (member : ByteString) : Run Bool := do
  let seq ← getTypedOrElse Value.asSet key (.set ∅)
  pure (member ∈ seq)

def smembers (key : Str) : Run (Finset ByteString) := getTypedOrElse Value.asSet key (.set ∅)

end SwappableInMemoryRedis

/-! ## Running commands -/

/-- The class behind the store. -/
inductive Implementation
  | modern
  | legacy
  deriving DecidableEq

namespace Implementation

variable (P : StorePlatform)

/-- Run a command at a time. -/
def exec : Implementation → Int → Command → Run Reply
  | _, _, .flushall => do pure (.bool (← flushall))
  | .modern, _, .get key => do pure (.bytes (← ModernSwappableInMemoryRedis.get P key))
  | .legacy, _, .get key => do pure (.bytes (← SwappableInMemoryRedis.get key))
  | _, now, .set key value ex px => do pure (.bool (← setBS now key value ex px))
  | _, _, .del keys => do pure (.long (← del keys))
  | .modern, _, .incrby key n => do pure (.long (← ModernSwappableInMemoryRedis.incrby P key n))
  | .legacy, _, .incrby key n => do pure (.long (← SwappableInMemoryRedis.incrby P key n))
  | _, _, .exists key => do pure (.bool (← existsKey key))
  | .modern, _, .mget keys => do pure (.many (← ModernSwappableInMemoryRedis.mget P keys))
  | .legacy, _, .mget keys => do pure (.many (← SwappableInMemoryRedis.mget keys))
  | _, _, .keys pattern => do pure (.keys (← RedisLike.keys P pattern))
  | .modern, _, .hdel key fields => do
      pure (.long (← ModernSwappableInMemoryRedis.hdel key fields))
  | .legacy, _, .hdel key fields => do pure (.long (← SwappableInMemoryRedis.hdel key fields))
  | .modern, _, .hgetall key => do pure (.fields (← ModernSwappableInMemoryRedis.hgetall key))
  | .legacy, _, .hgetall key => do pure (.fields (← SwappableInMemoryRedis.hgetall key))
  | .modern, _, .hset key field value => do
      pure (.bool (← ModernSwappableInMemoryRedis.hsetBS key field value))
  | .legacy, _, .hset key field value => do
      pure (.bool (← SwappableInMemoryRedis.hsetBS key field value))
  | .modern, _, .llen key => do pure (.long (← ModernSwappableInMemoryRedis.llen key))
  | .legacy, _, .llen key => do pure (.long (← SwappableInMemoryRedis.llen key))
  | _, _, .lpush key values => do pure (.long (← lpushBS key values))
  | .modern, _, .lrange key start stop => do
      pure (.elements (← ModernSwappableInMemoryRedis.lrange key start stop))
  | .legacy, _, .lrange key start stop => do
      pure (.elements (← SwappableInMemoryRedis.lrange key start stop))
  | _, _, .ltrim key start stop => do pure (.bool (← ltrim key start stop))
  | _, now, .pttl key => do pure (.long (← pttl now key))
  | _, now, .ttl key => do pure (.long (← ttl now key))
  | _, now, .expire key seconds => do pure (.bool (← expire now key seconds))
  | _, now, .pexpire key milliseconds => do pure (.bool (← pexpire now key milliseconds))
  | _, _, .sadd key members => do pure (.long (← saddBS key members))
  | .modern, _, .sismember key member => do
      pure (.bool (← ModernSwappableInMemoryRedis.sismemberBS key member))
  | .legacy, _, .sismember key member => do
      pure (.bool (← SwappableInMemoryRedis.sismemberBS key member))
  | .modern, _, .smembers key => do
      pure (.members (← ModernSwappableInMemoryRedis.smembers key))
  | .legacy, _, .smembers key => do pure (.members (← SwappableInMemoryRedis.smembers key))
  | _, _, .srem key members => do pure (.long (← sremBS key members))
  | _, _, .scard key => do pure (.long (← scard key))

end Implementation

/-- What happens to a store: a command at some time, or a pass of the sweeper. -/
inductive StoreEvent
  | command (now : Int) (request : Command)
  | sweep (now : Int)

/-- Run one event. -/
def StoreEvent.run (P : StorePlatform) (impl : Implementation) : StoreEvent → Run (Option Reply)
  | .command now request => do pure (some (← impl.exec P now request))
  | .sweep now => do
      Stateful.modify (Memory.sweep now)
      pure none

/-- The memory after some events, whatever they answered or threw. -/
def StoreEvent.after (P : StorePlatform) (impl : Implementation) (memory : Memory)
    (events : List StoreEvent) : Memory :=
  Stateful.afterAll (StoreEvent.run P impl) memory events

end Otoroshi
