/-
# Exports and imports

A store is written to lines of JSON, one for each key under the storage root, and
such lines are read back in two ways. An import runs commands on the store it
writes to: what the keys had before is deleted, and then each line is written. The
readers of the file and of the http persistence build a new memory from the lines
and put it in the place of the old one.

A line says at what time its key expires. The lifetime is taken from `pttl`, which
answers the same for a key whose time is past as for one without.
-/

import Otoroshi.Foundation.Json
import Otoroshi.Storage.InMemoryRedis
import Otoroshi.Storage.Swap

namespace Otoroshi

open Maps Memory Stateful

/-- What exports and imports take from their platform beside what the stores take:
JSON as text, and the orders in which keys and members are iterated. -/
structure NdJsonPlatform extends StorePlatform where
  /-- `Json.parse` -/
  parse : Str → JsResult JsValue
  /-- `Json.stringify` -/
  stringify : JsValue → Str
  keyOrder : Finset Str → List Str
  memberOrder : Finset ByteString → List ByteString
  nodup_keyOrder : ∀ keys, (keyOrder keys).Nodup
  mem_keyOrder : ∀ keys key, key ∈ keyOrder keys ↔ key ∈ keys
  mem_memberOrder : ∀ members member, member ∈ memberOrder members ↔ member ∈ members

/-- What can go wrong in an import. -/
inductive ImportException
  | json (exception : JsException)
  | store (exception : StoreException)
  deriving DecidableEq

variable (P : NdJsonPlatform)

/-- The pattern of the keys that are exported, and deleted by an import. -/
def rootPattern (storageRoot : Str) : Str := storageRoot ++ ":*".toList

/-! ## Exports -/

namespace InMemoryDataStores

/-- `toJson`. -/
def toJson : Value → String × JsValue
  | .bytes bs => ("string", .string (P.utf8String bs))
  | .counter n => ("string", .string (longText n))
  | .hash fields => ("hash", .object (fields.entries.map fun field =>
      (field.1, .string (P.utf8String field.2))))
  | .list elements => ("list", Json.strings (elements.map P.utf8String))
  | .set members => ("set", Json.strings ((P.memberOrder members).map P.utf8String))

/-- The time at which a key with that lifetime expires. -/
def expiresAt (now ttl : Int) : Long :=
  if ttl = -1 then ⟨-1, rfl⟩ else ⟨wrapLong (now + ttl), isLong_wrapLong _⟩

def exportLine (now : Int) (key : Str) : Run (Option JsValue) := do
  match ← Memory.get key with
  | none => pure none
  | some value => do
      let ttl ← RedisLike.pttl now key
      let (what, jsonValue) := toJson P value
      pure (some (Json.obj [("k", .string key), ("v", jsonValue),
        ("t", Json.long (expiresAt now ttl)), ("w", .string what.toList)]))

def fullNdJsonExport (storageRoot : Str) (now : Int) : Run (List JsValue) := do
  let keys ← RedisLike.keys P.toStorePlatform (rootPattern storageRoot)
  let lines ← (P.keyOrder keys).mapM (exportLine P now)
  pure (lines.filterMap id)

end InMemoryDataStores

/-! ## Imports -/

abbrev Import (α : Type) := Stateful Memory ImportException α

namespace RedisLikeNdJsonImport

variable (impl : Implementation) (now : Int)

def ofJson {α : Type} (result : JsResult α) : Import α :=
  ofExcept (result.mapError .json)

/-- A command of the store, for what it does to the memory. -/
def call (request : Command) : Import Unit := do
  let _ ← mapError .store (impl.exec P.toStorePlatform now request)
  pure ()

def raw : JsValue → Str
  | .string str => str
  | other => P.stringify other

def hsetAll (key : Str) : List (Str × JsValue) → Import Unit
  | [] => pure ()
  | field :: fields => do
      call P impl now (.hset key field.1 (P.encode (raw P field.2)))
      hsetAll key fields

/-- The value of a line. The members of a list are pushed in reverse. -/
def writeValue (key what : Str) (value : JsValue) : Import Unit :=
  if what = "counter".toList ∨ what = "string".toList then
    call P impl now (.set key (P.encode (raw P value)) none none)
  else if what = "hash".toList then do
    let fields ← ofJson (Reads.jsObject value)
    hsetAll P impl now key fields
  else if what = "list".toList then do
    let members ← ofJson (Reads.jsArray value)
    if members.isEmpty then pure ()
    else call P impl now (.lpush key (members.reverse.map fun member => P.encode (raw P member)))
  else if what = "set".toList then do
    let members ← ofJson (Reads.jsArray value)
    if members.isEmpty then pure ()
    else call P impl now (.sadd key (members.map fun member => P.encode (raw P member)))
  else pure ()

def importLine (json : JsValue) : Import Unit := do
  let key ← ofJson ((json.select "k").as .string)
  let value ← ofJson ((json.select "v").as .jsValue)
  let what ← ofJson ((json.select "w").as .string)
  let expiresAt : Int := ((json.select "t").asOptOrElse .long ⟨-1, rfl⟩).1
  let ttl := wrapLong (expiresAt - now)
  if -1 < expiresAt ∧ ttl ≤ 0 then pure ()
  else
    writeValue P impl now key what value
    if -1 < expiresAt then call P impl now (.pexpire key ttl) else pure ()

def importLines : List JsValue → Import Unit
  | [] => pure ()
  | json :: rest => do
      importLine P impl now json
      importLines rest

end RedisLikeNdJsonImport

open RedisLikeNdJsonImport

def InMemoryDataStores.fullNdJsonImport (impl : Implementation) (storageRoot : Str) (now : Int)
    (lines : List JsValue) : Import Unit := do
  let keys ← mapError .store (RedisLike.keys P.toStorePlatform (rootPattern storageRoot))
  if keys = ∅ then pure () else call P impl now (.del (P.keyOrder keys))
  importLines P impl now lines

/-! ## Readers -/

namespace Persistence

/-- `fromJson`: the collections are of other classes in the modern store. -/
def fromJson (what : Str) (value : JsValue) : JsResult (Option Value) :=
  if what = "counter".toList then do
    let n ← Reads.long value
    pure (some (.bytes (P.encode (longText n.1))))
  else if what = "string".toList then do
    let str ← Reads.string value
    pure (some (.bytes (P.encode str)))
  else if what = "set".toList then do
    let members ← Reads.seq .string value
    pure (some (.set (members.map P.encode).toFinset))
  else if what = "list".toList then do
    let members ← Reads.seq .string value
    pure (some (.list (members.map P.encode)))
  else if what = "hash".toList then do
    let fields ← Reads.jsObject value
    let entries ← fields.mapM fun field =>
      (Reads.string field.2).map fun str => (field.1, P.encode str)
    pure (some (.hash (insertAll entries ∅)))
  else pure none

/-- One line, put into the new maps. -/
def readLine (memory : Memory) (text : Str) : JsResult Memory := do
  let item ← P.parse text
  let key ← (item.select "k").as .string
  let value ← (item.select "v").as .jsValue
  let what ← (item.select "w").as .string
  let ttl : Int := ((item.select "t").asOptOrElse .long ⟨-1, rfl⟩).1
  let found ← fromJson P what value
  pure {
    store := match found with
      | some v => memory.store.insert key v
      | none => memory.store
    expirations := if -1 < ttl then memory.expirations.insert key ttl else memory.expirations }

/-- A process with a persistence is no worker: it takes the new maps as they are. -/
def swapIn (impl : Implementation) (storageRoot : Str) (new memory : Memory) : Memory :=
  match impl with
  | .modern => ModernSwappableInMemoryRedis.rawSwap ⟨false, storageRoot⟩ new.store
      new.expirations memory
  | .legacy => SwappableInMemoryRedis.swap ⟨false, storageRoot⟩ new .replace memory

/-- `trim.isEmpty`. -/
def trimsToEmpty (text : Str) : Bool := text.all fun c => c.toNat ≤ 0x20

def readStateFromDisk (impl : Implementation) (storageRoot : Str) (source : List Str)
    (memory : Memory) : JsResult Memory := do
  let new ← (source.filter fun text => !trimsToEmpty text).foldlM (readLine P) .empty
  pure (swapIn impl storageRoot new memory)

def readStateFromHttp (impl : Implementation) (storageRoot : Str) (source : List Str)
    (memory : Memory) : JsResult Memory := do
  let new ← source.foldlM (readLine P) .empty
  pure (swapIn impl storageRoot new memory)

end Persistence

end Otoroshi
