/-
# The state that a leader publishes

A leader writes its store to lines of JSON, one for each key, and publishes them with their
count and a digest of their bytes. They are compressed if the cluster says so. A leader that
is the only one to read the vaults also replaces the references to secrets in what it
publishes, and makes the digest again.

A worker takes the bytes apart, reads what it can of each line into new maps, and accepts
them if the count and the digest are the ones of its lines.
-/

import Otoroshi.Foundation.Frames
import Otoroshi.Storage.Imports
import Otoroshi.Utils.Placeholders

namespace Otoroshi

namespace Cluster

open Placeholders

/-- What a cluster takes from its platform besides what exports take. -/
structure ClusterPlatform extends NdJsonPlatform where
  /-- `Compression.gzip(level)`, which compresses a stream chunk by chunk. -/
  gzip : Int → List ByteString → ByteString
  /-- `Compression.gzipDecompress()` -/
  gunzip : ByteString → Option ByteString
  /-- The hexadecimal SHA-256 digest. -/
  sha256 : ByteString → Str

/-- The secrets of an expression, with what the vaults remember in `σ`. Of several expressions
in one, it is the secret of the first that has one, or they take turns. -/
structure Vaults (σ : Type) where
  enabled : Bool
  leaderFetchOnly : Bool
  resolve : Str → StateM σ (Option Str)

/-! ## Exports -/

/-- A key that is exported, with the time it expires at. -/
structure ExportedItem where
  key : Str
  value : Value
  expiresAt : Long

/-- The content of a store, as it is exported. -/
structure Exported where
  items : List ExportedItem
  nodup : (items.map (·.key)).Nodup

section Leader

variable (P : ClusterPlatform)

def ExportedItem.what (item : ExportedItem) : Str :=
  (InMemoryDataStores.toJson P.toNdJsonPlatform item.value).1.toList

def ExportedItem.json (item : ExportedItem) : JsValue :=
  Json.obj [("k", .string item.key),
    ("v", (InMemoryDataStores.toJson P.toNdJsonPlatform item.value).2),
    ("t", Json.long item.expiresAt), ("w", .string (item.what P))]

/-- `rawExport` of an in-memory store. -/
def rawExport (config : ClusterConfig) (now : Int) : Memory.Run (List JsValue) := do
  let keys ← RedisLike.keys P.toStorePlatform (rootPattern config.storageRoot)
  let lines ← ((P.keyOrder keys).filter fun key => !filteredKey config key).mapM
    (InMemoryDataStores.exportLine P.toNdJsonPlatform now)
  pure (lines.filterMap id)

/-- What `rawExport` exports of some keys. -/
def exportedItems (now : Int) (memory : Memory) (keys : List Str) : List ExportedItem :=
  keys.filterMap fun key => (memory.value? key).map fun value =>
    { key, value
      expiresAt := InMemoryDataStores.expiresAt now (lifetime now (memory.expiration? key)) }

variable {σ : Type} (vaults : Vaults σ)

/-- The pattern of the references to secrets starts with it. -/
def vaultOpening : Str := "$\x7bvault://".toList

/-- `JsString(v).stringify.substring(1).init` -/
def escapeSecret (secret : Str) : Str := ((P.stringify (.string secret)).drop 1).dropLast

def secretOf (expression : Str) : StateM σ Str := do
  match ← vaults.resolve expression with
  | some secret => pure (escapeSecret P secret)
  | none => pure "not-found".toList

def fillSecretsAsync (source : Str) : StateM σ Str :=
  if vaults.enabled then replaceOnAsync vaultOpening (secretOf P vaults) source else pure source

structure PublishedState where
  cachedState : ByteString
  cachedCount : Nat
  cachedDigest : Str

/-- `clusterConfig.gzip()` -/
def gzipFlow (compression : Int) (chunks : List ByteString) : ByteString :=
  if compression = -1 then chunks.flatten else P.gzip compression chunks

/-- `clusterConfig.gunzip()` -/
def gunzipFlow (compression : Int) (bytes : ByteString) : Option ByteString :=
  if compression = -1 then some bytes else P.gunzip bytes

def itemBytes (item : JsValue) : ByteString := P.encode (P.stringify item ++ "\n".toList)

def cacheState (compression : Int) (rawExport : List JsValue) : StateM σ PublishedState := do
  let chunks := rawExport.map (itemBytes P)
  let stateCache := gzipFlow P compression chunks
  if vaults.leaderFetchOnly then do
    let filledStateCacheStr ← fillSecretsAsync P vaults (P.utf8String stateCache)
    let bs := P.encode filledStateCacheStr
    pure ⟨bs, chunks.length, P.sha256 bs⟩
  else
    pure ⟨stateCache, chunks.length, P.sha256 chunks.flatten⟩

end Leader

/-! ## Workers -/

section Worker

variable (P : ClusterPlatform)

/-- The frames are cut at line breaks. -/
def lineBreak : UInt8 := 10

def maximumFrameLength : Nat := 32 * 1024 * 1024

/-- A line that is no JSON is skipped, and one that is no item fails the stream. -/
def readFrame (memory : Memory) (frame : ByteString) : JsResult Memory :=
  match P.parse (P.utf8String frame) with
  | .error _ => .ok memory
  | .ok _ => Persistence.readLine P.toNdJsonPlatform memory (P.utf8String frame)

/-- The new maps of a worker, if it accepts the state. -/
def pollState (compression : Int) (published : PublishedState) : Option Memory := do
  let body ← gunzipFlow P compression published.cachedState
  let items ← Framing.delimiter lineBreak maximumFrameLength body
  let new ← (items.foldlM (readFrame P) .empty).toOption
  if published.cachedCount = items.length ∧
      published.cachedDigest = P.sha256 (Framing.join lineBreak items) then
    some new
  else none

end Worker

end Cluster

end Otoroshi
