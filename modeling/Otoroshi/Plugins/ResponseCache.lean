/-
# The response cache

The plugin looks a request up under its lower cased method and its uri. What it finds is
served as it is; otherwise the response of the backend is watched while it is delivered, and
put into the cache at the end of its body. A tap on the body counts all bytes and keeps them
as long as there are not too many.

A request with an `Authorization` or a `Cookie` header is neither served from the cache nor
put into it. The other headers play no part, and neither does the host.
-/

import Otoroshi.Apikeys.Extraction
import Otoroshi.Foundation.Base64
import Otoroshi.Foundation.Json
import Otoroshi.Foundation.Maps
import Otoroshi.Foundation.Stateful
import Otoroshi.Utils.RegexPool

namespace Otoroshi

namespace NgResponseCache

open Credentials

structure NgResponseCacheFilterConfig where
  statuses : List Int32 := [200]
  methods : List Str := ["GET".toList]
  paths : List Str := ["/.*".toList]
  notStatuses : List Int32 := []
  notMethods : List Str := []
  notPaths : List Str := []

/-- `ttl` is in milliseconds. -/
structure NgResponseCacheConfig where
  ttl : Int := 60 * 60 * 1000
  maxSize : Int := 50 * 1024 * 1024
  filter : Option NgResponseCacheFilterConfig := none

/-- Texts as the platform treats them. -/
structure CachePlatform extends TextPlatform where
  digit : Char → Option Nat

inductive CacheException
  | regex (e : JvmException)
  | numberFormat
  | json (e : JsException)
  | base64
  deriving DecidableEq

/-- What the backend answers, without the body. -/
structure RawResponse where
  status : Int32
  headers : AList fun _ : Str => Str

/-- What is served from the cache. -/
@[ext]
structure Result where
  status : Int32
  body : List UInt8
  ctype : Str
  headers : AList fun _ : Str => Str

/-- A route with the cache. -/
structure CachedRoute where
  storageRoot : Str
  id : Str
  config : NgResponseCacheConfig := {}

variable (P : CachePlatform) {E : RegexEngine} (pool : Pool E) (route : CachedRoute)

/-! ## Which requests -/

/-- Whether one of the patterns matches the uri, with the answer where there are none. -/
def uriMatches (patterns : List Str) (whenEmpty : Bool) (req : Credentials.RequestHeader) :
    Except JvmException Bool :=
  if patterns.isEmpty then .ok whenEmpty
  else patterns.anyM fun p => poolMatches pool p req.relativeUri

/-- `statusOpt` is the status of the response, once there is one. -/
def filter (req : Credentials.RequestHeader) (config : NgResponseCacheConfig)
    (statusOpt : Option Int32) : Except JvmException Bool :=
  if (req.header P.toTextPlatform authorization).isSome ||
      (req.header P.toTextPlatform "Cookie".toList).isSome then .ok false
  else
    match config.filter with
    | none => .ok true
    | some filter => do
        let matchPath ← uriMatches pool filter.paths true req
        let matchNotPath ← uriMatches pool filter.notPaths false req
        let methodMatch := filter.methods.isEmpty ||
          (filter.methods.map P.toLowerCase).contains (P.toLowerCase req.method)
        let methodNotMatch := !filter.notMethods.isEmpty &&
          (filter.notMethods.map P.toLowerCase).contains (P.toLowerCase req.method)
        let statusMatch := filter.statuses.isEmpty || statusOpt.elim true filter.statuses.contains
        let statusNotMatch :=
          !filter.notStatuses.isEmpty && statusOpt.elim true filter.notStatuses.contains
        return matchPath && methodMatch && statusMatch && !matchNotPath && !methodNotMatch &&
          !statusNotMatch

/-- The key of a request in the datastore. -/
def CachedRoute.key (req : Credentials.RequestHeader) : Str :=
  route.storageRoot ++ ":noclustersync:cache:".toList ++ route.id ++ ":".toList ++
    P.toLowerCase req.method ++ "-".toList ++ req.relativeUri

/-- `text.toInt`. -/
def toInt (text : Str) : Except CacheException Int :=
  match (parseLong P.digit text).filter fun n => -2 ^ 31 ≤ n && n < 2 ^ 31 with
  | some n => .ok n
  | none => .error .numberFormat

def couldCacheResponse (req : Credentials.RequestHeader) (config : NgResponseCacheConfig)
    (rawResponse : RawResponse) : Except CacheException Bool := do
  if ← (filter P pool req config (some rawResponse.status)).mapError .regex then
    match (rawResponse.headers.lookup "Content-Length".toList).or
        (rawResponse.headers.lookup "content-Length".toList) with
    | some text => do
        let csize ← toInt P text
        return csize ≤ config.maxSize
    | none => return true
  else return false

/-- The answer does not depend on the status where there is one: no pattern looks at it. -/
theorem filter_of_status {req : Credentials.RequestHeader} {config : NgResponseCacheConfig}
    {statusOpt : Option Int32} {answer : Bool}
    (h : filter P pool req config statusOpt = .ok answer) (other : Option Int32) :
    ∃ answer, filter P pool req config other = .ok answer := by
  rw [filter] at h ⊢
  by_cases hcredentials : ((req.header P.toTextPlatform authorization).isSome ||
      (req.header P.toTextPlatform "Cookie".toList).isSome) = true
  · rw [if_pos hcredentials]
    exact ⟨false, rfl⟩
  · rw [if_neg hcredentials] at h ⊢
    cases hfilter : config.filter with
    | none => exact ⟨true, rfl⟩
    | some filter =>
        rw [hfilter] at h
        obtain ⟨matchPath, hpath, h⟩ := bind_eq_ok_iff.mp h
        obtain ⟨matchNotPath, hnotPath, -⟩ := bind_eq_ok_iff.mp h
        simp only [hpath, ok_bind, hnotPath]
        exact ⟨_, rfl⟩

/-! ## What is kept of a response -/

/-- A header that is not kept. A cookie that is set for one caller is not replayed to the
others. -/
def isDropped (name : Str) : Bool :=
  P.toLowerCase name == "content-type".toList ||
    P.toLowerCase name == "transfer-encoding".toList ||
    P.toLowerCase name == "content-length".toList || P.toLowerCase name == "set-cookie".toList

namespace RawResponse

variable (rawResponse : RawResponse)

def ctype : Str :=
  ((rawResponse.headers.lookup "Content-Type".toList).or
    (rawResponse.headers.lookup "content-type".toList)).getD "text/plain".toList

def keptHeaders : AList fun _ : Str => Str :=
  Maps.filterKeys (fun name => !isDropped P name) rawResponse.headers

/-- The value whose text is put into the datastore. -/
def event (body : List UInt8) : JsValue :=
  Json.obj [
    ("status", Json.int rawResponse.status),
    ("headers", Json.stringMap (rawResponse.keptHeaders P)),
    ("ctype", .string rawResponse.ctype),
    ("body", .string (Base64.encode body))]

end RawResponse

/-! ## The body -/

/-- The two variables that the tap on a body writes. -/
structure Tap where
  size : Int := 0
  ref : List UInt8 := []

/-- The tap sees a chunk. -/
def Tap.see (maxSize : Int) (tap : Tap) (bs : List UInt8) : Tap :=
  let currentSize := tap.size + bs.length
  { size := currentSize
    ref := if currentSize ≤ maxSize then tap.ref ++ bs else tap.ref }

/-- What the tap has seen after some chunks. -/
def tapped (maxSize : Int) (chunks : List (List UInt8)) : Tap :=
  chunks.foldl (Tap.see maxSize) {}

/-- What is put into the datastore at the end of the body, however it ends. -/
def stored (config : NgResponseCacheConfig) (rawResponse : RawResponse)
    (chunks : List (List UInt8)) : Option JsValue :=
  let tap := tapped config.maxSize chunks
  if tap.size < config.maxSize then some (rawResponse.event P tap.ref) else none

private theorem foldl_see {maxSize : Int} (chunks : List (List UInt8)) (tap : Tap)
    (seen : List UInt8) (hsize : tap.size = seen.length)
    (href : tap.size ≤ maxSize → tap.ref = seen) :
    (chunks.foldl (Tap.see maxSize) tap).size = (seen ++ chunks.flatten).length ∧
      ((chunks.foldl (Tap.see maxSize) tap).size ≤ maxSize →
        (chunks.foldl (Tap.see maxSize) tap).ref = seen ++ chunks.flatten) := by
  induction chunks generalizing tap seen with
  | nil => simpa using ⟨hsize, href⟩
  | cons bs chunks ih =>
      have hstep := ih (tap.see maxSize bs) (seen ++ bs)
        (by simp [Tap.see, hsize])
        (by
          intro hle
          have hcurrent : tap.size + bs.length ≤ maxSize := hle
          rw [Tap.see, if_pos hcurrent, href (by omega)])
      simpa [List.append_assoc] using hstep

theorem size_tapped (maxSize : Int) (chunks : List (List UInt8)) :
    (tapped maxSize chunks).size = chunks.flatten.length :=
  (foldl_see chunks {} [] rfl fun _ => rfl).1

/-- As long as there are not too many, all bytes are kept. -/
theorem ref_tapped {maxSize : Int} {chunks : List (List UInt8)}
    (h : (tapped maxSize chunks).size ≤ maxSize) :
    (tapped maxSize chunks).ref = chunks.flatten :=
  (foldl_see chunks {} [] rfl fun _ => rfl).2 h

/-- A body is put into the datastore as far as it was delivered, if it is small enough. -/
theorem stored_eq (config : NgResponseCacheConfig) (rawResponse : RawResponse)
    (chunks : List (List UInt8)) :
    stored P config rawResponse chunks =
      if (chunks.flatten.length : Int) < config.maxSize then
        some (rawResponse.event P chunks.flatten)
      else none := by
  rw [stored]
  by_cases hsize : (tapped config.maxSize chunks).size < config.maxSize
  · rw [if_pos hsize, ref_tapped (Int.le_of_lt hsize), if_pos (size_tapped _ chunks ▸ hsize)]
  · rw [if_neg hsize, if_neg (size_tapped _ chunks ▸ hsize)]

/-! ## The lookup -/

/-- `Left` where the cache is not asked. `get` reads the datastore. -/
def cachedResponse (get : Str → Option JsValue) (req : Credentials.RequestHeader) :
    Except CacheException (Except Unit (Option JsValue)) := do
  if ← (filter P pool req route.config none).mapError .regex then
    return .ok (get (route.key P req))
  else return .error ()

/-- The response that a stored value is read as. -/
def readEvent (res : JsValue) : Except CacheException Result := do
  let status ← ((res.select "status").as .int).mapError .json
  let text ← ((res.select "body").as .string).mapError .json
  let body ← (Base64.decode text).elim (.error .base64) .ok
  let headers ← ((res.select "headers").as (.map .string)).mapError .json
  let ctype ← ((res.select "ctype").as .string).mapError .json
  return ⟨status, body, ctype, headers.insert "X-Otoroshi-Cache".toList "HIT".toList⟩

/-- A response that is served, or the headers for the backend. -/
def transformRequest (get : Str → Option JsValue) (req : Credentials.RequestHeader)
    (headers : AList fun _ : Str => Str) :
    Except CacheException (Except Result (AList fun _ : Str => Str)) := do
  match ← cachedResponse P pool route get req with
  | .error _ => return .ok headers
  | .ok none => return .ok (headers.insert "X-Otoroshi-Cache".toList "MISS".toList)
  | .ok (some res) => return .error (← readEvent res)

/-- What is served for a response that was stored with its body. -/
def RawResponse.replay (rawResponse : RawResponse) (body : List UInt8) : Result where
  status := rawResponse.status
  body
  ctype := rawResponse.ctype
  headers := (rawResponse.keptHeaders P).insert "X-Otoroshi-Cache".toList "HIT".toList

/-- A stored value is read as what was stored. -/
theorem readEvent_event (rawResponse : RawResponse) (body : List UInt8) :
    readEvent (rawResponse.event P body) = .ok (rawResponse.replay P body) := by
  have hheaders := reads_stringMap (rawResponse.keptHeaders P)
  simp [readEvent, RawResponse.event, JsLookupResult.as, reads_int, hheaders, Except.mapError,
    Base64.decode_encode, Reads.string, RawResponse.replay]

/-- What a request with something stored for it gets: it is served exactly if the cache is
asked. -/
theorem transformRequest_eq_served_iff {get : Str → Option JsValue}
    {req : Credentials.RequestHeader}
    {headers : AList fun _ : Str => Str} {result : Result} :
    transformRequest P pool route get req headers = .ok (.error result) ↔
      filter P pool req route.config none = .ok true ∧
        ∃ res, get (route.key P req) = some res ∧ readEvent res = .ok result := by
  rw [transformRequest, cachedResponse]
  cases hfilter : filter P pool req route.config none with
  | error e => simp [Except.mapError]
  | ok asked =>
      cases asked with
      | false => simp [Except.mapError]
      | true =>
          cases hget : get (route.key P req) with
          | none => simp [Except.mapError]
          | some res => cases hread : readEvent res <;> simp [Except.mapError, hread]

end NgResponseCache

end Otoroshi
