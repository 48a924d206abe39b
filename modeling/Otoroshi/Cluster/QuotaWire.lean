/-
# Increments on their way to the leader

A message of increments is sent as a JSON object with the kind of the message and short names
for what it counts. The leader reads a number that is missing as zero, and knows a message of
another kind as none. `read_json` says that every message arrives as it was sent.
-/

import Otoroshi.Cluster.QuotaMessages
import Otoroshi.Foundation.Json
import Otoroshi.Foundation.Stateful

namespace Otoroshi

namespace Cluster

theorem isLong_toInt (n : BitVec 64) : isLong n.toInt = true := by
  have hlow := BitVec.le_toInt n
  have hhigh := BitVec.toInt_lt (x := n)
  rw [isLong, Bool.and_eq_true, decide_eq_true_eq, decide_eq_true_eq]
  omega

/-- `AtomicLong.get` -/
def longOf (n : BitVec 64) : Long := ⟨n.toInt, isLong_toInt n⟩

/-- `asOpt[Long].getOrElse(0L)` -/
def callsIn (item : JsValue) (name : String) : BitVec 64 :=
  .ofInt 64 ((item.select name).asOptOrElse .long ⟨0, rfl⟩).1

/-- The name of a counter of a route. -/
def Counter.field : Counter → String
  | .calls => "c"
  | .dataIn => "di"
  | .dataOut => "do"
  | .overhead => "oh"
  | .duration => "du"
  | .backendDuration => "bdu"
  | .headersIn => "hi"
  | .headersOut => "ho"

theorem callsIn_of_select {item : JsValue} {name : String} {n : BitVec 64}
    (h : item.select name = some (Json.long (longOf n))) : callsIn item name = n := by
  rw [callsIn, h, asOptOrElse_of_ok (reads_long (longOf n))]
  exact BitVec.ofInt_toInt

theorem asOpt_string (text : Str) :
    JsLookupResult.asOpt (some (.string text)) .string = some text := rfl

theorem as_string (text : Str) : JsLookupResult.as (some (.string text)) .string = .ok text := rfl

namespace ClusterLeaderUpdateMessage

/-- Of the status of a worker only the kind is here. -/
def json : ClusterLeaderUpdateMessage → JsValue
  | globalStatusUpdate => Json.obj [("typ", .string "globstats".toList)]
  | apikeyCallIncr clientId calls =>
      Json.obj [
        ("typ", .string "apkincr".toList),
        ("apk", .string clientId),
        ("i", Json.long (longOf calls))]
  | routeCallIncr routeId counts =>
      Json.obj [
        ("typ", .string "srvincr".toList),
        ("srv", .string routeId),
        ("c", Json.long (longOf (counts .calls))),
        ("di", Json.long (longOf (counts .dataIn))),
        ("do", Json.long (longOf (counts .dataOut))),
        ("oh", Json.long (longOf (counts .overhead))),
        ("du", Json.long (longOf (counts .duration))),
        ("bdu", Json.long (longOf (counts .backendDuration))),
        ("hi", Json.long (longOf (counts .headersIn))),
        ("ho", Json.long (longOf (counts .headersOut)))]
  | customThrottlingIncr expr group calls ttl =>
      Json.obj [
        ("typ", .string "custthrot".toList),
        ("e", .string expr),
        ("g", .string group),
        ("c", Json.long (longOf calls)),
        ("t", Json.long (longOf ttl))]
  | customQuotasIncr expr group calls =>
      Json.obj [
        ("typ", .string "custquots".toList),
        ("e", .string expr),
        ("g", .string group),
        ("c", Json.long (longOf calls))]

/-- `asString` throws where there is no text. -/
def read (item : JsValue) : JsResult (Option ClusterLeaderUpdateMessage) :=
  let typ := (item.select "typ").asOpt .string
  if typ = some "globstats".toList then pure (some globalStatusUpdate)
  else if typ = some "apkincr".toList then do
    let clientId ← (item.select "apk").as .string
    pure (some (apikeyCallIncr clientId (callsIn item "i")))
  else if typ = some "srvincr".toList then do
    let routeId ← (item.select "srv").as .string
    pure (some (routeCallIncr routeId fun counter => callsIn item counter.field))
  else if typ = some "custquots".toList then do
    let expr ← (item.select "e").as .string
    let group ← (item.select "g").as .string
    pure (some (customQuotasIncr expr group (callsIn item "c")))
  else if typ = some "custthrot".toList then do
    let expr ← (item.select "e").as .string
    let group ← (item.select "g").as .string
    pure (some (customThrottlingIncr expr group (callsIn item "c") (callsIn item "t")))
  else pure none

/-- The leader reads what was sent. -/
theorem read_json (message : ClusterLeaderUpdateMessage) :
    read (json message) = .ok (some message) := by
  cases message with
  | globalStatusUpdate =>
      simp [read, json, asOpt_string]
  | apikeyCallIncr clientId calls =>
      have hcalls : callsIn (apikeyCallIncr clientId calls).json "i" = calls :=
        callsIn_of_select (by simp [json])
      rw [read, hcalls]
      simp [json, asOpt_string, as_string]
  | routeCallIncr routeId counts =>
      have hcounts : (fun counter : Counter => callsIn (routeCallIncr routeId counts).json
          counter.field) = counts := by
        funext counter
        apply callsIn_of_select
        cases counter <;> simp [json, Counter.field]
      rw [read, hcounts]
      simp [json, asOpt_string, as_string]
  | customThrottlingIncr expr group calls ttl =>
      have hcalls : callsIn (customThrottlingIncr expr group calls ttl).json "c" = calls :=
        callsIn_of_select (by simp [json])
      have httl : callsIn (customThrottlingIncr expr group calls ttl).json "t" = ttl :=
        callsIn_of_select (by simp [json])
      rw [read, hcalls, httl]
      simp [json, asOpt_string, as_string]
  | customQuotasIncr expr group calls =>
      have hcalls : callsIn (customQuotasIncr expr group calls).json "c" = calls :=
        callsIn_of_select (by simp [json])
      rw [read, hcalls]
      simp [json, asOpt_string, as_string]

end ClusterLeaderUpdateMessage

end Cluster

end Otoroshi
