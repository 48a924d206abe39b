/-
# Bans after failed requests

The fail2ban plugin bans a client for a time after too many failed requests. A client is what the
identifier of the configuration evaluates to, and the counters and the bans are kept under that
text, by one state of the process that every route uses.

The plugin is called up to four times for a request. `access` refuses a banned client,
`transformResponse` and `transformError` see the status of an answer, and `afterRequest` sees what
other plugins left in the attributes of the request. A mark in these attributes, `alreadyCounted`,
is put by the first three and read by the last.

Instants and durations are in milliseconds. The clock shows one instant throughout a call.
-/

import Mathlib.Logic.Function.Basic
import Otoroshi.Foundation.Json

namespace Otoroshi

/-- What the plugin uses of the gateway: the expression language with the attributes it reads, the
patterns of the rules and `String.toInt`, with `none` where it throws. -/
structure Fail2BanEnv where
  Attrs : Type
  evaluateEl : Str → Attrs → Str
  /-- `RegexPool.regex(pattern).matches` -/
  regexMatches : Str → Str → Bool
  equalsIgnoreCase : Str → Str → Bool
  /-- `Fail2BanConfig.matches` -/
  matchesRules : List Str → Str → Bool
  toInt : Str → Option Int

structure RegexRule where
  pattern : Str := ".*".toList
  mode : Str := "allow".toList
  deriving DecidableEq

structure StatusCodeRange where
  min : Int
  max : Int
  deriving DecidableEq

structure Fail2BanConfig where
  identifier : Str := "${route.id}-${req.ip}".toList
  detectTimeMs : Int := 600000
  banTimeMs : Int := 10800000
  maxRetry : Int := 4
  urlRegex : List RegexRule := []
  statusMatchers : List StatusCodeRange := [⟨400, 400⟩, ⟨401, 401⟩, ⟨403, 499⟩, ⟨500, 599⟩]
  ignored : List Str := []
  blocked : List Str := []
  deriving DecidableEq

namespace Fail2BanConfig

variable (E : Fail2BanEnv) (conf : Fail2BanConfig)

def isUrlInScope (pathAndQuery : Str) : Bool :=
  if conf.urlRegex.isEmpty then true
  else
    match conf.urlRegex.find? fun rule => E.regexMatches rule.pattern pathAndQuery with
    | some rule =>
        if E.equalsIgnoreCase rule.mode "allow".toList then true
        else if E.equalsIgnoreCase rule.mode "block".toList then false
        else true
    | none => true

def isFailedStatus (status : Int) : Bool :=
  conf.statusMatchers.any fun range => decide (range.min ≤ status) && decide (status ≤ range.max)

def isIgnored (identifier : Str) : Bool := E.matchesRules conf.ignored identifier

def isBlocked (identifier : Str) : Bool := E.matchesRules conf.blocked identifier

end Fail2BanConfig

@[ext]
structure RollingWindowCounter where
  count : Int
  windowStart : Int

namespace RollingWindowCounter

/-- The counter after `increment`, whose result is the count. -/
def increment (nowMs windowMs : Int) (counter : RollingWindowCounter) : RollingWindowCounter :=
  if windowMs ≤ nowMs - counter.windowStart then ⟨1, nowMs⟩
  else { counter with count := counter.count + 1 }

def reset (counter : RollingWindowCounter) : RollingWindowCounter := { counter with count := 0 }

end RollingWindowCounter

structure Fail2BanState where
  counters : Str → Option RollingWindowCounter := fun _ => none
  bannedUntil : Str → Option Int := fun _ => none

namespace Fail2BanState

variable (ip : Str) (now : Int) (state : Fail2BanState)

/-- A new counter has a window that begins now. -/
def counterFor : RollingWindowCounter := (state.counters ip).getD ⟨0, now⟩

/-- A ban that is over is forgotten. -/
def isBanned : Bool × Fail2BanState :=
  match state.bannedUntil ip with
  | none => (false, state)
  | some ts =>
      if ts < now then
        (false, { state with bannedUntil := Function.update state.bannedUntil ip none })
      else (true, state)

def remainingBanSeconds : Int :=
  ((state.bannedUntil ip).map fun deadline => max 0 ((deadline - now).tdiv 1000)).getD 0

/-- What all three callbacks do with a failure. -/
def count (conf : Fail2BanConfig) : Fail2BanState :=
  let counter := (state.counterFor ip now).increment now conf.detectTimeMs
  if conf.maxRetry ≤ counter.count then
    { counters := Function.update state.counters ip (some counter.reset)
      bannedUntil := Function.update state.bannedUntil ip (some (now + conf.banTimeMs)) }
  else { state with counters := Function.update state.counters ip (some counter) }

end Fail2BanState

/-- The callback, with what it reads of its context besides the configuration and the path. -/
inductive Fail2BanPhase
  | access
  | transformResponse (status : Int)
  | transformError (status : Int)
  | afterRequest (elCtx : Option (List (Str × Str))) (triggerStatus : Option Int)
      (trigger : Option Str)

/-- A call of the plugin for a request, on the route that has the configuration. -/
structure Fail2BanCall (E : Fail2BanEnv) where
  request : Nat
  conf : Fail2BanConfig
  attrs : E.Attrs
  thePath : Str := []
  now : Int
  phase : Fail2BanPhase

/-- The state of the process, and the mark in the attributes of every request. -/
structure Fail2BanWorld where
  state : Fail2BanState := {}
  alreadyCounted : Nat → Bool := fun _ => false

namespace Fail2BanPlugin

inductive NgAccess
  | allowed
  | denied (body : JsValue)

variable {E : Fail2BanEnv} (call : Fail2BanCall E) (world : Fail2BanWorld)

/-- The identifier, which the code calls `ip`. -/
def ip : Str := E.evaluateEl call.conf.identifier call.attrs

def blockedBody : JsValue := Json.obj [
  ("error", .string "blocked".toList),
  ("message", .string "You cant access this resource.".toList)]

def bannedBody (remain : Int) : JsValue := Json.obj [
  ("error", .string "temporary_ban".toList),
  ("message",
    .string "You are temporarily banned due to too many failed requests.".toList),
  ("retry_in_seconds", .number remain)]

def access : NgAccess × Fail2BanWorld :=
  if call.conf.isIgnored E (ip call) then (.allowed, world)
  else if call.conf.isBlocked E (ip call) then (.denied blockedBody, world)
  else
    let answer := world.state.isBanned (ip call) call.now
    if answer.1 then
      (.denied (bannedBody (answer.2.remainingBanSeconds (ip call) call.now)),
        ⟨answer.2, Function.update world.alreadyCounted call.request true⟩)
    else (.allowed, { world with state := answer.2 })

/-- The body of `transformResponse` and of `transformError`. -/
def transform (status : Int) : Fail2BanWorld :=
  if call.conf.isIgnored E (ip call) then world
  else if call.conf.isBlocked E (ip call) then world
  else if call.conf.isUrlInScope E call.thePath && call.conf.isFailedStatus status then
    { state := world.state.count (ip call) call.now call.conf
      alreadyCounted := Function.update world.alreadyCounted call.request true }
  else world

def transformResponse (status : Int) : Fail2BanWorld := transform call world status

def transformError (status : Int) : Fail2BanWorld := transform call world status

/-- The status that `afterRequest` looks at, with `none` where `toInt` throws. -/
def ctxStatus (E : Fail2BanEnv) (elCtx : List (Str × Str)) (triggerStatus : Option Int) :
    Option (Option Int) :=
  match elCtx.lookup "fail2ban-trigger-status".toList with
  | some text => (E.toInt text).map some
  | none => some triggerStatus

/-- What `afterRequest` takes for a failure. -/
def triggered (elCtx : List (Str × Str)) (triggerStatus : Option Int) (trigger : Option Str) :
    Bool :=
  match ctxStatus E elCtx triggerStatus with
  | none => false
  | some status =>
      status.any (fun status =>
          call.conf.isUrlInScope E call.thePath && call.conf.isFailedStatus status) ||
        ((elCtx.lookup "fail2ban-trigger".toList).or trigger).isSome

def afterRequest (elCtx : Option (List (Str × Str))) (triggerStatus : Option Int)
    (trigger : Option Str) : Fail2BanWorld :=
  if !call.conf.isIgnored E (ip call) && !call.conf.isBlocked E (ip call) &&
      !world.alreadyCounted call.request then
    match elCtx with
    | none => world
    | some elCtx =>
        if triggered call elCtx triggerStatus trigger then
          { world with state := world.state.count (ip call) call.now call.conf }
        else world
  else world

/-- What a call does. -/
def step : Fail2BanWorld :=
  match call.phase with
  | .access => (access call world).2
  | .transformResponse status => transformResponse call world status
  | .transformError status => transformError call world status
  | .afterRequest elCtx triggerStatus trigger =>
      afterRequest call world elCtx triggerStatus trigger

/-- The world after some calls, the newest first. -/
def after : List (Fail2BanCall E) → Fail2BanWorld
  | [] => {}
  | call :: calls => step call (after calls)

end Fail2BanPlugin

end Otoroshi
