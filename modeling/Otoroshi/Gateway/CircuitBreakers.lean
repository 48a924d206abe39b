/-
# Choosing a target

Each route has a map of circuit breakers, one for each host that was called. A
target can be chosen when the request meets its predicate, no health check has
disabled it and the breaker of its host is not open. The strategy then sees each
of these targets as often as its weight says, and backup targets only when there
is no other one or when the attempts have used the others up.

`chooseTargetNg_sound_and_complete` says that this is all that happens, whatever
the strategy does. Only the expiry of a breaker is left to the platform: a breaker
is the list of the calls that went through it.
-/

import Mathlib.Data.Finset.Basic
import Otoroshi.Gateway.LoadBalancing

namespace Otoroshi

open Stateful

structure CustomTimeouts where
  path : Str
  callAndStreamTimeout : Int
  callTimeout : Int

/-- What the breakers read of the configuration of a client, in milliseconds. -/
structure ClientConfig where
  maxErrors : Int
  callAndStreamTimeout : Int
  callTimeout : Int
  sampleInterval : Int
  customTimeouts : List CustomTimeouts

/-- The parameters a breaker is built with. -/
structure BreakerSettings where
  maxFailures : Int
  callTimeout : Int
  callAndStreamTimeout : Int
  resetTimeout : Int
  deriving DecidableEq

/-- A call that went through a breaker, with its end. -/
structure CallRecord (Predicate : Type) where
  target : Target Predicate
  failed : Bool
  time : Int

/-- What the breakers take from their platform. -/
structure GatewayPlatform extends HashPlatform where
  /-- `RegexPool(pattern).matches(path)` -/
  pathMatches : Str → Str → Bool
  /-- `isOpen`, from the calls that failed or succeeded so far and the time. A
  breaker does not know what was called. -/
  isOpen : BreakerSettings → List (Bool × Int) → Int → Bool

/-- `AkkaCircuitBreakerWrapper`: a breaker with its parameters. -/
structure BreakerWrapper where
  cb : Nat
  settings : BreakerSettings
  deriving DecidableEq

/-- The breakers of a route, with the state they share with other routes. -/
structure GatewayState (Predicate : Type) where
  balancer : BalancerState
  /-- `HealthCheckLogic.badHealth` -/
  badHealth : Finset Str
  breakers : AList fun _ : Str => BreakerWrapper
  /-- the next breaker to be built -/
  nextBreaker : Nat
  /-- what went through each breaker, the last call first -/
  logs : Nat → List (CallRecord Predicate)
  /-- the calls that are going on, with their breakers -/
  calls : List (Nat × Target Predicate)

abbrev GatewayM (Predicate α : Type) := Stateful (GatewayState Predicate) GatewayException α

/-- A call that needs a target. -/
structure CallContext (Predicate : Type) where
  descriptorId : Str
  targetsLoadBalancing : LoadBalancing
  clientConfig : ClientConfig
  path : Str
  request : BalancerRequest Predicate
  attempts : Int
  now : Int

namespace ClientConfig

variable (P : GatewayPlatform) (config : ClientConfig) (path : Str)

def timeouts : Option CustomTimeouts :=
  config.customTimeouts.find? fun c => P.pathMatches c.path path

/-- `millis`: a duration has no more than 2^63 nanoseconds. -/
def millis (n : Int) : Except GatewayException Int :=
  if n.natAbs ≤ 9223372036854 then .ok n else .error .illegalArgument

/-- `extractTimeout`. -/
def extractTimeout (f : CustomTimeouts → Int) (f2 : ClientConfig → Int) :
    Except GatewayException Int :=
  millis (((config.timeouts P path).map f).getD (f2 config))

def breakerSettings : Except GatewayException BreakerSettings := do
  let callTimeout ← config.extractTimeout P path (·.callTimeout) (·.callTimeout)
  let callAndStreamTimeout ←
    config.extractTimeout P path (·.callAndStreamTimeout) (·.callAndStreamTimeout)
  let resetTimeout ← millis config.sampleInterval
  return { maxFailures := config.maxErrors, callTimeout, callAndStreamTimeout, resetTimeout }

end ClientConfig

namespace ServiceDescriptorCircuitBreaker

variable {Predicate : Type} (P : GatewayPlatform)

/-- `breakers.get(host).exists(_.cb.isOpen)`. -/
def breakerOpen (state : GatewayState Predicate) (now : Int) (host : Str) : Bool :=
  (state.breakers.lookup host).any fun wrapper =>
    P.isOpen wrapper.settings
      ((state.logs wrapper.cb).map fun record => (record.failed, record.time)) now

/-- A target that can be chosen. -/
def eligible (state : GatewayState Predicate) (context : CallContext Predicate)
    (t : Target Predicate) : Bool :=
  context.request.satisfies t.predicate && t.asCleanTarget ∉ state.badHealth &&
    !breakerOpen P state context.now t.host

/-- `Seq.fill(weight)(t)` for every target. -/
def expand (targets : List (Target Predicate)) : List (Target Predicate) :=
  targets.flatMap fun t => List.replicate t.weight.toNat t

/-- The targets the strategy chooses from. This is where failover happens. -/
def candidates (attempts : Int) (healthy : List (Target Predicate)) : List (Target Predicate) :=
  let primaryTargets := healthy.filter Target.isPrimary
  let secondaryTargets := healthy.filter fun t => !t.isPrimary
  if !primaryTargets.isEmpty && secondaryTargets.isEmpty then primaryTargets
  else if primaryTargets.isEmpty && !secondaryTargets.isEmpty then secondaryTargets
  else if attempts ≤ primaryTargets.length then primaryTargets
  else secondaryTargets

/-- A strategy runs on its own part of the state. -/
def onBalancer {α : Type} (program : BalancerM α) : GatewayM Predicate α := fun state =>
  ((program state.balancer).1, { state with balancer := (program state.balancer).2 })

/-- An exception that has nothing to do with the state. -/
def ofExcept {α : Type} (result : Except GatewayException α) : GatewayM Predicate α :=
  match result with
  | .ok value => pure value
  | .error e => throw e

/-- The state with a new breaker for a host. -/
def built (host : Str) (settings : BreakerSettings) (state : GatewayState Predicate) :
    GatewayState Predicate :=
  { state with
    breakers := state.breakers.insert host ⟨state.nextBreaker, settings⟩
    nextBreaker := state.nextBreaker + 1 }

/-- `buildBreaker`. -/
def buildBreaker (host : Str) (settings : BreakerSettings) : GatewayM Predicate Unit :=
  Stateful.modify (built host settings)

/-- The breaker of a host, built when there is none and when its parameters have
changed. -/
def breakerFor (host : Str) (settings : BreakerSettings) : GatewayM Predicate Nat := do
  let state ← get
  match state.breakers.lookup host with
  | none => buildBreaker host settings
  | some wrapper => if wrapper.settings ≠ settings then buildBreaker host settings
  let state ← get
  match state.breakers.lookup host with
  | some wrapper => return wrapper.cb
  | none => throw .noSuchElement

/-- `chooseTargetNg`. -/
def chooseTargetNg (targets : List (Target Predicate)) (context : CallContext Predicate) :
    GatewayM Predicate (Option (Target Predicate × Nat)) := do
  let state ← get
  let healthy := expand (targets.filter (eligible P state context))
  if healthy.isEmpty then return none
  else do
    let target ← onBalancer (context.targetsLoadBalancing.select P.toHashPlatform context.request
      (candidates context.attempts healthy) context.descriptorId context.attempts)
    let settings ← ofExcept (context.clientConfig.breakerSettings P context.path)
    let cb ← breakerFor target.host settings
    return some (target, cb)

/-! ## The targets a strategy sees -/

section Candidates

variable {targets healthy : List (Target Predicate)} {target : Target Predicate} {attempts : Int}

theorem mem_expand : target ∈ expand targets ↔ target ∈ targets ∧ 0 < target.weight := by
  rw [expand, List.mem_flatMap]
  constructor
  · rintro ⟨t, hmem, hreplicate⟩
    obtain ⟨hweight, rfl⟩ := List.mem_replicate.mp hreplicate
    exact ⟨hmem, by omega⟩
  · rintro ⟨hmem, hweight⟩
    exact ⟨target, hmem, List.mem_replicate.mpr ⟨by omega, rfl⟩⟩

variable (attempts) in
/-- The strategy sees all primary targets, or all backup targets when there is no
primary one or the attempts are past them. Either way it sees some target. -/
theorem candidates_cases (h : healthy ≠ []) :
    (candidates attempts healthy = healthy.filter Target.isPrimary ∧
      healthy.filter Target.isPrimary ≠ [] ∧
        ((healthy.filter fun t => !t.isPrimary) = [] ∨
          attempts ≤ (healthy.filter Target.isPrimary).length)) ∨
    (candidates attempts healthy = (healthy.filter fun t => !t.isPrimary) ∧
      (healthy.filter fun t => !t.isPrimary) ≠ [] ∧
        (healthy.filter Target.isPrimary = [] ∨
          (healthy.filter Target.isPrimary).length < attempts)) := by
  by_cases hprimary : healthy.filter Target.isPrimary = []
  · obtain ⟨t, ht⟩ := List.exists_mem_of_ne_nil healthy h
    have hbackup := List.filter_eq_nil_iff.mp hprimary t ht
    have hsecondary : (healthy.filter fun t => !t.isPrimary) ≠ [] :=
      List.ne_nil_of_mem (List.mem_filter.mpr ⟨ht, by simpa using hbackup⟩)
    have hempty := List.isEmpty_eq_false_iff.mpr hsecondary
    exact .inr ⟨by simp [candidates, hprimary, hempty], hsecondary, .inl hprimary⟩
  · have hsome := List.isEmpty_eq_false_iff.mpr hprimary
    by_cases hsecondary : (healthy.filter fun t => !t.isPrimary) = []
    · exact .inl ⟨by simp [candidates, hsome, hsecondary], hprimary, .inl hsecondary⟩
    · have hempty := List.isEmpty_eq_false_iff.mpr hsecondary
      by_cases hattempts : attempts ≤ (healthy.filter Target.isPrimary).length
      · exact .inl ⟨by simp [candidates, hsome, hempty, hattempts], hprimary, .inr hattempts⟩
      · exact .inr ⟨by simp [candidates, hsome, hempty, hattempts], hsecondary,
          .inr (Int.not_le.mp hattempts)⟩

theorem candidates_ne_nil (h : healthy ≠ []) : candidates attempts healthy ≠ [] := by
  rcases candidates_cases attempts h with ⟨heq, hne, -⟩ | ⟨heq, hne, -⟩
  · rwa [heq]
  · rwa [heq]

theorem mem_of_mem_candidates (h : target ∈ candidates attempts healthy) : target ∈ healthy := by
  have hne : healthy ≠ [] := by
    rintro rfl
    simp [candidates] at h
  rcases candidates_cases attempts hne with ⟨heq, -⟩ | ⟨heq, -⟩
  · rw [heq] at h
    exact List.mem_of_mem_filter h
  · rw [heq] at h
    exact List.mem_of_mem_filter h

/-- Every target is a candidate after some number of attempts. -/
theorem exists_mem_candidates (h : target ∈ healthy) :
    ∃ attempts, target ∈ candidates attempts healthy := by
  cases hprimary : target.isPrimary with
  | true =>
      refine ⟨0, ?_⟩
      have hmem := List.mem_filter.mpr ⟨h, hprimary⟩
      rcases candidates_cases 0 (List.ne_nil_of_mem h) with ⟨heq, -⟩ | ⟨-, -, hnone | hless⟩
      · rwa [heq]
      · rw [hnone] at hmem
        exact absurd hmem List.not_mem_nil
      · omega
  | false =>
      refine ⟨(healthy.filter Target.isPrimary).length + 1, ?_⟩
      have hmem : target ∈ healthy.filter fun t => !t.isPrimary :=
        List.mem_filter.mpr ⟨h, by rw [hprimary]; rfl⟩
      rcases candidates_cases ((healthy.filter Target.isPrimary).length + 1)
        (List.ne_nil_of_mem h) with ⟨-, -, hnone | hle⟩ | ⟨heq, -⟩
      · rw [hnone] at hmem
        exact absurd hmem List.not_mem_nil
      · omega
      · rwa [heq]

/-- A backup target is a candidate when there are only such targets, or when there
were more attempts than other targets. -/
theorem backup_of_mem_candidates (h : target ∈ candidates attempts healthy)
    (hbackup : target.backup = true) :
    (∀ t ∈ healthy, t.backup = true) ∨ (healthy.filter Target.isPrimary).length < attempts := by
  rcases candidates_cases attempts (List.ne_nil_of_mem (mem_of_mem_candidates h)) with
    ⟨heq, -⟩ | ⟨-, -, hnone | hless⟩
  · rw [heq] at h
    have hprimary := (List.mem_filter.mp h).2
    rw [Target.isPrimary, hbackup] at hprimary
    exact absurd hprimary nofun
  · refine .inl fun t ht => ?_
    have hnot := List.filter_eq_nil_iff.mp hnone t ht
    simpa [Target.isPrimary] using hnot
  · exact .inr hless

end Candidates

/-! ## What a choice does -/

section Choice

variable {state : GatewayState Predicate} {host : Str} {settings : BreakerSettings}

/-- A breaker is taken over, or it is a new one. -/
theorem breakerFor_cases (state : GatewayState Predicate) (host : Str)
    (settings : BreakerSettings) :
    (∃ wrapper, state.breakers.lookup host = some wrapper ∧
      breakerFor host settings state = (.ok wrapper.cb, state)) ∨
    breakerFor host settings state = (.ok state.nextBreaker, built host settings state) := by
  have hbuilt : (built host settings state).breakers.lookup host =
      some ⟨state.nextBreaker, settings⟩ := AList.lookup_insert _
  cases hlookup : state.breakers.lookup host with
  | none =>
      right
      simp [breakerFor, bind, Stateful.get, buildBreaker, Stateful.modify, hlookup, hbuilt, pure]
  | some wrapper =>
      by_cases hsettings : wrapper.settings = settings
      · left
        refine ⟨wrapper, rfl, ?_⟩
        simp [breakerFor, bind, Stateful.get, hlookup, hsettings, pure]
      · right
        simp [breakerFor, bind, Stateful.get, buildBreaker, Stateful.modify, hlookup, hsettings,
          hbuilt, pure]

/-- A choice with no target to choose from changes nothing. -/
theorem chooseTargetNg_of_empty {targets : List (Target Predicate)}
    {context : CallContext Predicate}
    (h : expand (targets.filter (eligible P state context)) = []) :
    chooseTargetNg P targets context state = (.ok none, state) := by
  have hget : (get : GatewayM Predicate _) state = (.ok state, state) := rfl
  rw [chooseTargetNg, bind_of_ok hget, h]
  rfl

/-- The state after a target was chosen: the strategy has run, and the breaker of
the target was there or has been built. -/
def Chosen (state : GatewayState Predicate) (target : Target Predicate) (cb : Nat)
    (after : GatewayState Predicate) : Prop :=
  ∃ balancer,
    (∃ wrapper, state.breakers.lookup target.host = some wrapper ∧ wrapper.cb = cb ∧
      after = { state with balancer }) ∨
    (cb = state.nextBreaker ∧
      ∃ settings, after = built target.host settings { state with balancer })

variable {targets : List (Target Predicate)} {context : CallContext Predicate}

/-- Otherwise the strategy selects a candidate, and its breaker is looked up. -/
theorem chooseTargetNg_of_select {target : Target Predicate} {balancer : BalancerState}
    (hne : expand (targets.filter (eligible P state context)) ≠ [])
    (hselect : context.targetsLoadBalancing.select P.toHashPlatform context.request
      (candidates context.attempts (expand (targets.filter (eligible P state context))))
      context.descriptorId context.attempts state.balancer = (.ok target, balancer)) :
    chooseTargetNg P targets context state =
      (do
        let settings ← ofExcept (context.clientConfig.breakerSettings P context.path)
        let cb ← breakerFor target.host settings
        return some (target, cb) : GatewayM Predicate (Option (Target Predicate × Nat)))
          { state with balancer } := by
  have hget : (get : GatewayM Predicate _) state = (.ok state, state) := rfl
  have hrun : onBalancer (context.targetsLoadBalancing.select P.toHashPlatform context.request
      (candidates context.attempts (expand (targets.filter (eligible P state context))))
      context.descriptorId context.attempts) state = (.ok target, { state with balancer }) := by
    rw [onBalancer, hselect]
  rw [chooseTargetNg, bind_of_ok hget, if_neg (by simpa using hne), bind_of_ok hrun]

/-- The choice fails only on durations that are out of range. -/
theorem chooseTargetNg_of_ne_nil
    (h : expand (targets.filter (eligible P state context)) ≠ []) :
    ∃ target ∈ candidates context.attempts (expand (targets.filter (eligible P state context))),
      (∃ e balancer, context.clientConfig.breakerSettings P context.path = .error e ∧
        chooseTargetNg P targets context state = (.error e, { state with balancer })) ∨
      ∃ cb after, chooseTargetNg P targets context state = (.ok (some (target, cb)), after) ∧
        Chosen state target cb after := by
  obtain ⟨target, balancer, hselect, hmem⟩ := LoadBalancing.yields_select P.toHashPlatform
    (candidates_ne_nil h) context.targetsLoadBalancing context.request context.descriptorId
    context.attempts state.balancer
  refine ⟨target, hmem, ?_⟩
  rw [chooseTargetNg_of_select P h hselect]
  cases context.clientConfig.breakerSettings P context.path with
  | error e => exact .inl ⟨e, balancer, rfl, rfl⟩
  | ok settings =>
      right
      have hok : (ofExcept (.ok settings) : GatewayM Predicate _) { state with balancer } =
          (.ok settings, { state with balancer }) := rfl
      rw [bind_of_ok hok]
      rcases breakerFor_cases { state with balancer } target.host settings with
        ⟨wrapper, hlookup, hbreaker⟩ | hbreaker
      · exact ⟨wrapper.cb, { state with balancer }, bind_of_ok hbreaker,
          balancer, .inl ⟨wrapper, hlookup, rfl, rfl⟩⟩
      · exact ⟨state.nextBreaker, built target.host settings { state with balancer },
          bind_of_ok hbreaker, balancer, .inr ⟨rfl, settings, rfl⟩⟩

/-- A choice answers nothing only when there is nothing to choose from. -/
theorem expand_eq_nil_of_none (h : (chooseTargetNg P targets context state).1 = .ok none) :
    expand (targets.filter (eligible P state context)) = [] := by
  by_contra hne
  obtain ⟨target, -, ⟨e, balancer, -, hrun⟩ | ⟨cb, after, hrun, -⟩⟩ :=
    chooseTargetNg_of_ne_nil P hne
  · rw [hrun] at h
    cases h
  · rw [hrun] at h
    cases h

/-- A target that is answered is a candidate. -/
theorem chooseTargetNg_of_some {target : Target Predicate} {cb : Nat}
    (h : (chooseTargetNg P targets context state).1 = .ok (some (target, cb))) :
    target ∈ candidates context.attempts (expand (targets.filter (eligible P state context))) ∧
      Chosen state target cb (chooseTargetNg P targets context state).2 := by
  have hne : expand (targets.filter (eligible P state context)) ≠ [] := by
    intro hnil
    rw [chooseTargetNg_of_empty P hnil] at h
    cases h
  obtain ⟨chosen, hmem, ⟨e, balancer, -, hrun⟩ | ⟨cb', after, hrun, hchosen⟩⟩ :=
    chooseTargetNg_of_ne_nil P hne
  · rw [hrun] at h
    cases h
  · rw [hrun] at h ⊢
    cases h
    exact ⟨hmem, hchosen⟩

/-- When the durations are in range there is an answer. -/
theorem exists_chooseTargetNg_eq_ok {settings : BreakerSettings}
    (h : context.clientConfig.breakerSettings P context.path = .ok settings) :
    ∃ answer, (chooseTargetNg P targets context state).1 = .ok answer := by
  by_cases hne : expand (targets.filter (eligible P state context)) = []
  · exact ⟨none, by rw [chooseTargetNg_of_empty P hne]⟩
  · obtain ⟨target, -, ⟨e, balancer, herror, -⟩ | ⟨cb, after, hrun, -⟩⟩ :=
      chooseTargetNg_of_ne_nil P hne
    · rw [h] at herror
      cases herror
    · exact ⟨some (target, cb), by rw [hrun]⟩

end Choice

/-- The choice is sound and complete. When no weight is below one it answers
nothing exactly when no target can be chosen. A target that it answers can be
chosen, and it is a backup target only if there is no other one or the attempts
are past the others. When the durations of the client are in range it does
answer. -/
theorem chooseTargetNg_sound_and_complete {targets : List (Target Predicate)}
    (h : ∀ t ∈ targets, 1 ≤ t.weight) (context : CallContext Predicate)
    (state : GatewayState Predicate) :
    ((chooseTargetNg P targets context state).1 = .ok none ↔
      ∀ t ∈ targets, eligible P state context t = false) ∧
    (∀ target cb, (chooseTargetNg P targets context state).1 = .ok (some (target, cb)) →
      target ∈ targets ∧ eligible P state context target = true ∧
        (target.backup = true →
          (∀ t ∈ targets, eligible P state context t = true → t.backup = true) ∨
            ((expand (targets.filter (eligible P state context))).filter
              Target.isPrimary).length < context.attempts)) ∧
    (∀ settings, context.clientConfig.breakerSettings P context.path = .ok settings →
      ∃ answer, (chooseTargetNg P targets context state).1 = .ok answer) := by
  have hmem : ∀ t, t ∈ expand (targets.filter (eligible P state context)) ↔
      t ∈ targets ∧ eligible P state context t = true := by
    intro t
    rw [mem_expand, List.mem_filter, and_iff_left_iff_imp]
    intro ht
    exact h t ht.1
  refine ⟨?_, ?_, fun settings hsettings => exists_chooseTargetNg_eq_ok P hsettings⟩
  · constructor
    · intro hnone t ht
      have hnil := expand_eq_nil_of_none P hnone
      by_contra hchosen
      have hin := (hmem t).mpr ⟨ht, by simpa using hchosen⟩
      rw [hnil] at hin
      exact absurd hin List.not_mem_nil
    · intro hnone
      have hnil : expand (targets.filter (eligible P state context)) = [] := by
        refine List.eq_nil_iff_forall_not_mem.mpr fun t ht => ?_
        obtain ⟨hin, hchosen⟩ := (hmem t).mp ht
        rw [hnone t hin] at hchosen
        exact absurd hchosen nofun
      rw [chooseTargetNg_of_empty P hnil]
  · intro target cb hsome
    obtain ⟨hcandidate, -⟩ := chooseTargetNg_of_some P hsome
    obtain ⟨hin, hchosen⟩ := (hmem target).mp (mem_of_mem_candidates hcandidate)
    refine ⟨hin, hchosen, fun hbackup => ?_⟩
    rcases backup_of_mem_candidates hcandidate hbackup with hall | hless
    · exact .inl fun t ht hcan => hall t ((hmem t).mpr ⟨ht, hcan⟩)
    · exact .inr hless

/-! ## Every target can be chosen -/

/-- A configuration without time limits of its own. -/
def plainConfig : ClientConfig where
  maxErrors := 1
  callAndStreamTimeout := 0
  callTimeout := 0
  sampleInterval := 0
  customTimeouts := []

/-- A call that draws a target, whatever the predicates are. -/
def drawingCall (attempts : Int) : CallContext Predicate where
  descriptorId := []
  targetsLoadBalancing := .random
  clientConfig := plainConfig
  path := []
  request := {
    trackingId := []
    header := fun _ => none
    cookie := fun _ => none
    query := fun _ => none
    theIpAddress := []
    satisfies := fun _ => true }
  attempts := attempts
  now := 0

/-- A process that has done nothing and will draw one number again and again. -/
def idleBalancer (draw : Nat) : BalancerState where
  counters _ := 0
  inflight := ∅
  responseTimes := ∅
  draws _ := draw

/-- A target is drawn when its place is. -/
theorem applyRandom_of_getElem? {targets : List (Target Predicate)} {target : Target Predicate}
    {i : Nat} (h : targets[i]? = some target) :
    (LoadBalancing.applyRandom targets (idleBalancer i)).1 = .ok target := by
  obtain ⟨hlt, -⟩ := List.getElem?_eq_some_iff.mp h
  have hdraw : LoadBalancing.nextInt targets.length (idleBalancer i) =
      (.ok (i : Int), idleBalancer i) := by
    have hindex : i % targets.length = i := Nat.mod_eq_of_lt hlt
    rw [LoadBalancing.nextInt, if_neg (by omega)]
    simp [bind, Stateful.get, Stateful.modify, pure, idleBalancer, hindex]
  rw [LoadBalancing.applyRandom, bind_of_ok hdraw, LoadBalancing.apply_of_getElem? h]
  rfl

/-- Each target with a weight is chosen by some call, in some state of the
strategies, when no breaker is there and no health check has disabled it. -/
theorem exists_chooseTargetNg_eq_some {targets : List (Target Predicate)}
    {target : Target Predicate} (hmem : target ∈ targets) (hweight : 0 < target.weight) :
    ∃ (context : CallContext Predicate) (balancer : BalancerState),
      ∀ state : GatewayState Predicate, state.balancer = balancer → state.breakers = ∅ →
        state.badHealth = ∅ →
          (chooseTargetNg P targets context state).1 = .ok (some (target, state.nextBreaker)) := by
  obtain ⟨attempts, hcandidate⟩ := exists_mem_candidates (mem_expand.mpr ⟨hmem, hweight⟩)
  obtain ⟨i, hi⟩ := List.getElem?_of_mem hcandidate
  let context : CallContext Predicate := drawingCall attempts
  refine ⟨context, idleBalancer i, ?_⟩
  intro state hbalancer hbreakers hhealth
  have heligible : targets.filter (eligible P state context) = targets := by
    refine List.filter_eq_self.mpr fun t _ => ?_
    simp [eligible, context, drawingCall, hhealth, breakerOpen, hbreakers]
  have hne : expand (targets.filter (eligible P state context)) ≠ [] := by
    rw [heligible]
    exact List.ne_nil_of_mem (mem_expand.mpr ⟨hmem, hweight⟩)
  have hdraw := applyRandom_of_getElem? hi
  rw [← hbalancer] at hdraw
  rcases hrandom : LoadBalancing.applyRandom (candidates attempts (expand targets)) state.balancer
    with ⟨result, balancer⟩
  rw [hrandom] at hdraw
  have hselect : context.targetsLoadBalancing.select P.toHashPlatform context.request
      (candidates context.attempts (expand (targets.filter (eligible P state context))))
      context.descriptorId context.attempts state.balancer = (.ok target, balancer) := by
    rw [heligible, ← hdraw]
    exact hrandom
  have hsettings : (ofExcept (context.clientConfig.breakerSettings P context.path) :
      GatewayM Predicate _) { state with balancer } =
        (.ok ⟨1, 0, 0, 0⟩, { state with balancer }) := rfl
  rw [chooseTargetNg_of_select P hne hselect, bind_of_ok hsettings]
  rcases breakerFor_cases { state with balancer } target.host ⟨1, 0, 0, 0⟩ with
    ⟨wrapper, hlookup, -⟩ | hbreaker
  · rw [hbreakers] at hlookup
    exact absurd hlookup nofun
  · rw [bind_of_ok hbreaker]
    rfl

/-! ## An example -/

/-- A platform whose breakers open at the first failures in a row. -/
def plainPlatform : GatewayPlatform where
  stringHash text := text.length
  consistentHash hash buckets := hash.natAbs % buckets
  consistentHash_lt _ _ h := Nat.mod_lt _ h
  pathMatches pattern path := pattern == path
  isOpen settings outcomes _ := settings.maxFailures ≤ (outcomes.takeWhile (·.1)).length

/-- A route nobody has called. -/
def idleState : GatewayState Unit where
  balancer := idleBalancer 0
  badHealth := ∅
  breakers := ∅
  nextBreaker := 0
  logs _ := []
  calls := []

/-- One target that a health check has not disabled is answered. -/
theorem exists_chosen_of_example :
    ∃ answer, (chooseTargetNg plainPlatform [{ host := "a".toList, predicate := () }]
      (drawingCall 1) idleState).1 = .ok answer ∧ answer ≠ none := by
  have hweight : ∀ t ∈ [({ host := "a".toList, predicate := () } : Target Unit)], 1 ≤ t.weight := by
    decide
  obtain ⟨hnone, -, hok⟩ := chooseTargetNg_sound_and_complete plainPlatform hweight (drawingCall 1)
    idleState
  obtain ⟨answer, hanswer⟩ := hok ⟨1, 0, 0, 0⟩ rfl
  refine ⟨answer, hanswer, ?_⟩
  rintro rfl
  have heligible := hnone.mp hanswer _ List.mem_cons_self
  revert heligible
  decide

end ServiceDescriptorCircuitBreaker

end Otoroshi
