/-
# From the chosen target to the backend that is called

A request looks for a target among the targets of its route, or among targets
that a plugin has put into the attributes of the request. The load balancing works
on conversions of these targets. When it has chosen one, `getBackend` looks for
the target with the id that the conversion carries as its tag, and that one is
called.

This is the target that was chosen if ids are not shared: `resolves_iff` says
exactly when. The attributes are read a second time by `getBackend`, and websocket
calls do not read them the first time: `inStep_iff` says when they come to the
same.
-/

import Otoroshi.Gateway.CircuitBreakers

namespace Otoroshi

variable {Predicate : Type} [DecidableEq Predicate]

structure NgBackend (Predicate : Type) where
  targets : List (NgTarget Predicate)
  loadBalancing : LoadBalancing

def NgBackend.allTargets (backend : NgBackend Predicate) : List (NgTarget Predicate) :=
  backend.targets.eraseDups

/-- The attributes of a request that the choice of a target reads. -/
structure RequestAttrs (Predicate : Type) where
  preExtractedRequestTarget : Option (Target Predicate) := none
  preExtractedRequestTargets : Option (List (NgTarget Predicate)) := none
  possibleBackends : Option (NgBackend Predicate) := none

namespace ProxyEngine

variable (backend : NgBackend Predicate) (attrs : RequestAttrs Predicate)

/-- The targets that plugins have found, or those of the route. -/
def targetsOf : List (NgTarget Predicate) :=
  attrs.preExtractedRequestTargets.getD backend.allTargets

/-- `getBackend`. -/
def getBackend (target : Target Predicate) : Except GatewayException (NgTarget Predicate) :=
  match target.tags.head? with
  | none => .error .noSuchElement
  | some id =>
      match (targetsOf backend attrs).find? fun b => b.id == id with
      | some b => .ok b
      | none => .error .noSuchElement

/-! ## Is it the target that was chosen? -/

section Resolves

variable {backend attrs}

/-- The first of the targets with an id. -/
def FirstWithId (targets : List (NgTarget Predicate)) (id : Str) (first : NgTarget Predicate) :
    Prop :=
  first.id = id ∧ ∃ before after, targets = before ++ first :: after ∧ ∀ b ∈ before, b.id ≠ id

theorem getBackend_toTarget (target : NgTarget Predicate) (found : NgTarget Predicate) :
    getBackend backend attrs target.toTarget = .ok found ↔
      FirstWithId (targetsOf backend attrs) target.id found := by
  have hfind : getBackend backend attrs target.toTarget = .ok found ↔
      ((targetsOf backend attrs).find? fun b => b.id == target.id) = some found := by
    simp only [getBackend, NgTarget.tags_toTarget, List.head?_cons]
    cases (targetsOf backend attrs).find? fun b => b.id == target.id with
    | none => simp
    | some b => simp
  rw [hfind, List.find?_eq_some_iff_append, FirstWithId]
  simp

omit [DecidableEq Predicate] in
/-- Every id of the list leads to some target. -/
theorem exists_firstWithId {targets : List (NgTarget Predicate)} {target : NgTarget Predicate}
    (h : target ∈ targets) : ∃ first ∈ targets, FirstWithId targets target.id first := by
  cases hfind : targets.find? fun b => b.id == target.id with
  | none => exact absurd (List.find?_eq_none.mp hfind target h) (by simp)
  | some first =>
      refine ⟨first, List.mem_of_find?_eq_some hfind, ?_⟩
      have hfirst := List.find?_eq_some_iff_append.mp hfind
      simpa [FirstWithId] using hfirst

/-- Whatever is chosen by the breakers of the route, the backend that is found for
it is a target of the list that converts to it. -/
def Resolves (P : GatewayPlatform) (backend : NgBackend Predicate)
    (attrs : RequestAttrs Predicate) : Prop :=
  ∀ (context : CallContext Predicate) (state : GatewayState Predicate) target cb,
    (ServiceDescriptorCircuitBreaker.chooseTargetNg P
      ((targetsOf backend attrs).map NgTarget.toTarget) context state).1 =
        .ok (some (target, cb)) →
    ∃ found ∈ targetsOf backend attrs, getBackend backend attrs target = .ok found ∧
      found.toTarget = target

/-- This holds exactly when the first target with the id of a target that can be
called converts to the same as that target. -/
theorem resolves_iff (P : GatewayPlatform) (backend : NgBackend Predicate)
    (attrs : RequestAttrs Predicate) :
    Resolves P backend attrs ↔
      ∀ target ∈ targetsOf backend attrs, 0 < target.weight →
        ∀ first, FirstWithId (targetsOf backend attrs) target.id first →
          first.toTarget = target.toTarget := by
  constructor
  · intro hresolves target hmem hweight first hfirst
    obtain ⟨context, balancer, hchosen⟩ :=
      ServiceDescriptorCircuitBreaker.exists_chooseTargetNg_eq_some P
        (List.mem_map_of_mem (f := NgTarget.toTarget) hmem) hweight
    have hanswer := hchosen ⟨balancer, ∅, ∅, 0, fun _ => [], []⟩ rfl rfl rfl
    obtain ⟨found, -, hfound, hsame⟩ := hresolves context _ _ _ hanswer
    have hok := (getBackend_toTarget target first).mpr hfirst
    rw [hfound] at hok
    cases hok
    exact hsame
  · intro hfirst context state target cb hanswer
    obtain ⟨hcandidate, -⟩ := ServiceDescriptorCircuitBreaker.chooseTargetNg_of_some P hanswer
    obtain ⟨hin, hweight⟩ := ServiceDescriptorCircuitBreaker.mem_expand.mp
      (ServiceDescriptorCircuitBreaker.mem_of_mem_candidates hcandidate)
    obtain ⟨chosen, hmem, rfl⟩ := List.mem_map.mp (List.mem_of_mem_filter hin)
    obtain ⟨found, hfound, hid⟩ := exists_firstWithId hmem
    exact ⟨found, hfound, (getBackend_toTarget chosen found).mpr hid,
      hfirst chosen hmem hweight found hid⟩

end Resolves

/-! ## Http and websocket calls -/

section Selection

/-- What a call gets its target from: a target that a plugin has found, or the load
balancing with some candidates. -/
inductive Selection (Predicate : Type)
  | preset (target : Target Predicate)
  | balanced (candidates : List (Target Predicate))
  deriving DecidableEq

/-- The target can come out of the selection. -/
def Selection.Chooses : Selection Predicate → Target Predicate → Prop
  | preset target, chosen => chosen = target
  | balanced candidates, chosen => chosen ∈ candidates

/-- Without circuit breakers both kinds of calls choose in the same way, among the
targets whose predicate the request meets. -/
def unguarded (backend : NgBackend Predicate) (attrs : RequestAttrs Predicate)
    (request : BalancerRequest Predicate) : Selection Predicate :=
  match attrs.preExtractedRequestTarget with
  | some target => .preset target
  | none => .balanced (ServiceDescriptorCircuitBreaker.expand
      (((targetsOf backend attrs).map NgTarget.toTarget).filter fun t =>
        request.satisfies t.predicate))

/-- `callGenNg`, which reads the attributes before it chooses. -/
def guarded (targets : List (Target Predicate)) (attrs : RequestAttrs Predicate) :
    Selection Predicate :=
  match attrs.preExtractedRequestTarget with
  | some target => .preset target
  | none => .balanced targets

/-- `_route.copy(backend = b)` for a backend that a plugin has put there. -/
def backendOf (backend : NgBackend Predicate) (attrs : RequestAttrs Predicate) :
    NgBackend Predicate :=
  attrs.possibleBackends.getD backend

/-- `callTarget`. -/
def callTarget (useCircuitBreakers : Bool) (backend : NgBackend Predicate)
    (attrs : RequestAttrs Predicate) (request : BalancerRequest Predicate) :
    Selection Predicate :=
  let backend := backendOf backend attrs
  if useCircuitBreakers then guarded ((targetsOf backend attrs).map NgTarget.toTarget) attrs
  else unguarded backend attrs request

/-- `callWsTarget`. With circuit breakers it goes by the targets of the route. -/
def callWsTarget (useCircuitBreakers : Bool) (backend : NgBackend Predicate)
    (attrs : RequestAttrs Predicate) (request : BalancerRequest Predicate) :
    Selection Predicate :=
  let backend := backendOf backend attrs
  if useCircuitBreakers then guarded (backend.allTargets.map NgTarget.toTarget) attrs
  else unguarded backend attrs request

/-- Each target that can come out leads to a backend. -/
def Resolvable (backend : NgBackend Predicate) (attrs : RequestAttrs Predicate)
    (selection : Selection Predicate) : Prop :=
  ∀ target, selection.Chooses target →
    ∃ found, getBackend (backendOf backend attrs) attrs target = .ok found

/-- Http and websocket calls choose from the same candidates, and all of them lead
to backends. -/
def InStep (useCircuitBreakers : Bool) (backend : NgBackend Predicate)
    (attrs : RequestAttrs Predicate) (request : BalancerRequest Predicate) : Prop :=
  callTarget useCircuitBreakers backend attrs request =
      callWsTarget useCircuitBreakers backend attrs request ∧
    Resolvable backend attrs (callTarget useCircuitBreakers backend attrs request) ∧
      Resolvable backend attrs (callWsTarget useCircuitBreakers backend attrs request)

variable {backend : NgBackend Predicate} {attrs : RequestAttrs Predicate}

/-- Conversions of the targets that are looked through lead to backends. -/
theorem exists_getBackend_toTarget {target : NgTarget Predicate}
    (h : target ∈ targetsOf backend attrs) :
    ∃ found, getBackend backend attrs target.toTarget = .ok found := by
  obtain ⟨first, -, hfirst⟩ := exists_firstWithId h
  exact ⟨first, (getBackend_toTarget target first).mpr hfirst⟩

/-- A target leads to a backend when its first tag is the id of one. -/
theorem exists_getBackend_iff {target : Target Predicate} :
    (∃ found, getBackend backend attrs target = .ok found) ↔
      ∃ b ∈ targetsOf backend attrs, target.tags.head? = some b.id := by
  constructor
  · rintro ⟨found, hfound⟩
    rw [getBackend] at hfound
    split at hfound
    · cases hfound
    · rename_i id hid
      split at hfound
      · rename_i b hfind
        have hb : b.id = id := by simpa using List.find?_some hfind
        exact ⟨b, List.mem_of_find?_eq_some hfind, by rw [hid, hb]⟩
      · cases hfound
  · rintro ⟨b, hmem, hid⟩
    obtain ⟨found, hfound⟩ := exists_getBackend_toTarget hmem
    refine ⟨found, ?_⟩
    rw [← hfound, getBackend, hid, getBackend, NgTarget.tags_toTarget, List.head?_cons]

/-- Candidates that are conversions of the targets that are looked through lead to
backends. -/
theorem resolvable_balanced {candidates : List (Target Predicate)}
    (h : ∀ t ∈ candidates, t ∈ (targetsOf (backendOf backend attrs) attrs).map NgTarget.toTarget) :
    Resolvable backend attrs (.balanced candidates) := by
  intro target hchosen
  obtain ⟨b, hmem, rfl⟩ := List.mem_map.mp (h target hchosen)
  exact exists_getBackend_toTarget hmem

theorem resolvable_preset_iff {target : Target Predicate} :
    Resolvable backend attrs (.preset target) ↔
      ∃ b ∈ targetsOf (backendOf backend attrs) attrs, target.tags.head? = some b.id := by
  rw [← exists_getBackend_iff]
  constructor
  · intro h
    exact h target rfl
  · rintro h chosen rfl
    exact h

/-- The two kinds of calls are in step exactly when a target that a plugin has
found has the id of one of the targets that are looked through, and when, with
circuit breakers, a list of targets that a plugin has found converts to the same
as the targets of the route. -/
theorem inStep_iff (useCircuitBreakers : Bool) (backend : NgBackend Predicate)
    (attrs : RequestAttrs Predicate) (request : BalancerRequest Predicate) :
    InStep useCircuitBreakers backend attrs request ↔
      (∀ target ∈ attrs.preExtractedRequestTarget,
        ∃ b ∈ targetsOf (backendOf backend attrs) attrs, target.tags.head? = some b.id) ∧
      (attrs.preExtractedRequestTarget = none → useCircuitBreakers = true →
        ∀ found ∈ attrs.preExtractedRequestTargets, found.map NgTarget.toTarget =
          (backendOf backend attrs).allTargets.map NgTarget.toTarget) := by
  cases hpreset : attrs.preExtractedRequestTarget with
  | some target =>
      have hhttp : callTarget useCircuitBreakers backend attrs request = .preset target := by
        cases useCircuitBreakers <;> simp [callTarget, guarded, unguarded, hpreset]
      have hws : callWsTarget useCircuitBreakers backend attrs request = .preset target := by
        cases useCircuitBreakers <;> simp [callWsTarget, guarded, unguarded, hpreset]
      rw [InStep, hhttp, hws, resolvable_preset_iff]
      simp
  | none =>
      cases useCircuitBreakers with
      | false =>
          have hhttp : callTarget false backend attrs request =
              unguarded (backendOf backend attrs) attrs request := rfl
          have hws : callWsTarget false backend attrs request =
              unguarded (backendOf backend attrs) attrs request := rfl
          have hresolvable : Resolvable backend attrs
              (unguarded (backendOf backend attrs) attrs request) := by
            rw [unguarded, hpreset]
            refine resolvable_balanced fun t ht => ?_
            exact List.mem_of_mem_filter (ServiceDescriptorCircuitBreaker.mem_expand.mp ht).1
          rw [InStep, hhttp, hws]
          simpa using hresolvable
      | true =>
          have hhttp : callTarget true backend attrs request = .balanced
              ((targetsOf (backendOf backend attrs) attrs).map NgTarget.toTarget) := by
            simp [callTarget, guarded, hpreset]
          have hws : callWsTarget true backend attrs request = .balanced
              ((backendOf backend attrs).allTargets.map NgTarget.toTarget) := by
            simp [callWsTarget, guarded, hpreset]
          have hsame : (∀ found ∈ attrs.preExtractedRequestTargets, found.map NgTarget.toTarget =
              (backendOf backend attrs).allTargets.map NgTarget.toTarget) ↔
              (targetsOf (backendOf backend attrs) attrs).map NgTarget.toTarget =
                (backendOf backend attrs).allTargets.map NgTarget.toTarget := by
            rw [targetsOf]
            cases attrs.preExtractedRequestTargets <;> simp
          rw [InStep, hhttp, hws, hsame, Selection.balanced.injEq]
          constructor
          · rintro ⟨heq, -, -⟩
            exact ⟨nofun, fun _ _ => heq⟩
          · rintro ⟨-, heq⟩
            have hresolvable : Resolvable backend attrs (.balanced
                ((targetsOf (backendOf backend attrs) attrs).map NgTarget.toTarget)) :=
              resolvable_balanced fun _ ht => ht
            rw [← heq rfl rfl]
            exact ⟨rfl, hresolvable, hresolvable⟩

end Selection

/-! ## Examples -/

/-- Targets of an older configuration: one host on two schemes, without tags. -/
def legacyTargets : List (Target Unit) :=
  [{ host := "a:81".toList, scheme := "http".toList, predicate := () },
    { host := "a:81".toList, scheme := "https".toList, predicate := () }]

/-- What they are converted to. -/
def convertedTargets : List (NgTarget Unit) :=
  [{ id := "a:81".toList, hostname := "a".toList, port := 81, tls := false, predicate := () },
    { id := "a:81".toList, hostname := "a".toList, port := 81, tls := true, predicate := () }]

example :
    legacyTargets.mapM
        (NgTarget.fromTarget fun c => if c.isDigit then some (c.toNat - 48) else none) =
      .ok convertedTargets := by
  decide

/-- The second target is chosen and the first one, which converts to something
else, is called. -/
theorem exists_resolved_to_other :
    let targets := convertedTargets.map NgTarget.toTarget
    let state := { ServiceDescriptorCircuitBreaker.idleState with
      balancer := ServiceDescriptorCircuitBreaker.idleBalancer 1 }
    ((ServiceDescriptorCircuitBreaker.chooseTargetNg ServiceDescriptorCircuitBreaker.plainPlatform
      targets (ServiceDescriptorCircuitBreaker.drawingCall 1) state).1.map fun answer =>
        answer.map fun chosen =>
          (chosen.1.scheme, getBackend ⟨convertedTargets, .random⟩ {} chosen.1)) =
      .ok (some ("https".toList, .ok
        { id := "a:81".toList, hostname := "a".toList, port := 81, tls := false,
          predicate := () })) := by
  decide

/-- A target that is found for the request by a plugin, and the target of the
route. -/
def foundTarget : NgTarget Unit where
  id := "found".toList
  hostname := "b".toList
  port := 80
  tls := false
  predicate := ()

def routeTarget : NgTarget Unit where
  id := "route".toList
  hostname := "a".toList
  port := 80
  tls := false
  predicate := ()

def anyRequest : BalancerRequest Unit where
  trackingId := []
  header _ := none
  cookie _ := none
  query _ := none
  theIpAddress := []
  satisfies _ := true

/-- A websocket call chooses the target of the route, and there is no backend for
it. -/
theorem callWsTarget_foundTarget :
    let backend := ⟨[routeTarget], .roundRobin⟩
    let attrs := { preExtractedRequestTargets := some [foundTarget] }
    callTarget true backend attrs anyRequest = .balanced [foundTarget.toTarget] ∧
      callWsTarget true backend attrs anyRequest = .balanced [routeTarget.toTarget] ∧
        getBackend backend attrs routeTarget.toTarget = .error .noSuchElement := by
  refine ⟨rfl, rfl, ?_⟩
  decide

end ProxyEngine

end Otoroshi
