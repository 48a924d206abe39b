/-
# Do breakers isolate targets?

The breakers of a route are stored under the host of the target, and a route can
have several targets with one host: on two schemes, or with two addresses behind
one name. They share a breaker.

A run is any sequence of calls to the targets of a route, with their ends in any
order. `isolated_iff` says which lists of targets are isolated in all runs: those
in which a target that is called does not share its host with another one. Then
whether a breaker is open depends on nothing but the calls to its own target.
-/

import Otoroshi.Foundation.Run
import Otoroshi.Gateway.CircuitBreakers

namespace Otoroshi

open Stateful

variable {Predicate : Type}

/-- The targets are one place: scheme, host, port and address are the same. -/
def Target.SamePlace (target other : Target Predicate) : Prop :=
  target.scheme = other.scheme ∧ target.host = other.host ∧ target.port = other.port ∧
    target.ipAddress = other.ipAddress

instance (target other : Target Predicate) : Decidable (target.SamePlace other) :=
  inferInstanceAs (Decidable (_ ∧ _ ∧ _ ∧ _))

/-- What happens to the breakers of a route. -/
inductive GatewayEvent (Predicate : Type)
  /-- a call of a request, or the next attempt of one -/
  | attempt (context : CallContext Predicate)
  /-- one of the calls that are going on ends -/
  | complete (index : Nat) (failed : Bool) (time : Int)
  /-- the breakers of the route are reset -/
  | clear
  /-- calls of other routes and health checks -/
  | elsewhere (balancer : BalancerState) (badHealth : Finset Str)

namespace GatewayEvent

open ServiceDescriptorCircuitBreaker

variable (P : GatewayPlatform) (targets : List (Target Predicate))

/-- A call to the target that is chosen begins. -/
def attemptCall (context : CallContext Predicate) (state : GatewayState Predicate) :
    GatewayState Predicate :=
  let (answer, after) := chooseTargetNg P targets context state
  match answer with
  | .ok (some (target, cb)) => { after with calls := (cb, target) :: after.calls }
  | _ => after

/-- The breaker of a call takes note of its end. -/
def completeCall (index : Nat) (failed : Bool) (time : Int) (state : GatewayState Predicate) :
    GatewayState Predicate :=
  match state.calls[index]? with
  | none => state
  | some (cb, target) =>
      { state with
        calls := state.calls.eraseIdx index
        logs := Function.update state.logs cb (⟨target, failed, time⟩ :: state.logs cb) }

/-- What an event does. -/
def run : GatewayEvent Predicate → GatewayState Predicate → GatewayState Predicate
  | attempt context, state => attemptCall P targets context state
  | complete index failed time, state => completeCall index failed time state
  | clear, state => { state with breakers := ∅ }
  | elsewhere balancer badHealth, state => { state with balancer, badHealth }

/-- The state after some events. -/
def runAll (events : List (GatewayEvent Predicate)) (state : GatewayState Predicate) :
    GatewayState Predicate :=
  events.foldl (fun state event => event.run P targets state) state

end GatewayEvent

namespace GatewayState

/-- A route nobody has called yet. -/
structure Fresh (state : GatewayState Predicate) : Prop where
  breakers : state.breakers = ∅
  calls : state.calls = []
  logs : ∀ cb, state.logs cb = []

/-- The state as it would be if only the calls to one place had gone through the
breakers. -/
def onlyCallsTo (target : Target Predicate) (state : GatewayState Predicate) :
    GatewayState Predicate :=
  { state with logs := fun cb => (state.logs cb).filter fun record =>
      target.SamePlace record.target }

/-- The breaker of each target is open exactly when it would be with the calls to
that target alone. -/
def Isolated (P : GatewayPlatform) (targets : List (Target Predicate))
    (state : GatewayState Predicate) : Prop :=
  ∀ target ∈ targets, ∀ now,
    ServiceDescriptorCircuitBreaker.breakerOpen P state now target.host =
      ServiceDescriptorCircuitBreaker.breakerOpen P (state.onlyCallsTo target) now target.host

/-! ## What goes through a breaker -/

/-- A call to the target has gone through the breaker, or is going on. -/
def Uses (state : GatewayState Predicate) (cb : Nat) (target : Target Predicate) : Prop :=
  (∃ record ∈ state.logs cb, record.target = target) ∨ (cb, target) ∈ state.calls

/-- Each breaker stands under one host, and only calls to targets of that host go
through it. -/
structure Tidy (targets : List (Target Predicate)) (state : GatewayState Predicate) : Prop where
  lt_of_lookup : ∀ host wrapper, state.breakers.lookup host = some wrapper →
    wrapper.cb < state.nextBreaker
  lt_of_uses : ∀ cb target, state.Uses cb target → cb < state.nextBreaker
  host_of_uses : ∀ host wrapper, state.breakers.lookup host = some wrapper →
    ∀ target, state.Uses wrapper.cb target →
      target.host = host ∧ target ∈ targets ∧ 0 < target.weight
  host_eq : ∀ host wrapper host' wrapper', state.breakers.lookup host = some wrapper →
    state.breakers.lookup host' = some wrapper' → wrapper.cb = wrapper'.cb → host = host'

variable {targets : List (Target Predicate)} {state : GatewayState Predicate}

theorem Fresh.tidy (h : state.Fresh) (targets : List (Target Predicate)) : state.Tidy targets where
  lt_of_lookup host wrapper hlookup := by
    rw [h.breakers] at hlookup
    cases hlookup
  lt_of_uses cb target huses := by
    rw [Uses, h.logs, h.calls] at huses
    simp at huses
  host_of_uses host wrapper hlookup := by
    rw [h.breakers] at hlookup
    cases hlookup
  host_eq host wrapper host' wrapper' hlookup := by
    rw [h.breakers] at hlookup
    cases hlookup

theorem Tidy.elsewhere (h : state.Tidy targets) (balancer : BalancerState)
    (badHealth : Finset Str) : Tidy targets { state with balancer, badHealth } :=
  ⟨h.lt_of_lookup, h.lt_of_uses, h.host_of_uses, h.host_eq⟩

/-- Resetting the breakers forgets them all. -/
theorem Tidy.clear (h : state.Tidy targets) : Tidy targets { state with breakers := ∅ } :=
  ⟨nofun, h.lt_of_uses, nofun, nofun⟩

/-- Nothing has gone through a new breaker. -/
theorem Tidy.built (h : state.Tidy targets) (host : Str) (settings : BreakerSettings) :
    Tidy targets (ServiceDescriptorCircuitBreaker.built host settings state) := by
  have hlookup : ∀ host' wrapper,
      (ServiceDescriptorCircuitBreaker.built host settings state).breakers.lookup host' =
        some wrapper →
      (host' = host ∧ wrapper.cb = state.nextBreaker) ∨
        state.breakers.lookup host' = some wrapper := by
    intro host' wrapper hfound
    by_cases hhost : host' = host
    · rw [hhost, ServiceDescriptorCircuitBreaker.built, AList.lookup_insert] at hfound
      cases hfound
      exact .inl ⟨hhost, rfl⟩
    · rw [ServiceDescriptorCircuitBreaker.built, AList.lookup_insert_ne hhost] at hfound
      exact .inr hfound
  constructor
  · intro host' wrapper hfound
    rcases hlookup host' wrapper hfound with ⟨-, hnew⟩ | hold
    · exact hnew ▸ Nat.lt_succ_self _
    · exact Nat.lt_succ_of_lt (h.lt_of_lookup host' wrapper hold)
  · intro cb target huses
    exact Nat.lt_succ_of_lt (h.lt_of_uses cb target huses)
  · intro host' wrapper hfound target huses
    rcases hlookup host' wrapper hfound with ⟨-, hnew⟩ | hold
    · exact absurd (h.lt_of_uses _ target huses) (by omega)
    · exact h.host_of_uses host' wrapper hold target huses
  · intro host' wrapper host'' wrapper' hfound hfound' hcb
    rcases hlookup host' wrapper hfound with ⟨hhost, hnew⟩ | hold
    · rcases hlookup host'' wrapper' hfound' with ⟨hhost', -⟩ | hold'
      · rw [hhost, hhost']
      · have hlt := h.lt_of_lookup host'' wrapper' hold'
        omega
    · rcases hlookup host'' wrapper' hfound' with ⟨-, hnew'⟩ | hold'
      · have hlt := h.lt_of_lookup host' wrapper hold
        omega
      · exact h.host_eq host' wrapper host'' wrapper' hold hold' hcb

/-- A call goes through the breaker of its host. -/
theorem Tidy.call (h : state.Tidy targets) {target : Target Predicate} {wrapper : BreakerWrapper}
    (hlookup : state.breakers.lookup target.host = some wrapper) (hmem : target ∈ targets)
    (hweight : 0 < target.weight) :
    Tidy targets { state with calls := (wrapper.cb, target) :: state.calls } := by
  have huses : ∀ cb t, Uses { state with calls := (wrapper.cb, target) :: state.calls } cb t →
      (cb = wrapper.cb ∧ t = target) ∨ state.Uses cb t := by
    rintro cb t (hlog | hcall)
    · exact .inr (.inl hlog)
    · rcases List.mem_cons.mp hcall with heq | hcall
      · exact .inl (Prod.mk.inj heq)
      · exact .inr (.inr hcall)
  refine ⟨h.lt_of_lookup, ?_, ?_, h.host_eq⟩
  · intro cb t ht
    rcases huses cb t ht with ⟨rfl, -⟩ | hold
    · exact h.lt_of_lookup target.host wrapper hlookup
    · exact h.lt_of_uses cb t hold
  · intro host wrapper' hfound t ht
    rcases huses wrapper'.cb t ht with ⟨hcb, rfl⟩ | hold
    · exact ⟨h.host_eq _ wrapper host wrapper' hlookup hfound hcb.symm, hmem, hweight⟩
    · exact h.host_of_uses host wrapper' hfound t hold

/-- The end of a call is noted where the call was. -/
theorem Tidy.complete (h : state.Tidy targets) (index : Nat) (failed : Bool) (time : Int) :
    Tidy targets (GatewayEvent.completeCall index failed time state) := by
  rw [GatewayEvent.completeCall]
  split
  · exact h
  · rename_i cb target hcall
    have hmem : (cb, target) ∈ state.calls := List.mem_of_getElem? hcall
    have huses : ∀ cb' t, Uses { state with
        calls := state.calls.eraseIdx index
        logs := Function.update state.logs cb (⟨target, failed, time⟩ :: state.logs cb) } cb' t →
        state.Uses cb' t := by
      rintro cb' t (⟨record, hrecord, rfl⟩ | hrest)
      · dsimp only at hrecord
        by_cases hcb : cb' = cb
        · rw [hcb] at hrecord ⊢
          rw [Function.update_self, List.mem_cons] at hrecord
          rcases hrecord with rfl | hold
          · exact .inr hmem
          · exact .inl ⟨record, hold, rfl⟩
        · rw [Function.update_of_ne hcb] at hrecord
          exact .inl ⟨record, hrecord, rfl⟩
      · exact .inr (List.mem_of_mem_eraseIdx hrest)
    exact ⟨h.lt_of_lookup, fun cb' t ht => h.lt_of_uses cb' t (huses cb' t ht),
      fun host wrapper hfound t ht => h.host_of_uses host wrapper hfound t (huses _ t ht),
      h.host_eq⟩

/-- A choice leaves a tidy state, with the breaker of the target under its host. -/
theorem Tidy.chosen (h : state.Tidy targets) {target : Target Predicate} {cb : Nat}
    {after : GatewayState Predicate}
    (hchosen : ServiceDescriptorCircuitBreaker.Chosen state target cb after) :
    Tidy targets after ∧
      ∃ wrapper, after.breakers.lookup target.host = some wrapper ∧ wrapper.cb = cb := by
  obtain ⟨balancer, ⟨wrapper, hlookup, hcb, rfl⟩ | ⟨rfl, settings, rfl⟩⟩ := hchosen
  · exact ⟨h.elsewhere balancer state.badHealth, wrapper, hlookup, hcb⟩
  · exact ⟨(h.elsewhere balancer state.badHealth).built target.host settings,
      ⟨state.nextBreaker, settings⟩, AList.lookup_insert _, rfl⟩

variable {P : GatewayPlatform}

theorem Tidy.attempt (h : state.Tidy targets) (context : CallContext Predicate) :
    Tidy targets (GatewayEvent.attemptCall P targets context state) := by
  open ServiceDescriptorCircuitBreaker in
  rw [GatewayEvent.attemptCall]
  by_cases hne : expand (targets.filter (eligible P state context)) = []
  · rw [chooseTargetNg_of_empty P hne]
    exact h
  · obtain ⟨target, hcandidate, ⟨e, balancer, -, hrun⟩ | ⟨cb, after, hrun, hchosen⟩⟩ :=
      chooseTargetNg_of_ne_nil P hne
    · rw [hrun]
      exact h.elsewhere balancer state.badHealth
    · rw [hrun]
      obtain ⟨hafter, wrapper, hlookup, rfl⟩ := h.chosen hchosen
      obtain ⟨hmem, hweight⟩ := mem_expand.mp (mem_of_mem_candidates hcandidate)
      exact hafter.call hlookup (List.mem_of_mem_filter hmem) hweight

/-- One event keeps the state tidy. -/
theorem Tidy.run (h : state.Tidy targets) (event : GatewayEvent Predicate) :
    Tidy targets (event.run P targets state) := by
  cases event with
  | attempt context => exact h.attempt context
  | complete index failed time => exact h.complete index failed time
  | clear => exact h.clear
  | elsewhere balancer badHealth => exact h.elsewhere balancer badHealth

/-- So does a whole run. -/
theorem Tidy.runAll (h : state.Tidy targets) (events : List (GatewayEvent Predicate)) :
    Tidy targets (GatewayEvent.runAll P targets events state) := by
  induction events generalizing state with
  | nil => exact h
  | cons event events ih => exact ih (h.run event)

/-- In a tidy state targets are isolated if those that are called share no host. -/
theorem Tidy.isolated (h : state.Tidy targets)
    (hhosts : ∀ target ∈ targets, ∀ other ∈ targets, 0 < other.weight →
      target.host = other.host → target.SamePlace other) : state.Isolated P targets := by
  intro target htarget now
  cases hlookup : state.breakers.lookup target.host with
  | none => simp [ServiceDescriptorCircuitBreaker.breakerOpen, onlyCallsTo, hlookup]
  | some wrapper =>
      have hown : (state.logs wrapper.cb).filter (fun record => target.SamePlace record.target) =
          state.logs wrapper.cb := by
        refine List.filter_eq_self.mpr fun record hrecord => ?_
        obtain ⟨hhost, hmem, hweight⟩ := h.host_of_uses target.host wrapper hlookup record.target
          (.inl ⟨record, hrecord, rfl⟩)
        exact decide_eq_true (hhosts target htarget record.target hmem hweight hhost.symm)
      simp [ServiceDescriptorCircuitBreaker.breakerOpen, onlyCallsTo, hlookup, hown]

/-- A platform whose breakers open at any failure. -/
def touchyPlatform : GatewayPlatform :=
  { ServiceDescriptorCircuitBreaker.plainPlatform with
    isOpen := fun _ outcomes _ => outcomes.any (·.1) }

/-- A failed call opens the breaker for every target of the host. -/
theorem exists_not_isolated {target other : Target Predicate} (htarget : target ∈ targets)
    (hother : other ∈ targets) (hweight : 0 < other.weight) (hhost : target.host = other.host)
    (hplace : ¬ target.SamePlace other) (hfresh : state.Fresh) :
    ∃ events, ¬ (GatewayEvent.runAll touchyPlatform targets events state).Isolated
      touchyPlatform targets := by
  obtain ⟨context, balancer, hchoice⟩ :=
    ServiceDescriptorCircuitBreaker.exists_chooseTargetNg_eq_some touchyPlatform hother hweight
  let idle : GatewayState Predicate := { state with balancer, badHealth := ∅ }
  have hanswer := hchoice idle rfl hfresh.breakers rfl
  obtain ⟨-, balancer', ⟨wrapper, hlookup, -⟩ | ⟨-, settings, hafter⟩⟩ :=
    ServiceDescriptorCircuitBreaker.chooseTargetNg_of_some touchyPlatform hanswer
  · have hnone : idle.breakers = ∅ := hfresh.breakers
    rw [hnone] at hlookup
    exact absurd hlookup nofun
  · refine ⟨[.elsewhere balancer ∅, .attempt context, .complete 0 true 0], ?_⟩
    have hrun : ServiceDescriptorCircuitBreaker.chooseTargetNg touchyPlatform targets context idle =
        (.ok (some (other, idle.nextBreaker)),
          ServiceDescriptorCircuitBreaker.built other.host settings
            { idle with balancer := balancer' }) := Prod.ext hanswer hafter
    have hattempt : GatewayEvent.attemptCall touchyPlatform targets context idle =
        { ServiceDescriptorCircuitBreaker.built other.host settings
            { idle with balancer := balancer' } with
          calls := (idle.nextBreaker, other) :: idle.calls } := by
      rw [GatewayEvent.attemptCall, hrun]
      rfl
    intro hisolated
    have hopen := hisolated target htarget 0
    have hlast : GatewayEvent.runAll touchyPlatform targets
        [.elsewhere balancer ∅, .attempt context, .complete 0 true 0] state =
          GatewayEvent.completeCall 0 true 0
            (GatewayEvent.attemptCall touchyPlatform targets context idle) := rfl
    rw [hlast, hattempt, hhost] at hopen
    -- the breaker has the failure of the other target, and nothing of this one
    simp [GatewayEvent.completeCall, ServiceDescriptorCircuitBreaker.breakerOpen, onlyCallsTo,
      ServiceDescriptorCircuitBreaker.built, touchyPlatform, hplace] at hopen
    obtain ⟨record, hrecord, -⟩ := hopen
    have hnone : idle.logs idle.nextBreaker = [] := hfresh.logs _
    rw [hnone] at hrecord
    exact absurd hrecord List.not_mem_nil

/-- The targets of a route are isolated in all states of all runs exactly when a
target that can be called is the same place as every target of its host. -/
theorem isolated_iff (targets : List (Target Predicate)) :
    (∀ (P : GatewayPlatform) (state : GatewayState Predicate)
        (events : List (GatewayEvent Predicate)),
      state.Fresh → (GatewayEvent.runAll P targets events state).Isolated P targets) ↔
    ∀ target ∈ targets, ∀ other ∈ targets, 0 < other.weight → target.host = other.host →
      target.SamePlace other := by
  constructor
  · intro hall target htarget other hother hweight hhost
    by_contra hplace
    let idle : GatewayState Predicate := ⟨ServiceDescriptorCircuitBreaker.idleBalancer 0, ∅, ∅, 0,
      fun _ => [], []⟩
    have hfresh : idle.Fresh := ⟨rfl, rfl, fun _ => rfl⟩
    obtain ⟨events, hnot⟩ := exists_not_isolated htarget hother hweight hhost hplace hfresh
    exact hnot (hall touchyPlatform idle events hfresh)
  · intro hhosts P state events hfresh
    exact ((hfresh.tidy targets).runAll events).isolated hhosts

/-- Two targets on one host, with different schemes. -/
def twoSchemes : List (Target Unit) :=
  [{ host := "a".toList, scheme := "https".toList, predicate := () },
    { host := "a".toList, scheme := "http".toList, predicate := () }]

/-- The first call fails. The second target has not been called, and it can no
longer be chosen. -/
theorem exists_shut_out :
    let state := GatewayEvent.runAll ServiceDescriptorCircuitBreaker.plainPlatform twoSchemes
      [.attempt (ServiceDescriptorCircuitBreaker.drawingCall 1), .complete 0 true 0]
      ServiceDescriptorCircuitBreaker.idleState
    (state.logs 0).map (·.target.scheme) = ["https".toList] ∧
      (ServiceDescriptorCircuitBreaker.chooseTargetNg ServiceDescriptorCircuitBreaker.plainPlatform
        twoSchemes (ServiceDescriptorCircuitBreaker.drawingCall 1) state).1 = .ok none := by
  decide

end GatewayState

end Otoroshi
