/-
# Hooks before and after a request

A plugin can have a hook that runs before a request is handled and one that runs
after it. What the first one takes (a wasm vm, a place in a counter), the second
one gives back. The plugins whose `beforeRequest` is called are recorded in an
attribute of the request. There can be two chains of them, since the apikey of a
request can bring plugins of its own; both are put into one record, and the record
is what the `afterRequest` hooks are called for.

`handleRequest_hooks` says which hooks are called in a whole request. A plugin is
recorded before its `beforeRequest` is called, so one that fails is recorded too.
The record is gone through with the same walk as a chain, so it ends at the first
`afterRequest` that fails.
-/

import Otoroshi.Foundation.Stateful
import Otoroshi.Foundation.Walk

namespace Otoroshi

open Stateful

/-- How the call of a hook ends: its future succeeds or fails, or it throws before
there is a future. -/
inductive HookResult
  | completed
  | failed
  | thrown
  deriving DecidableEq

inductive Hook
  | beforeRequest
  | afterRequest
  deriving DecidableEq

/-- A plugin, with what its hooks do in the request. -/
structure NgRequestTransformer where
  usesCallbacks : Bool
  beforeRequest : HookResult
  afterRequest : HookResult
  deriving DecidableEq

namespace NgRequestTransformer

def result (plugin : NgRequestTransformer) : Hook → HookResult
  | .beforeRequest => plugin.beforeRequest
  | .afterRequest => plugin.afterRequest

end NgRequestTransformer

structure NgPluginWrapper where
  plugin : NgRequestTransformer
  instanceId : Int
  deriving DecidableEq

namespace NgPluginWrapper

def completes (hook : Hook) (wrapper : NgPluginWrapper) : Bool :=
  wrapper.plugin.result hook == .completed

end NgPluginWrapper

structure NgContextualPlugins where
  transformerPlugins : List NgPluginWrapper

def NgContextualPlugins.transformerPluginsWithCallbacks (plugins : NgContextualPlugins) :
    List NgPluginWrapper :=
  plugins.transformerPlugins.filter (·.plugin.usesCallbacks)

structure HookCall where
  hook : Hook
  wrapper : NgPluginWrapper
  deriving DecidableEq

/-- The attributes of a request that the hooks depend on, and the calls of hooks so
far. -/
structure RequestState where
  routeKey : Bool := false
  contextualPluginsKey : Option NgContextualPlugins := none
  calledBeforeRequestPluginsKey : Option (List NgPluginWrapper) := none
  hookCalls : List HookCall := []

/-- Why a request does not go on. -/
inductive Stop
  /-- an answer instead of the one of the backend -/
  | error
  /-- a failed future -/
  | exception
  /-- a promise that nobody completes -/
  | never
  deriving DecidableEq

namespace RequestState

variable (state : RequestState)

def calledBeforeRequestPlugins : List NgPluginWrapper :=
  state.calledBeforeRequestPluginsKey.getD []

/-- The wrappers whose hook has been called, in order. -/
def called (hook : Hook) : List NgPluginWrapper :=
  (state.hookCalls.filter (·.hook = hook)).map HookCall.wrapper

/-- The wrappers whose hook has been called and has completed. -/
def completed (hook : Hook) : List NgPluginWrapper :=
  (state.called hook).filter (·.completes hook)

/-- The buffer is there from the first chain on. -/
def openBuffer : RequestState :=
  { state with
    calledBeforeRequestPluginsKey := some state.calledBeforeRequestPlugins }

/-- Hooks are called one after the other. Before its `beforeRequest` a wrapper is
put into the buffer. -/
def noteCalls (hook : Hook) (wrappers : List NgPluginWrapper) : RequestState :=
  { state with
    calledBeforeRequestPluginsKey :=
      match hook with
      | .beforeRequest => state.calledBeforeRequestPluginsKey.map (· ++ wrappers)
      | .afterRequest => state.calledBeforeRequestPluginsKey
    hookCalls := state.hookCalls ++ wrappers.map (HookCall.mk hook) }

end RequestState

/-! ## Going through a chain -/

namespace ProxyEngine

section Chain

variable (hook : Hook)

def callHook (wrapper : NgPluginWrapper) : Stateful RequestState Stop HookResult := do
  modify (·.noteCalls hook [wrapper])
  pure (wrapper.plugin.result hook)

/-- A chain of one plugin. -/
def callSingle (wrapper : NgPluginWrapper) : Stateful RequestState Stop Unit := do
  match ← callHook hook wrapper with
  | .completed => pure ()
  | .failed => throw .error
  | .thrown => throw .exception

/-- What is thrown in a callback of a future is reported and forgotten. The promise
that the callback should have completed stays as it is. -/
def andThen (callback : Stateful RequestState Stop Unit) : Stateful RequestState Stop Unit :=
  fun state =>
    match callback state with
    | (.error .exception, after) => (.error .never, after)
    | answer => answer

/-- `next`, in a chain of several plugins. -/
def next : List NgPluginWrapper → Stateful RequestState Stop Unit
  | [] => pure ()
  | wrapper :: tail => do
      match ← callHook hook wrapper with
      | .thrown => throw .exception
      | .failed => throw .error
      | .completed => if tail.isEmpty then pure () else andThen (next tail)

def callPlugins : List NgPluginWrapper → Stateful RequestState Stop Unit
  | [] => pure ()
  | [wrapper] => callSingle hook wrapper
  | wrappers => next hook wrappers

end Chain

def callPluginsBeforeRequestCallback (plugins : NgContextualPlugins) :
    Stateful RequestState Stop Unit := do
  let wrappers := plugins.transformerPluginsWithCallbacks
  if wrappers.isEmpty then pure ()
  else
    modify RequestState.openBuffer
    callPlugins .beforeRequest wrappers

def callPluginsAfterRequestCallback : Stateful RequestState Stop Unit := do
  let state ← get
  callPlugins .afterRequest state.calledBeforeRequestPlugins

end ProxyEngine

open ProxyEngine

/-! ## A request -/

/-- The end of steps that call no hooks of these kinds. -/
inductive StepResult
  | done
  | error
  | exception
  deriving DecidableEq

def StepResult.run : StepResult → Stateful RequestState Stop Unit
  | .done => pure ()
  | .error => throw .error
  | .exception => throw .exception

/-- The plugins that come with the apikey of a request. -/
structure ApikeyPluginsFlow where
  flowCtxPlugins : NgContextualPlugins
  /-- `callPreRoutePlugins` and `callAccessValidatorPlugins` -/
  validated : StepResult
  merged : NgContextualPlugins

/-- What a request meets on its way. -/
structure RequestFlow where
  /-- up to `findRoute` -/
  found : StepResult
  /-- `handleRelayTraffic` and `contextualPlugins` -/
  relayed : StepResult
  firstCtxPlugins : NgContextualPlugins
  /-- `handleTenantCheck` and `checkGlobalMaintenance` -/
  checked : StepResult
  /-- `callPreRoutePlugins` and `callAccessValidatorPlugins` -/
  validated : StepResult
  apikeyPluginsFlow : Option ApikeyPluginsFlow
  /-- from `handleLegacyChecks` on -/
  proxied : StepResult

def handleApikeyPluginsFlow : Option ApikeyPluginsFlow → Stateful RequestState Stop Unit
  | none => pure ()
  | some flow => do
      callPluginsBeforeRequestCallback flow.flowCtxPlugins
      flow.validated.run
      modify fun state => { state with contextualPluginsKey := some flow.merged }

namespace RequestFlow

variable (request : RequestFlow)

/-- The request gets its route and its plugins. -/
def identify : Stateful RequestState Stop Unit := do
  request.found.run
  modify fun state => { state with routeKey := true }
  request.relayed.run
  modify fun state => { state with contextualPluginsKey := some request.firstCtxPlugins }

/-- The request is checked and sent to its backend. -/
def proceed : Stateful RequestState Stop Unit := do
  request.checked.run
  callPluginsBeforeRequestCallback request.firstCtxPlugins
  request.validated.run
  handleApikeyPluginsFlow request.apikeyPluginsFlow
  request.proxied.run

def steps : Stateful RequestState Stop Unit := do
  request.identify
  request.proceed

/-- The future of the result is completed. -/
def answered : Bool :=
  (request.steps {}).1 != .error .never

/-- `handleRequest`: when the result is there, the `afterRequest` hooks are called,
and their own result is not looked at. -/
def handleRequest : RequestState :=
  let state := (request.steps {}).2
  if request.answered && state.routeKey && state.contextualPluginsKey.isSome then
    (callPluginsAfterRequestCallback state).2
  else state

end RequestFlow

/-! ## Which hooks a chain calls -/

namespace RequestState

variable {state : RequestState} {hook other : Hook} {wrappers : List NgPluginWrapper}

theorem noteCalls_nil : state.noteCalls hook [] = state := by
  cases hook with
  | beforeRequest => simp [noteCalls]
  | afterRequest => simp [noteCalls]

theorem noteCalls_cons (wrapper : NgPluginWrapper) (wrappers : List NgPluginWrapper) :
    state.noteCalls hook (wrapper :: wrappers) =
      (state.noteCalls hook [wrapper]).noteCalls hook wrappers := by
  cases hook with
  | beforeRequest => simp [noteCalls, Function.comp_def]
  | afterRequest => simp [noteCalls]

theorem called_noteCalls_self :
    (state.noteCalls hook wrappers).called hook = state.called hook ++ wrappers := by
  simp [called, noteCalls, List.filter_map, Function.comp_def]

theorem called_noteCalls_of_ne (h : hook ≠ other) :
    (state.noteCalls hook wrappers).called other = state.called other := by
  simp [called, noteCalls, List.filter_map, Function.comp_def, h]

end RequestState

namespace ProxyEngine

variable {hook : Hook} {wrapper : NgPluginWrapper} {wrappers : List NgPluginWrapper}
  {state : RequestState}

theorem callHook_apply : callHook hook wrapper state =
    (.ok (wrapper.plugin.result hook), state.noteCalls hook [wrapper]) := rfl

theorem callSingle_snd :
    (callSingle hook wrapper state).2 = state.noteCalls hook [wrapper] := by
  rw [callSingle, bind_of_ok callHook_apply]
  cases wrapper.plugin.result hook with
  | completed => rfl
  | failed => rfl
  | thrown => rfl

theorem andThen_snd (callback : Stateful RequestState Stop Unit) :
    (andThen callback state).2 = (callback state).2 := by
  rw [andThen]
  split
  · next h => rw [h]
  · rfl

/-- A chain is walked through until a hook does not complete. -/
theorem next_snd : (ProxyEngine.next hook wrappers state).2 =
    state.noteCalls hook (reached (·.completes hook) wrappers) := by
  induction wrappers generalizing state with
  | nil => exact RequestState.noteCalls_nil.symm
  | cons wrapper tail ih =>
      rw [ProxyEngine.next, bind_of_ok callHook_apply]
      cases hresult : wrapper.plugin.result hook with
      | thrown =>
          rw [reached_cons_of_not (by simp [NgPluginWrapper.completes, hresult])]
          rfl
      | failed =>
          rw [reached_cons_of_not (by simp [NgPluginWrapper.completes, hresult])]
          rfl
      | completed =>
          rw [reached_cons_of_goesOn (by simp [NgPluginWrapper.completes, hresult]),
            RequestState.noteCalls_cons wrapper (reached _ tail), ← ih]
          cases tail with
          | nil => rfl
          | cons following tail => exact andThen_snd _

theorem callPlugins_snd : (callPlugins hook wrappers state).2 =
    state.noteCalls hook (reached (·.completes hook) wrappers) := by
  cases wrappers with
  | nil => exact RequestState.noteCalls_nil.symm
  | cons wrapper tail =>
      cases tail with
      | nil =>
          have hreached : reached (·.completes hook) [wrapper] = [wrapper] := by
            rw [reached_eq_self_iff]
            simp
          rw [hreached]
          exact callSingle_snd
      | cons following tail => exact next_snd

end ProxyEngine

/-! ## Which hooks a request calls -/

namespace RequestState

/-- What holds while the request is handled: the record is what has been called, and
nothing has been given back yet. -/
structure Recorded (state : RequestState) : Prop where
  routed : state.routeKey = true
  contextual : state.contextualPluginsKey.isSome = true
  record : state.called .beforeRequest = state.calledBeforeRequestPlugins
  pending : state.called .afterRequest = []

theorem Recorded.noteCalls {state : RequestState} (h : state.Recorded)
    (wrappers : List NgPluginWrapper) :
    (state.openBuffer.noteCalls .beforeRequest wrappers).Recorded where
  routed := h.routed
  contextual := h.contextual
  record := by
    rw [called_noteCalls_self]
    exact congrArg (· ++ wrappers) h.record
  pending := by
    rw [called_noteCalls_of_ne (by decide)]
    exact h.pending

/-- Each plugin gets as many `afterRequest` calls as it has got `beforeRequest`
calls that have completed. -/
def Balanced (state : RequestState) : Prop :=
  ∀ wrapper, (state.called .afterRequest).count wrapper =
    (state.completed .beforeRequest).count wrapper

end RequestState

open RequestState

theorem keeps_stepResult {keeps : RequestState → Prop} (result : StepResult) :
    Keeps keeps result.run := by
  cases result with
  | done => exact keeps_pure ()
  | error => exact keeps_throw Stop.error
  | exception => exact keeps_throw Stop.exception

theorem keeps_callPluginsBeforeRequestCallback (plugins : NgContextualPlugins) :
    Keeps Recorded (callPluginsBeforeRequestCallback plugins) := by
  rw [callPluginsBeforeRequestCallback]
  split
  · exact keeps_pure ()
  · intro state hstate
    have hrun : (do
        modify openBuffer
        callPlugins .beforeRequest plugins.transformerPluginsWithCallbacks :
          Stateful RequestState Stop Unit) state =
        callPlugins .beforeRequest plugins.transformerPluginsWithCallbacks state.openBuffer := rfl
    rw [hrun, callPlugins_snd]
    exact hstate.noteCalls _

theorem keeps_handleApikeyPluginsFlow (flow : Option ApikeyPluginsFlow) :
    Keeps Recorded (handleApikeyPluginsFlow flow) := by
  cases flow with
  | none => exact keeps_pure ()
  | some flow =>
      rw [handleApikeyPluginsFlow]
      refine keeps_bind (keeps_callPluginsBeforeRequestCallback _) fun _ _ _ _ => ?_
      refine keeps_bind (keeps_stepResult _) fun _ _ _ _ => ?_
      refine keeps_modify fun state hstate => ?_
      exact ⟨hstate.routed, rfl, hstate.record, hstate.pending⟩

namespace RequestFlow

variable (request : RequestFlow)

theorem keeps_proceed : Keeps Recorded request.proceed := by
  refine keeps_bind (keeps_stepResult _) fun _ _ _ _ => ?_
  refine keeps_bind (keeps_callPluginsBeforeRequestCallback _) fun _ _ _ _ => ?_
  refine keeps_bind (keeps_stepResult _) fun _ _ _ _ => ?_
  refine keeps_bind (keeps_handleApikeyPluginsFlow _) fun _ _ _ _ => ?_
  exact keeps_stepResult _

/-- A request that is not identified has called no hook. -/
theorem identify_cases :
    (∃ stop after, request.identify {} = (.error stop, after) ∧
      after.hookCalls = [] ∧ after.calledBeforeRequestPluginsKey = none) ∨
    ∃ after, request.identify {} = (.ok (), after) ∧ after.Recorded := by
  rw [identify]
  cases request.found with
  | error => exact .inl ⟨_, _, rfl, rfl, rfl⟩
  | exception => exact .inl ⟨_, _, rfl, rfl, rfl⟩
  | done =>
      cases request.relayed with
      | error => exact .inl ⟨_, _, rfl, rfl, rfl⟩
      | exception => exact .inl ⟨_, _, rfl, rfl, rfl⟩
      | done => exact .inr ⟨_, rfl, rfl, rfl, rfl, rfl⟩

theorem steps_cases :
    ((request.steps {}).2.hookCalls = [] ∧
      (request.steps {}).2.calledBeforeRequestPluginsKey = none) ∨
    (request.steps {}).2.Recorded := by
  rcases request.identify_cases with ⟨stop, after, hrun, hnone⟩ | ⟨after, hrun, hafter⟩
  · left
    have hsteps : request.steps {} = (.error stop, after) := by
      simp only [steps, bind, hrun]
    rw [hsteps]
    exact hnone
  · right
    rw [steps, bind_of_ok hrun]
    exact request.keeps_proceed after hafter

theorem callPluginsAfterRequestCallback_snd (state : RequestState) :
    (callPluginsAfterRequestCallback state).2 = state.noteCalls .afterRequest
      (reached (·.completes .afterRequest) state.calledBeforeRequestPlugins) :=
  callPlugins_snd

theorem handleRequest_of_none (h : (request.steps {}).2.calledBeforeRequestPluginsKey = none) :
    request.handleRequest = (request.steps {}).2 := by
  simp only [handleRequest]
  split
  · rw [callPluginsAfterRequestCallback_snd, calledBeforeRequestPlugins, h]
    exact noteCalls_nil
  · rfl

theorem handleRequest_of_recorded (h : (request.steps {}).2.Recorded) :
    request.handleRequest = if request.answered then
      (callPluginsAfterRequestCallback (request.steps {}).2).2 else (request.steps {}).2 := by
  simp only [handleRequest, h.routed, h.contextual, Bool.and_true]

/-- The record is gone through once, if the request is answered, until a hook does
not complete. -/
theorem handleRequest_hooks :
    request.handleRequest.called .afterRequest =
      if request.answered then
        reached (·.completes .afterRequest) (request.handleRequest.called .beforeRequest)
      else [] := by
  rcases request.steps_cases with ⟨hcalls, hbuffer⟩ | hrecorded
  · rw [handleRequest_of_none request hbuffer, called, called, hcalls]
    exact (ite_self _).symm
  · rw [handleRequest_of_recorded request hrecorded]
    split
    · rw [callPluginsAfterRequestCallback_snd, called_noteCalls_self,
        called_noteCalls_of_ne (by decide), hrecorded.pending, hrecorded.record, List.nil_append]
    · exact hrecorded.pending

/-- Nothing is given back that has not been taken, and nothing more often than it has
been taken. If the request is answered and no plugin of the record but the last one
fails in `afterRequest`, then every plugin that has been called before the request is
called after it. -/
theorem afterRequest_follows_beforeRequest :
    request.handleRequest.called .afterRequest <+: request.handleRequest.called .beforeRequest ∧
    (request.answered = true →
      (∀ wrapper ∈ (request.handleRequest.called .beforeRequest).dropLast,
        wrapper.plugin.afterRequest = .completed) →
      request.handleRequest.called .afterRequest =
        request.handleRequest.called .beforeRequest) := by
  constructor
  · rw [handleRequest_hooks]
    split
    · exact reached_prefix
    · exact List.nil_prefix
  · intro hanswered hcompletes
    rw [handleRequest_hooks, if_pos hanswered, reached_eq_self_iff]
    intro wrapper hwrapper
    exact beq_iff_eq.mpr (hcompletes wrapper hwrapper)

end RequestFlow

/-- A request in which nothing fails but the hooks of its plugins. -/
def hookedRequest (wrappers : List NgPluginWrapper) : RequestFlow where
  found := .done
  relayed := .done
  firstCtxPlugins := ⟨wrappers⟩
  checked := .done
  validated := .done
  apikeyPluginsFlow := none
  proxied := .done

/-- A vm that does not start. -/
def failingStart : NgPluginWrapper := ⟨⟨true, .failed, .completed⟩, 0⟩

/-- A start that fails ends the chain, and what was started before is given back. -/
theorem afterRequest_follows_failingStart :
    let wrappers : List NgPluginWrapper := [⟨⟨true, .completed, .completed⟩, 1⟩, failingStart]
    (hookedRequest wrappers).handleRequest.called .afterRequest =
      (hookedRequest wrappers).handleRequest.called .beforeRequest :=
  (RequestFlow.afterRequest_follows_beforeRequest _).2 (by decide) (by decide)

/-- A plugin that fails in `beforeRequest` gets its `afterRequest` all the same. -/
theorem not_balanced_failingStart :
    ¬ (hookedRequest [failingStart]).handleRequest.Balanced := by
  intro hbalanced
  exact absurd (hbalanced failingStart) (by decide)

-- what the second plugin has taken is not given back when the first one fails
example :
    let wrappers : List NgPluginWrapper :=
      [⟨⟨true, .completed, .failed⟩, 0⟩, ⟨⟨true, .completed, .completed⟩, 1⟩]
    (hookedRequest wrappers).handleRequest.called .afterRequest = wrappers.take 1 := by
  decide

end Otoroshi
