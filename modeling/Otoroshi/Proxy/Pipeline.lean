/-
# The way of a request through its plugins

A request goes through chains of plugins: those that validate any request, the hooks before it,
the ones before the route, the access validators, the same three again for the plugins that the
apikey of the request brings, and, for each try at a backend, the transformers of the request and
those of the response. Each chain is walked in the same way. A chain of one plugin has a path of
its own.

A plugin that throws instead of returning a future ends the walk in a different way behind the
first place of a chain: `next` is called from the callback of the plugin before it, where the
exception is dropped, and the promise of the chain is left as it is.

What tries of one request have in common are the attributes of the request. A plugin is called in
one step on them. Of the contexts, what is the same for all plugins of a request is left out.
-/

import Otoroshi.Foundation.Chains
import Otoroshi.Foundation.Resumptions
import Otoroshi.Jwt.Verifier

namespace Otoroshi

namespace Pipeline

open Chains Jwt

/-! ## What a request is made of -/

/-- What the engine hands around without looking inside. -/
structure EngineTypes where
  Slot : Type
  User : Type
  Route : Type
  /-- `NgTarget` -/
  Backend : Type
  /-- `NgPluginHttpRequest` -/
  Request : Type
  /-- `BackendCallResponse` -/
  BackendResponse : Type
  /-- `NgPluginHttpResponse` -/
  Response : Type
  Result : Type
  /-- all other attributes -/
  Others : Type

variable {T : EngineTypes}

structure NgPluginsWithOverride (T : EngineTypes) where
  plugins : List T.Slot
  overrides : Bool

structure ApiRef where
  api : Str
  plan : Str

/-- What the engine reads of an apikey. -/
structure ApiKey (T : EngineTypes) where
  clientId : Str
  plugins : Option (NgPluginsWithOverride T)
  apiRef : Option ApiRef

structure Attributes (T : EngineTypes) where
  apiKey : Option (ApiKey T)
  user : Option T.User
  backend : Option T.Backend
  requestTarget : Option T.Backend
  others : T.Others

inductive Throwable
  | bodyAlreadyConsumed
  | requestTimeout
  | timeout
  | allCircuitBreakersOpen
  /-- any other, with its message -/
  | other (message : Option Str)
  deriving DecidableEq

/-- What a program stops with where it gives no value. The last one is a future that is never
completed. -/
inductive Stop (T : EngineTypes)
  | left (result : T.Result)
  | failed (e : Throwable)
  | pending

/-- What it stops with where its future is completed. -/
inductive Halt (T : EngineTypes)
  | left (result : T.Result)
  | failed (e : Throwable)

def Halt.stop : Halt T → Stop T
  | .left result => .left result
  | .failed e => .failed e

/-- How a program of the engine ends. -/
inductive Ending (T : EngineTypes) (α : Type)
  | right (value : α)
  | stopped (stop : Stop T)

/-! ## Plugins -/

/-- How the call of a method that returns a future ends. -/
inductive Called (β : Type)
  | returns (value : β)
  | fails (e : Throwable)
  | throws (e : Throwable)

/-- What a chain sees of a call. -/
def Called.verdict {β α ρ : Type} (read : β → α ⊕ ρ) : Called β → Verdict α ρ Throwable
  | .returns value =>
      match read value with
      | .inl a => .passes a
      | .inr result => .answers result
  | .fails e => .fails e
  | .throws e => .throws e

/-- `NgAccess` -/
inductive NgAccess (T : EngineTypes)
  | allowed
  | denied (result : T.Result)

structure NgPluginContext where
  config : JsObject
  idx : Int
  cacheDiscriminator : Str

structure NgAccessContext (T : EngineTypes) extends NgPluginContext where
  apikey : Option (ApiKey T)
  user : Option T.User

structure NgTransformerRequestContext (T : EngineTypes) extends NgAccessContext T where
  rawRequest : T.Request
  otoroshiRequest : T.Request

structure NgTransformerResponseContext (T : EngineTypes) extends NgAccessContext T where
  response : T.BackendResponse
  rawResponse : T.Response
  otoroshiResponse : T.Response

/-- A method of a plugin: called in a context, it may change the attributes. -/
abbrev Method (T : EngineTypes) (Context β : Type) :=
  Context → Attributes T → Called β × Attributes T

structure NgIncomingRequestValidator (T : EngineTypes) where
  access : Method T NgPluginContext (NgAccess T)

structure NgPreRouting (T : EngineTypes) where
  preRoute : Method T NgPluginContext (Except T.Result Unit)

structure NgAccessValidator (T : EngineTypes) where
  access : Method T (NgAccessContext T) (NgAccess T)

structure NgRequestTransformer (T : EngineTypes) where
  beforeRequest : Method T NgPluginContext Unit
  transformRequest : Method T (NgTransformerRequestContext T) (Except T.Result T.Request)
  transformResponse : Method T (NgTransformerResponseContext T) (Except T.Result T.Response)

structure NgbBackendCallContext (T : EngineTypes) where
  request : T.Request
  apikey : Option (ApiKey T)
  user : Option T.User
  config : JsObject

/-- What a plugin that calls backends does: it ends, works on the attributes, or lets the engine
call the backend and goes on with what comes of it. -/
inductive CallerRun (T : EngineTypes)
  | done (called : Called (Except T.Result T.BackendResponse))
  | works (change : Attributes T → Attributes T) (rest : Attributes T → CallerRun T)
  | delegates (rest : Ending T T.BackendResponse → CallerRun T)

structure NgBackendCall (T : EngineTypes) where
  callBackend : NgbBackendCallContext T → CallerRun T

/-- A plugin in its slot. -/
structure NgPluginWrapper (Plugin : Type) where
  plugin : Plugin
  defaultConfig : Option JsObject
  /-- `instance.config.raw` -/
  config : JsObject
  instanceId : Int

def NgPluginWrapper.pluginConfig {Plugin : Type} (wrapper : NgPluginWrapper Plugin) : JsObject :=
  match wrapper.defaultConfig with
  | some dc => dc.plusAll wrapper.config
  | none => wrapper.config

/-- The chains that the slots of a request make up. -/
structure NgContextualPlugins (T : EngineTypes) where
  slots : List T.Slot
  globalSlots : List T.Slot
  transformerPluginsWithCallbacks : List (NgPluginWrapper (NgRequestTransformer T))
  preRoutePlugins : List (NgPluginWrapper (NgPreRouting T))
  accessValidatorPlugins : List (NgPluginWrapper (NgAccessValidator T))
  transformerPluginsThatTransformsRequest : List (NgPluginWrapper (NgRequestTransformer T))
  backendCallPlugin : Option (NgPluginWrapper (NgBackendCall T))
  transformerPluginsThatTransformsResponse : List (NgPluginWrapper (NgRequestTransformer T))
  cacheDiscriminator : Str

/-! ## What is logged -/

abbrev PluginCall (T : EngineTypes) (Plugin α : Type) :=
  Call (NgPluginWrapper Plugin) α T.Result Throwable

/-- What happens to a request. The call of a plugin is logged with whether the plugin stands behind
the first one of its chain. -/
inductive Event (T : EngineTypes)
  | validated (behind : Bool) (call : PluginCall T (NgIncomingRequestValidator T) Unit)
  | hooked (behind : Bool) (call : PluginCall T (NgRequestTransformer T) Unit)
  | preRouted (behind : Bool) (call : PluginCall T (NgPreRouting T) Unit)
  | accessed (behind : Bool) (call : PluginCall T (NgAccessValidator T) Unit)
  /-- the apikey whose plugins come next -/
  | identified (apikey : Option (ApiKey T))
  | requestTransformed (behind : Bool) (call : PluginCall T (NgRequestTransformer T) T.Request)
  | backendCalled (target : T.Backend) (request : T.Request)
  | responseTransformed (behind : Bool) (call : PluginCall T (NgRequestTransformer T) T.Response)

abbrev Program (T : EngineTypes) := Resumption (Attributes T) (Event T)

/-- A program of the engine. -/
abbrev EngineM (T : EngineTypes) (α : Type) := Program T (Ending T α)

/-- `FEither.flatMap` -/
def EngineM.flatMap {α β : Type} (program : EngineM T α) (next : α → EngineM T β) :
    Program T (Ending T β) :=
  program >>= fun
    | .right value => next value
    | .stopped stop => .ends (.stopped stop)

/-- A step that no plugin of a chain takes part in. Its future is always completed. -/
abbrev Step (T : EngineTypes) (α : Type) := Attributes T → Except (Halt T) α × Attributes T

def Step.run {α : Type} (step : Step T α) : EngineM T α :=
  .perform
    (fun attrs =>
      match step attrs with
      | (.ok value, after) => (.right value, after)
      | (.error halt, after) => (.stopped halt.stop, after))
    fun _ => []

/-! ## Walking a chain -/

/-- What the context of a chain holds of the attributes when the chain begins. -/
structure Identity (T : EngineTypes) where
  apikey : Option (ApiKey T)
  user : Option T.User

def Attributes.identity (attrs : Attributes T) : Identity T := ⟨attrs.apiKey, attrs.user⟩

/-- The identity at the beginning, or else the one there is now. -/
def Identity.orElse (start now : Identity T) : Identity T :=
  ⟨start.apikey.or now.apikey, start.user.or now.user⟩

/-- A kind of chain: what is said when a plugin of it fails, how a plugin is called, and how the
call is logged. -/
structure Chain (T : EngineTypes) (Plugin α : Type) where
  description : String
  call : Plugin → NgPluginContext → Identity T → α → Attributes T →
    Verdict α T.Result Throwable × Attributes T
  event : Bool → PluginCall T Plugin α → Event T

namespace Chain

variable {Plugin α : Type} (chain : Chain T Plugin α) (discriminator : Str)
  (otoroshiJsonError : String → String → Nat → T.Result)

def context (wrapper : NgPluginWrapper Plugin) : NgPluginContext :=
  ⟨wrapper.pluginConfig, wrapper.instanceId, discriminator⟩

/-- The answer when a plugin fails. -/
def failure : T.Result := otoroshiJsonError "internal_server_error" chain.description 500

/-- Call a plugin with the identity that is made of the attributes. -/
def callPlugin (behind : Bool) (identity : Attributes T → Identity T)
    (wrapper : NgPluginWrapper Plugin) (value : α) : Program T (Verdict α T.Result Throwable) :=
  .perform
    (fun attrs =>
      chain.call wrapper.plugin (context discriminator wrapper) (identity attrs) value attrs)
    fun verdict => [chain.event behind ⟨wrapper, value, verdict⟩]

/-- The path of a single plugin. -/
def callSingle (start : Identity T) (wrapper : NgPluginWrapper Plugin) (value : α) :
    Program T (Ending T α) := do
  match ← chain.callPlugin discriminator false (fun _ => start) wrapper value with
  | .passes value => .ends (.right value)
  | .answers result => .ends (.stopped (.left result))
  | .fails _ => .ends (.stopped (.left (chain.failure otoroshiJsonError)))
  | .throws e => .ends (.stopped (.failed e))

/-- The walk from the second plugin on: it is called from a callback. -/
def next (start : Identity T) : List (NgPluginWrapper Plugin) → α → Program T (Ending T α)
  | [], value => .ends (.right value)
  | wrapper :: plugins, value => do
      match ← chain.callPlugin discriminator true (fun now => start.orElse now.identity) wrapper
        value with
      | .passes value => next start plugins value
      | .answers result => .ends (.stopped (.left result))
      | .fails _ => .ends (.stopped (.left (chain.failure otoroshiJsonError)))
      | .throws _ => .ends (.stopped .pending)

/-- The first call of `next`, whose exceptions go to the caller. -/
def callMany (start : Identity T) (wrapper : NgPluginWrapper Plugin)
    (plugins : List (NgPluginWrapper Plugin)) (value : α) : Program T (Ending T α) := do
  match ← chain.callPlugin discriminator false (fun now => start.orElse now.identity) wrapper
    value with
  | .passes value => chain.next discriminator otoroshiJsonError start plugins value
  | .answers result => .ends (.stopped (.left result))
  | .fails _ => .ends (.stopped (.left (chain.failure otoroshiJsonError)))
  | .throws e => .ends (.stopped (.failed e))

/-- Walk through the plugins. -/
def callPlugins (all_plugins : List (NgPluginWrapper Plugin)) (value : α) :
    Program T (Ending T α) :=
  match all_plugins with
  | [] => .ends (.right value)
  | wrapper :: plugins => do
      let start ← .perform (fun attrs => (attrs.identity, attrs)) fun _ => []
      if plugins.isEmpty then
        chain.callSingle discriminator otoroshiJsonError start wrapper value
      else
        chain.callMany discriminator otoroshiJsonError start wrapper plugins value

end Chain

/-! ## The engine -/

/-- Read an `Either` as a chain does. -/
def ofExcept {α ρ : Type} : Except ρ α → α ⊕ ρ
  | .ok value => .inl value
  | .error result => .inr result

def NgAccess.read : NgAccess T → Unit ⊕ T.Result
  | .allowed => .inl ()
  | .denied result => .inr result

/-- The platform and the configuration, for one request. -/
structure Engine (T : EngineTypes) where
  otoroshiJsonError : String → String → Nat → T.Result
  craftResponseResult : String → Nat → String → T.Result
  incomingRequestValidators : List (NgPluginWrapper (NgIncomingRequestValidator T))
  handleConcurrentRequest : Step T Unit
  findRoute : Step T T.Route
  handleRelayTraffic : T.Route → Step T Unit
  handleTenantCheck : T.Route → Step T Unit
  checkGlobalMaintenance : T.Route → Step T Unit
  extractTrackingId : T.Route → Attributes T → Attributes T
  handleLegacyChecks : T.Route → Step T Unit
  /-- the slots of a route, and those of all routes -/
  routeSlots : T.Route → List T.Slot
  globalSlots : List T.Slot
  /-- `new NgContextualPlugins` -/
  contextualPlugins : T.Route → List T.Slot → List T.Slot → Str → Attributes T →
    NgContextualPlugins T
  isPreRouting : T.Slot → Bool
  isAccessValidator : T.Slot → Bool
  /-- `env.proxyState.api(ref.api).flatMap(_.computedPluginsByPlan.get(ref.plan))` -/
  planFlow : ApiRef → Option (NgPluginsWithOverride T)
  rawRequest : T.Request
  /-- the request for a backend, before the transformers -/
  otoroshiRequest : T.Route → T.Backend → Attributes T → T.Request
  requestBackend : T.Request → Option T.Backend
  /-- the call over the network -/
  stream : T.Backend → T.Request → Attributes T → Except Throwable T.BackendResponse × Attributes T
  response : T.BackendResponse → T.Response
  streamResponse : T.Route → T.Backend → T.Request → T.BackendResponse → T.Response →
    Step T T.Result
  triggerProxyDone : T.Route → T.Backend → T.Request → T.BackendResponse → T.Response →
    Step T Unit
  useCircuitBreakers : Bool
  /-- `route.backend.client.retries` -/
  retries : T.Route → Int32
  /-- the targets a backend is chosen from -/
  allTargets : T.Route → Attributes T → List T.Backend

/-- `ApiKey.pluginFlow` -/
def ApiKey.pluginFlow (planFlow : ApiRef → Option (NgPluginsWithOverride T)) (apikey : ApiKey T) :
    Option (NgPluginsWithOverride T) :=
  if apikey.plugins.isSome || apikey.apiRef.isSome then
    let localPlugins := (apikey.plugins.map NgPluginsWithOverride.plugins).getD []
    let localOverride := apikey.plugins.any NgPluginsWithOverride.overrides
    match apikey.apiRef.bind planFlow with
    | some flow =>
        if localPlugins.isEmpty then some flow
        else some ⟨flow.plugins ++ localPlugins, flow.overrides || localOverride⟩
    | none => if localPlugins.isEmpty then none else some ⟨localPlugins, localOverride⟩
  else none

/-- What keeps the cache entries of a composed chain apart. -/
def ApiKey.discriminator (apikey : ApiKey T) : Str :=
  match apikey.plugins, apikey.apiRef with
  | some _, _ => apikey.clientId
  | none, some ref => ref.api ++ "::".toList ++ ref.plan
  | none, none => apikey.clientId

/-! ### The kinds of chains -/

def validators : Chain T (NgIncomingRequestValidator T) Unit where
  description := "an error happened during access plugins phase"
  call plugin context _ _ attrs :=
    let (called, after) := plugin.access context attrs
    (called.verdict NgAccess.read, after)
  event := .validated

def beforeRequests : Chain T (NgRequestTransformer T) Unit where
  description := "an error happened during before-request plugins phase"
  call plugin context _ _ attrs :=
    let (called, after) := plugin.beforeRequest context attrs
    (called.verdict .inl, after)
  event := .hooked

def preRoutes : Chain T (NgPreRouting T) Unit where
  description := "an error happened during pre-routing plugins phase"
  call plugin context _ _ attrs :=
    let (called, after) := plugin.preRoute context attrs
    (called.verdict ofExcept, after)
  event := .preRouted

def accessValidators : Chain T (NgAccessValidator T) Unit where
  description := "an error happened during access plugins phase"
  call plugin context identity _ attrs :=
    let (called, after) := plugin.access ⟨context, identity.apikey, identity.user⟩ attrs
    (called.verdict NgAccess.read, after)
  event := .accessed

def requestTransformers (rawRequest : T.Request) : Chain T (NgRequestTransformer T) T.Request where
  description := "an error happened during request-transformation plugins phase"
  call plugin context identity otoroshiRequest attrs :=
    let (called, after) := plugin.transformRequest
      ⟨⟨context, identity.apikey, identity.user⟩, rawRequest, otoroshiRequest⟩ attrs
    (called.verdict ofExcept, after)
  event := .requestTransformed

def responseTransformers (response : T.BackendResponse) (rawResponse : T.Response) :
    Chain T (NgRequestTransformer T) T.Response where
  description := "an error happened during response-transformation plugins phase"
  call plugin context identity otoroshiResponse attrs :=
    let (called, after) := plugin.transformResponse
      ⟨⟨context, identity.apikey, identity.user⟩, response, rawResponse, otoroshiResponse⟩ attrs
    (called.verdict ofExcept, after)
  event := .responseTransformed

namespace Engine

variable (E : Engine T)

/-! ### The checks -/

def applyIncomingRequestValidation : EngineM T Unit :=
  validators.callPlugins [] E.otoroshiJsonError E.incomingRequestValidators ()

def callPluginsBeforeRequestCallback (plugins : NgContextualPlugins T) : EngineM T Unit :=
  beforeRequests.callPlugins plugins.cacheDiscriminator E.otoroshiJsonError
    plugins.transformerPluginsWithCallbacks ()

def callPreRoutePlugins (plugins : NgContextualPlugins T) : EngineM T Unit :=
  preRoutes.callPlugins plugins.cacheDiscriminator E.otoroshiJsonError plugins.preRoutePlugins ()

def callAccessValidatorPlugins (plugins : NgContextualPlugins T) : EngineM T Unit :=
  accessValidators.callPlugins plugins.cacheDiscriminator E.otoroshiJsonError
    plugins.accessValidatorPlugins ()

/-- The slots of the composed chain. -/
def mergedSlots (flow : NgPluginsWithOverride T) (ctxPlugins : NgContextualPlugins T) :
    List T.Slot :=
  if flow.overrides then
    flow.plugins ++
      ctxPlugins.slots.filter fun inst => E.isPreRouting inst || E.isAccessValidator inst
  else ctxPlugins.slots ++ flow.plugins

/-- The plugins that an apikey brings go through the checks on their own. -/
def callFlow (route : T.Route) (ctxPlugins : NgContextualPlugins T) (discriminator : Str)
    (flow : NgPluginsWithOverride T) : EngineM T (NgContextualPlugins T) :=
  (Step.run fun attrs =>
    (.ok (E.contextualPlugins route flow.plugins [] discriminator attrs), attrs)).flatMap
    fun flowCtxPlugins =>
      (E.callPluginsBeforeRequestCallback flowCtxPlugins).flatMap fun _ =>
      (E.callPreRoutePlugins flowCtxPlugins).flatMap fun _ =>
      (E.callAccessValidatorPlugins flowCtxPlugins).flatMap fun _ =>
      Step.run fun attrs =>
        (.ok (E.contextualPlugins route (E.mergedSlots flow ctxPlugins) ctxPlugins.globalSlots
          discriminator attrs), attrs)

def handleApikeyPluginsFlow (route : T.Route) (ctxPlugins : NgContextualPlugins T) :
    Program T (Ending T (NgContextualPlugins T)) := do
  let apikey ← .perform (fun attrs => (attrs.apiKey, attrs)) fun apikey => [.identified apikey]
  match apikey with
  | none => .ends (.right ctxPlugins)
  | some apikey =>
      match apikey.pluginFlow E.planFlow with
      | none => .ends (.right ctxPlugins)
      | some flow => E.callFlow route ctxPlugins apikey.discriminator flow

/-- Everything before a backend is chosen. -/
def checks : EngineM T (T.Route × NgContextualPlugins T) :=
  (Step.run E.handleConcurrentRequest).flatMap fun _ =>
  E.applyIncomingRequestValidation.flatMap fun _ =>
  (Step.run E.findRoute).flatMap fun route =>
  (Step.run (E.handleRelayTraffic route)).flatMap fun _ =>
  (Step.run fun attrs =>
    (.ok (E.contextualPlugins route (E.routeSlots route) E.globalSlots [] attrs), attrs)).flatMap
    fun firstCtxPlugins =>
      (Step.run (E.handleTenantCheck route)).flatMap fun _ =>
      (Step.run (E.checkGlobalMaintenance route)).flatMap fun _ =>
      (E.callPluginsBeforeRequestCallback firstCtxPlugins).flatMap fun _ =>
      (Step.run fun attrs => (.ok (), E.extractTrackingId route attrs)).flatMap fun _ =>
      (E.callPreRoutePlugins firstCtxPlugins).flatMap fun _ =>
      (E.callAccessValidatorPlugins firstCtxPlugins).flatMap fun _ =>
      EngineM.flatMap (E.handleApikeyPluginsFlow route firstCtxPlugins) fun ctxPlugins =>
      (Step.run (E.handleLegacyChecks route)).flatMap fun _ =>
      .ends (.right (route, ctxPlugins))

/-! ### A try at a backend -/

def callRequestTransformer (route : T.Route) (backend : T.Backend)
    (plugins : NgContextualPlugins T) : EngineM T T.Request :=
  (Step.run fun attrs => (.ok (E.otoroshiRequest route backend attrs), attrs)).flatMap
    fun otoroshiRequest =>
      (requestTransformers E.rawRequest).callPlugins plugins.cacheDiscriminator
        E.otoroshiJsonError plugins.transformerPluginsThatTransformsRequest otoroshiRequest

/-- The call of a backend where no plugin makes it. -/
def callBackendItself (request : T.Request) (backend : T.Backend) : EngineM T T.BackendResponse :=
  let finalTarget := (E.requestBackend request).getD backend
  .perform
    (fun attrs =>
      match E.stream finalTarget request { attrs with requestTarget := some finalTarget } with
      | (.ok response, after) => (.right response, after)
      | (.error e, after) => (.stopped (.failed e), after))
    fun _ => [.backendCalled finalTarget request]

/-- Run a plugin that calls backends. -/
def runCaller (delegates : EngineM T T.BackendResponse) :
    CallerRun T → Program T (Ending T T.BackendResponse)
  | .done (.returns (.ok response)) => .ends (.right response)
  | .done (.returns (.error result)) => .ends (.stopped (.left result))
  | .done (.fails e) => .ends (.stopped (.failed e))
  | .done (.throws e) => .ends (.stopped (.failed e))
  | .works change rest => .steps change (fun _ => []) fun attrs => runCaller delegates (rest attrs)
  | .delegates rest => delegates >>= fun ending => runCaller delegates (rest ending)

def callBackend (request : T.Request) (backend : T.Backend) (plugins : NgContextualPlugins T) :
    EngineM T T.BackendResponse :=
  match plugins.backendCallPlugin with
  | some pluginInstance =>
      (Step.run fun attrs =>
        (.ok (⟨request, attrs.apiKey, attrs.user, pluginInstance.config⟩ :
          NgbBackendCallContext T), attrs)).flatMap
        fun ctx =>
          runCaller (E.callBackendItself request backend) (pluginInstance.plugin.callBackend ctx)
  | none => E.callBackendItself request backend

def callResponseTransformer (response : T.BackendResponse) (plugins : NgContextualPlugins T) :
    EngineM T T.Response :=
  (responseTransformers response (E.response response)).callPlugins plugins.cacheDiscriminator
    E.otoroshiJsonError plugins.transformerPluginsThatTransformsResponse (E.response response)

/-- What is done with a response. -/
def respond (route : T.Route) (plugins : NgContextualPlugins T) (backend : T.Backend)
    (finalRequest : T.Request) (response : T.BackendResponse) : EngineM T T.Result :=
  (E.callResponseTransformer response plugins).flatMap fun finalResp =>
  (Step.run (E.streamResponse route backend finalRequest response finalResp)).flatMap
    fun clientResp =>
      (Step.run (E.triggerProxyDone route backend finalRequest response finalResp)).flatMap
        fun _ => .ends (.right clientResp)

/-- What is done with a chosen backend. -/
def attempt (route : T.Route) (plugins : NgContextualPlugins T) (backend : T.Backend) :
    EngineM T T.Result :=
  (Step.run fun attrs => (.ok (), { attrs with backend := some backend })).flatMap fun _ =>
  (E.callRequestTransformer route backend plugins).flatMap fun finalRequest =>
  (E.callBackend finalRequest backend plugins).flatMap fun response =>
  E.respond route plugins backend finalRequest response

end Engine

end Pipeline

end Otoroshi
