/-
# Plans of an api

An api says in its plans how its consumers are identified. The routes of an api are
generated, and those of its draft too. What the published plans ask for is added to the
plugins of each route: what extracts the credentials of a plan, and what turns away a call
without a consumer.

`slots_applyPlansPolicies` says what the plugins of a route are in the end.
-/

import Otoroshi.Apikeys.Calls
import Otoroshi.Apis.Writes
import Otoroshi.Router.Model

namespace Otoroshi

namespace Apis

/-! ## Plugins of a route -/

/-- The only index that the validators of an access are put in order by. -/
structure PluginIndex where
  validateAccess : Option Rat := none
  deriving DecidableEq

structure NgPluginInstance (Config : Type) where
  plugin : Str
  enabled : Bool := true
  included : List Str := []
  excluded : List Str := []
  config : Config
  pluginIndex : Option PluginIndex := none
  boundListeners : List Str := []
  deriving DecidableEq

structure NgPlugins (Config : Type) where
  slots : List (NgPluginInstance Config) := []
  deriving DecidableEq

def NgPlugins.add {Config : Type} (plugins : NgPlugins Config)
    (plugin : NgPluginInstance Config) : NgPlugins Config where
  slots := plugins.slots ++ [plugin]

/-- The id of a plugin of the gateway, by the name of its class. -/
def pluginId (name : String) : Str := "cp:otoroshi.next.plugins.".toList ++ name.toList

structure PluginWithConfig (Config : Type) where
  pluginId : Str
  config : Config
  pluginIndex : Option PluginIndex := none

/-- What the apikey of a consumer is built from. -/
structure ApikeyFromPlanConfig where
  createIfMissing : Bool := true
  apiId : Option Str := none
  planId : Option Str := none
  throttlingStrategy : Option JsValue := none
  apikey : JsValue

structure NgJwtApikeyExtractorConfig extends ApikeyFromPlanConfig where
  verifier : Str
  clientIdPath : Str := "client_id".toList
  clientIdPrefix : Str := "jwt_".toList
  strict : Bool := true

structure NgExpressionApikeyExtractorConfig extends ApikeyFromPlanConfig where
  expression : Str := "$\x7breq.ip\x7d".toList
  clientIdPrefix : Str := "public_".toList
  strict : Bool := false

structure NgClientCertApikeyExtractorConfig extends ApikeyFromPlanConfig where
  regexSubjectDNs : List Str := []
  regexIssuerDNs : List Str := []
  clientIdField : Option Str := none
  clientIdPrefix : Str := "mtls_".toList
  strict : Bool := true

structure NgOidcApikeyExtractorConfig extends ApikeyFromPlanConfig where
  ref : Option Str := none
  clientIdPath : Str := "client_id".toList
  clientIdPrefix : Str := "oauth2_".toList
  fetchUser : Bool := false
  userMetadataKey : Str := "user_profile".toList
  strict : Bool := true

/-- How the configurations are written as JSON objects. -/
structure ConfigFormat (Config : Type) where
  empty : Config
  apikeyCalls : Credentials.NgApikeyCallsConfig → Config
  jwt : NgJwtApikeyExtractorConfig → Config
  expression : NgExpressionApikeyExtractorConfig → Config
  clientCert : NgClientCertApikeyExtractorConfig → Config
  oidc : NgOidcApikeyExtractorConfig → Config

/-! ## Plans -/

inductive ApiPlanStatus where
  | staging
  | published
  | deprecated
  | closed
  deriving DecidableEq

/-- Every text that is none of the first three is a closed plan. -/
def ApiPlanStatus.ofText (status : Str) : ApiPlanStatus :=
  if status = "staging".toList then .staging
  else if status = "published".toList then .published
  else if status = "deprecated".toList then .deprecated
  else .closed

structure KeylessAccessModeConfiguration where
  expr : Option Str := none
  createIfMissing : Bool := true

structure JWTAccessModeConfiguration where
  verifier : Option Str := none
  clientIdPath : Option Str := some "client_id".toList
  createIfMissing : Bool := true

structure MtlsAccessModeConfiguration where
  regexSubjectDNs : List Str := []
  regexIssuerDNs : List Str := []
  clientIdField : Option Str := none
  createIfMissing : Bool := true

structure OAuth2RemoteAccessModeConfiguration where
  verifier : Option Str := none
  clientIdPath : Option Str := some "client_id".toList
  fetchUser : Bool := false
  userMetadataKey : Str := "user_profile".toList
  createIfMissing : Bool := true

def KeylessAccessModeConfiguration.read (json : JsValue) : KeylessAccessModeConfiguration where
  expr := (json.select "expr").asOpt Reads.string
  createIfMissing := (json.select "create_if_missing").asOptOrElse Reads.boolean true

def JWTAccessModeConfiguration.read (json : JsValue) : JWTAccessModeConfiguration where
  verifier := (json.select "verifier").asOpt Reads.string
  clientIdPath := (json.select "client_id_path").asOpt Reads.string
  createIfMissing := (json.select "create_if_missing").asOptOrElse Reads.boolean true

def MtlsAccessModeConfiguration.read (json : JsValue) : MtlsAccessModeConfiguration where
  regexSubjectDNs := (json.select "regex_subject_dns").asOptOrElse (Reads.seq Reads.string) []
  regexIssuerDNs := (json.select "regex_issuer_dns").asOptOrElse (Reads.seq Reads.string) []
  clientIdField := ((json.select "client_id_field").asOpt Reads.string).filter fun field =>
    !isBlank field
  createIfMissing := (json.select "create_if_missing").asOptOrElse Reads.boolean true

def OAuth2RemoteAccessModeConfiguration.read (json : JsValue) :
    OAuth2RemoteAccessModeConfiguration where
  verifier := (json.select "verifier").asOpt Reads.string
  clientIdPath := (json.select "client_id_path").asOpt Reads.string
  fetchUser := (json.select "fetch_user").asOptOrElse Reads.boolean false
  userMetadataKey :=
    (json.select "user_metadata_key").asOptOrElse Reads.string "user_profile".toList
  createIfMissing := (json.select "create_if_missing").asOptOrElse Reads.boolean true

/-- A plan, as the fields that are looked up in its JSON object. -/
structure ApiPlan where
  id : Str
  rawAccessModeConfigurationType : Option Str := none
  rawAccessModeConfiguration : JsLookupResult := none
  rawStatus : Option Str := none
  rateLimiting : Option JsValue
  apikeyTemplate : JsValue

namespace ApiPlan

variable (plan : ApiPlan)

def accessModeConfigurationType : Str :=
  plan.rawAccessModeConfigurationType.getD "keyless".toList

def status : ApiPlanStatus :=
  .ofText ((plan.rawStatus.getD "published".toList).map Char.toLower)

def IsPublished : Prop := plan.status = .published

def IsKeyless : Prop := plan.accessModeConfigurationType = "keyless".toList

instance : Decidable plan.IsPublished := inferInstanceAs (Decidable (_ = _))

instance : Decidable plan.IsKeyless := inferInstanceAs (Decidable (_ = _))

/-- What every extractor of the plan builds an apikey from. -/
def apikeyConfig (apiId : Str) (createIfMissing : Bool) : ApikeyFromPlanConfig where
  createIfMissing
  apiId := some apiId
  planId := some plan.id
  throttlingStrategy := plan.rateLimiting
  apikey := plan.apikeyTemplate

end ApiPlan

section Policies

variable {Config : Type} [DecidableEq Config] (format : ConfigFormat Config)

/-- The one extractor of a published plan, or none if its access mode is unknown. -/
def pluginsForPlan (plan : ApiPlan) (apiId : Str) : List (PluginWithConfig Config) :=
  let type := plan.accessModeConfigurationType
  if type = "keyless".toList then
    let keylessConfig :=
      (plan.rawAccessModeConfiguration.map KeylessAccessModeConfiguration.read).getD {}
    [{ pluginId := pluginId "NgExpressionApikeyExtractor"
       config := format.expression {
         plan.apikeyConfig apiId keylessConfig.createIfMissing with
         expression := keylessConfig.expr.getD "$\x7breq.ip\x7d".toList
         clientIdPrefix := "keyless_".toList ++ plan.id ++ "_".toList
         strict := false }
       -- after every extractor of credentials, and still before the enforcer
       pluginIndex := some { validateAccess := some 900 } }]
  else if type = "apikey".toList ∨ type = "oauth2-local".toList then
    [{ pluginId := pluginId "ApikeyCalls"
       config := format.apikeyCalls { updateQuotas := false, mandatory := false }
       pluginIndex := some { validateAccess := some 2 } }]
  else if type = "jwt".toList then
    let jwtConfig :=
      (plan.rawAccessModeConfiguration.map JWTAccessModeConfiguration.read).getD {}
    [{ pluginId := pluginId "NgJwtApikeyExtractor"
       config := format.jwt {
         plan.apikeyConfig apiId jwtConfig.createIfMissing with
         verifier := jwtConfig.verifier.getD []
         clientIdPath := jwtConfig.clientIdPath.getD "client_id".toList
         clientIdPrefix := "jwt_".toList ++ plan.id ++ "_".toList
         strict := false }
       pluginIndex := some { validateAccess := some (201 / 100) } }]
  else if type = "mtls".toList then
    let mtlsConfig :=
      (plan.rawAccessModeConfiguration.map MtlsAccessModeConfiguration.read).getD {}
    [{ pluginId := pluginId "NgClientCertApikeyExtractor"
       config := format.clientCert {
         plan.apikeyConfig apiId mtlsConfig.createIfMissing with
         regexSubjectDNs := mtlsConfig.regexSubjectDNs
         regexIssuerDNs := mtlsConfig.regexIssuerDNs
         clientIdField := mtlsConfig.clientIdField
         clientIdPrefix := "mtls_".toList ++ plan.id ++ "_".toList
         strict := false }
       pluginIndex := some { validateAccess := some (202 / 100) } }]
  else if type = "oauth2-remote".toList then
    let oidcConfig :=
      (plan.rawAccessModeConfiguration.map OAuth2RemoteAccessModeConfiguration.read).getD {}
    [{ pluginId := pluginId "NgOidcApikeyExtractor"
       config := format.oidc {
         plan.apikeyConfig apiId oidcConfig.createIfMissing with
         ref := oidcConfig.verifier
         clientIdPath := oidcConfig.clientIdPath.getD "client_id".toList
         clientIdPrefix := "oauth2_".toList ++ plan.id ++ "_".toList
         fetchUser := oidcConfig.fetchUser
         userMetadataKey := oidcConfig.userMetadataKey
         strict := false }
       pluginIndex := some { validateAccess := some (203 / 100) } }]
  else []

/-- Only the first plugin of each id and configuration is kept. -/
def dedupePlugins (plugins : List (PluginWithConfig Config)) : List (PluginWithConfig Config) :=
  plugins.foldl (fun acc plugin =>
    if acc.any fun p => p.pluginId = plugin.pluginId && p.config = plugin.config then acc
    else acc ++ [plugin]) []

def PluginWithConfig.toInstance (pluginWithConfig : PluginWithConfig Config) :
    NgPluginInstance Config where
  plugin := pluginWithConfig.pluginId
  included := []
  excluded := []
  config := pluginWithConfig.config
  pluginIndex := pluginWithConfig.pluginIndex

def addPluginsToFlow (plugins : NgPlugins Config)
    (pluginsWithConfig : List (PluginWithConfig Config)) : NgPlugins Config :=
  pluginsWithConfig.foldl (fun acc pluginWithConfig => acc.add pluginWithConfig.toInstance) plugins

/-- The last validator of an access, and what tells the consumer about its quotas. -/
def consumerPlugins : List (PluginWithConfig Config) :=
  [{ pluginId := pluginId "NgApiConsumerEnforcer"
     config := format.empty
     pluginIndex := some { validateAccess := some 1000 } },
   { pluginId := pluginId "SendOtoroshiHeadersBack"
     config := format.empty }]

end Policies

/-! ## Routes of an api -/

structure RouteFrontend where
  domains : List NgDomainAndPath := []
  headers : AList fun _ : Str => Str := ∅

structure ApiRoute where
  id : Str
  enabled : Bool := true
  frontend : RouteFrontend
  flowRef : Str
  backend : Str

structure RouteBackend (Target Client : Type) where
  targets : List Target
  client : Client

structure ApiBackend (Target Client : Type) where
  id : Str
  backend : RouteBackend Target Client
  client : Str

structure ApiBackendClient (Client : Type) where
  id : Str
  client : Client

structure ApiFlows (Config : Type) where
  id : Str
  plugins : NgPlugins Config

/-- An api with all that its routes are made of. -/
structure PlannedApi (Config Target Client : Type) extends
    Api ApiRoute (ApiBackend Target Client) (ApiFlows Config) JsValue where
  enabled : Bool := true
  groups : List Str := []
  plans : List ApiPlan := []
  clientsBackendConfig : List (ApiBackendClient Client) := []

structure ServedRoute (Config Target Client : Type) where
  id : Str
  metadata : AList fun _ : Str => Str
  apiRef : Option Str
  enabled : Bool
  groups : List Str
  frontend : RouteFrontend
  backend : RouteBackend Target Client
  plugins : NgPlugins Config

structure RouteWithApi (Config Target Client : Type) where
  route : ServedRoute Config Target Client
  api : PlannedApi Config Target Client

/-- What is stored besides the api, and how a draft is read. -/
structure ApiEnv (Config Target Client : Type) where
  backends : Str → Option (RouteBackend Target Client)
  drafts : Str → Option JsValue
  readApi : Reads (PlannedApi Config Target Client)
  defaultClient : Client

/-- `RouteApiRef.metadataKey` -/
def apiRefKey : Str := "Otoroshi-Api-Ref".toList

namespace PlannedApi

variable {Config Target Client : Type} [DecidableEq Config]
  (env : ApiEnv Config Target Client) (format : ConfigFormat Config)
  (this : PlannedApi Config Target Client)

/-- The client that a backend names. -/
def clientOf (api : PlannedApi Config Target Client) (backend : ApiBackend Target Client) :
    Client :=
  ((api.clientsBackendConfig.find? (·.id = backend.client)).map (·.client)).getD
    env.defaultClient

def replaceBackendClientIdByRealBackend (backend : ApiBackend Target Client)
    (api : PlannedApi Config Target Client) : RouteBackend Target Client :=
  { backend.backend with client := clientOf env api backend }

/-- A route of a draft is served under a header of the draft. -/
def addSecurityOnDrafRoute (route : ApiRoute) (api : PlannedApi Config Target Client) :
    ApiRoute :=
  { route with
    id := "testing_route_".toList ++ route.id
    frontend := { route.frontend with
      headers := route.frontend.headers.insert api.testing.headerKey api.testing.headerValue } }

/-- A route without a backend is left out. The global backends come first. -/
def routeToNgRoute (apiRoute : ApiRoute) (optApi : Option (PlannedApi Config Target Client)) :
    Option (ServedRoute Config Target Client) :=
  let api := optApi.getD this
  let apiBackend := (api.backends.find? (·.id = apiRoute.backend)).map fun back =>
    { back.backend with client := clientOf env api back }
  ((env.backends apiRoute.backend).or apiBackend).map fun backend =>
    { id := apiRoute.id
      metadata := this.metadata.insert apiRefKey this.id
      apiRef := some this.id
      enabled := apiRoute.enabled
      groups := ("virtual_group_for_".toList ++ this.id) :: this.groups
      frontend := { apiRoute.frontend with
        domains := apiRoute.frontend.domains.map fun domain =>
          ⟨api.domain ++ api.contextPath ++ domain.path⟩ }
      backend
      plugins := ((api.flows.find? (·.id = apiRoute.flowRef)).map (·.plugins)).getD {} }

/-- The api of the draft, when its routes are served. -/
def draftApi : Option (PlannedApi Config Target Client) :=
  (((env.drafts this.id).bind fun content => (env.readApi content).toOption).filter
    fun api => api.enabled && api.testing.enabled).map fun draftApi =>
      { draftApi with
        backends := draftApi.backends.map fun backend =>
          { backend with backend := replaceBackendClientIdByRealBackend env backend draftApi }
        routes := draftApi.routes.map fun route => addSecurityOnDrafRoute route draftApi }

def buildDraftRoutes : List (RouteWithApi Config Target Client) :=
  match this.draftApi env with
  | some api => (api.routes.filterMap fun route => this.routeToNgRoute env route (some api)).map
      fun route => { route, api }
  | none => []

/-- The routes that policies are applied to, each with the api it is made from. -/
def allRoutes : List (RouteWithApi Config Target Client) :=
  if this.state = .removed ∨ !this.enabled then []
  else
    ((this.routes.filter fun _ =>
      (this.state = .published ∨ this.state = .deprecated) && this.enabled).filterMap
        fun route => this.routeToNgRoute env route (some this)).map
          (fun route => { route, api := this }) ++
      this.buildDraftRoutes env

end PlannedApi

section Routes

variable {Config Target Client : Type} [DecidableEq Config] (format : ConfigFormat Config)

def publishedPlans (plans : List ApiPlan) : List ApiPlan := plans.filter (·.IsPublished)

def applyPlansPolicies (routeWithApi : RouteWithApi Config Target Client) :
    ServedRoute Config Target Client :=
  let published := publishedPlans routeWithApi.api.plans
  let route := { routeWithApi.route with
    plugins := addPluginsToFlow routeWithApi.route.plugins
      (dedupePlugins (published.flatMap fun plan =>
        pluginsForPlan format plan routeWithApi.api.id)) }
  if !published.isEmpty then
    { route with plugins := addPluginsToFlow route.plugins (consumerPlugins format) }
  else route

def PlannedApi.toRoutes (env : ApiEnv Config Target Client)
    (this : PlannedApi Config Target Client) : List (ServedRoute Config Target Client) :=
  (this.allRoutes env).map (applyPlansPolicies format)

/-! ## The plugins of a route in the end -/

omit [DecidableEq Config] in
theorem slots_addPluginsToFlow (plugins : NgPlugins Config)
    (added : List (PluginWithConfig Config)) :
    (addPluginsToFlow plugins added).slots = plugins.slots ++ added.map (·.toInstance) := by
  induction added generalizing plugins with
  | nil => simp [addPluginsToFlow]
  | cons plugin added ih =>
      rw [addPluginsToFlow, List.foldl_cons, ← addPluginsToFlow, ih]
      simp [NgPlugins.add]

/-- Two of them are the same plugin with the same configuration. -/
def PluginWithConfig.Same (p plugin : PluginWithConfig Config) : Prop :=
  p.pluginId = plugin.pluginId ∧ p.config = plugin.config

/-- What is kept up to some plugin. -/
theorem exists_same_foldl (plugins acc : List (PluginWithConfig Config)) :
    let kept := plugins.foldl (fun acc plugin =>
      if acc.any fun p => p.pluginId = plugin.pluginId && p.config = plugin.config then acc
      else acc ++ [plugin]) acc
    (∀ plugin ∈ acc, plugin ∈ kept) ∧ ∀ plugin ∈ plugins, ∃ p ∈ kept, p.Same plugin := by
  induction plugins generalizing acc with
  | nil => exact ⟨fun _ h => h, fun _ h => absurd h List.not_mem_nil⟩
  | cons plugin plugins ih =>
      rw [List.foldl_cons]
      split
      · rename_i hany
        obtain ⟨p, hp, hsame⟩ := List.any_eq_true.mp hany
        have hkept := ih acc
        exact ⟨hkept.1, List.forall_mem_cons.mpr
          ⟨⟨p, hkept.1 p hp, by simpa [PluginWithConfig.Same] using hsame⟩, hkept.2⟩⟩
      · have hkept := ih (acc ++ [plugin])
        exact ⟨fun p hp => hkept.1 p (List.mem_append_left _ hp), List.forall_mem_cons.mpr
          ⟨⟨plugin, hkept.1 plugin (List.mem_append_right _ (List.mem_singleton_self _)),
            rfl, rfl⟩, hkept.2⟩⟩

theorem exists_same_dedupePlugins {plugins : List (PluginWithConfig Config)}
    {plugin : PluginWithConfig Config} (h : plugin ∈ plugins) :
    ∃ p ∈ dedupePlugins plugins, p.Same plugin :=
  (exists_same_foldl plugins []).2 plugin h

/-- The plugins that are added to a route. -/
def addedPlugins (api : PlannedApi Config Target Client) : List (PluginWithConfig Config) :=
  let published := publishedPlans api.plans
  dedupePlugins (published.flatMap fun plan => pluginsForPlan format plan api.id) ++
    if published.isEmpty then [] else consumerPlugins format

theorem slots_applyPlansPolicies (source : RouteWithApi Config Target Client) :
    (applyPlansPolicies format source).plugins.slots =
      source.route.plugins.slots ++ (addedPlugins format source.api).map (·.toInstance) := by
  rw [applyPlansPolicies, addedPlugins]
  cases (publishedPlans source.api.plans).isEmpty <;>
    simp [slots_addPluginsToFlow]

theorem addedPlugins_eq_nil {api : PlannedApi Config Target Client}
    (h : publishedPlans api.plans = []) : addedPlugins format api = [] := by
  simp [addedPlugins, h, dedupePlugins]

theorem exists_added_of_published {api : PlannedApi Config Target Client} {plan : ApiPlan}
    (hplan : plan ∈ publishedPlans api.plans) {plugin : PluginWithConfig Config}
    (hplugin : plugin ∈ pluginsForPlan format plan api.id) :
    ∃ p ∈ addedPlugins format api, p.Same plugin := by
  have hmem : plugin ∈ (publishedPlans api.plans).flatMap fun plan =>
      pluginsForPlan format plan api.id := List.mem_flatMap.mpr ⟨plan, hplan, hplugin⟩
  obtain ⟨p, hp, hsame⟩ := exists_same_dedupePlugins hmem
  exact ⟨p, List.mem_append_left _ hp, hsame⟩

theorem consumerPlugins_subset {api : PlannedApi Config Target Client}
    (h : publishedPlans api.plans ≠ []) : consumerPlugins format ⊆ addedPlugins format api := by
  intro plugin hplugin
  apply List.mem_append_right
  simpa [h] using hplugin

end Routes

end Apis

end Otoroshi
