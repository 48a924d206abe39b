/-
# Which keys open an entity

A key opens an entity, by its id, when it is authorized on the entity itself, on the
api the entity belongs to or on one of its groups. The question is asked twice: of the
data stores, where everything is looked at as a service descriptor, and of the state
of the proxy, which the requests go by.

Both go by what the entity is filed under: an api and some groups.
`findAuthorizeKeyFor_agree_iff` says that the two answers are the same for all keys
exactly when both sides find the entity filed under the same.
-/

import Otoroshi.Apikeys.Authorizations

namespace Otoroshi

namespace EntityIdentifier

def isApi : EntityIdentifier → Bool
  | api _ => true
  | _ => false

end EntityIdentifier

namespace Entities

/-! ## Entities -/

structure RouteApiRef where
  id : Str
  deriving DecidableEq

def RouteApiRef.metadataKey : Str := "Otoroshi-Api-Ref".toList

structure ServiceDescriptor where
  id : Str
  groups : List Str
  metadata : AList fun _ : Str => Str

structure NgRoute where
  id : Str
  enabled : Bool
  groups : List Str := ["default".toList]
  metadata : AList fun _ : Str => Str := ∅
  apiRef : Option RouteApiRef := none

/-- A route as a service descriptor, which only has its metadata to refer to an api. -/
def NgRoute.legacy (route : NgRoute) : ServiceDescriptor where
  id := route.id
  groups := route.groups
  metadata :=
    match route.apiRef with
    | some apiRef => route.metadata.insert RouteApiRef.metadataKey apiRef.id
    | none => route.metadata

/-- A route of a composition. `rest` stands for the fields that are not read here. -/
structure NgMinimalRoute where
  rest : Str

structure NgRouteComposition where
  id : Str
  enabled : Bool
  groups : List Str := ["default".toList]
  metadata : AList fun _ : Str => Str := ∅
  routes : List NgMinimalRoute

/-- A composition that is not enabled has no routes. -/
def NgRouteComposition.toRoutes (composition : NgRouteComposition) : List NgRoute :=
  if composition.enabled then
    composition.routes.zipIdx.map fun route => {
      id := composition.id
      enabled := composition.enabled
      groups := composition.groups
      metadata :=
        (composition.metadata.insert "otoroshi-core-original-route-id".toList
          composition.id).insert "otoroshi-core-cacheable-route-id".toList
            (composition.id ++ '-' :: (toString route.2).toList) }
  else []

/-! ## Where they are kept -/

/-- The entities in the data stores, by id. -/
structure DataStores where
  serviceDescriptors : Str → Option ServiceDescriptor
  routes : Str → Option NgRoute
  routeCompositions : Str → Option NgRouteComposition

/-- The routes that are served and the compositions, as the proxy holds them. -/
structure NgProxyState where
  routes : Str → Option NgRoute
  routeCompositions : Str → Option NgRouteComposition

/-- The data stores and the state of the proxy. -/
structure Env where
  datastores : DataStores
  proxyState : NgProxyState

/-- The head of an empty sequence. -/
inductive LookupException
  | noSuchElement
  deriving DecidableEq

variable {Throttling Plugins : Type}

namespace KvServiceDescriptorDataStore

/-- `toRoutes.head.legacy` -/
def firstRoute (composition : NgRouteComposition) : Except LookupException ServiceDescriptor :=
  match composition.toRoutes with
  | route :: _ => .ok route.legacy
  | [] => .error .noSuchElement

def findOrRouteById (env : Env) (id : Str) : Except LookupException (Option ServiceDescriptor) :=
  match env.datastores.serviceDescriptors id with
  | some service => .ok (some service)
  | none =>
      match env.datastores.routes id with
      | some route => .ok (some route.legacy)
      | none =>
          match env.proxyState.routes id with
          | some route => .ok (some route.legacy)
          | none =>
              match env.datastores.routeCompositions id with
              | some composition => (firstRoute composition).map some
              | none => .ok none

end KvServiceDescriptorDataStore

open KvServiceDescriptorDataStore

/-! ## The two lookups -/

/-- The key is authorized on the entity itself. -/
def authorizedDirectly (apiKey : ApiKey Throttling Plugins) (serviceId : Str) : Bool :=
  apiKey.authorizedEntities.contains (.serviceDescriptor serviceId) ||
    apiKey.authorizedEntities.contains (.route serviceId) ||
    apiKey.authorizedEntities.contains (.routeComposition serviceId) ||
    apiKey.authorizedEntities.contains (.api serviceId)

/-- The key if it is authorized on one of the groups. -/
def authorizedOnGroups (apiKey : ApiKey Throttling Plugins) (groups : List Str) :
    Option (ApiKey Throttling Plugins) :=
  ((groups.map EntityIdentifier.serviceGroup).find?
    fun sgi => apiKey.authorizedEntities.contains sgi).map fun _ => apiKey

/-- The key if it is authorized on the api or on one of the groups. -/
def authorizedOnApiOrGroups (apiKey : ApiKey Throttling Plugins) (apiRef : Option Str)
    (groups : List Str) : Option (ApiKey Throttling Plugins) :=
  let apikeyApiAuthorizations :=
    (apiKey.authorizedEntities.filter EntityIdentifier.isApi).map EntityIdentifier.id
  match apiRef with
  | some apiRef =>
      if apikeyApiAuthorizations.contains apiRef then some apiKey
      else authorizedOnGroups apiKey groups
  | none => authorizedOnGroups apiKey groups

/-- Look a key up in the data stores, whose keys are given by their client ids. -/
def findAuthorizeKeyFor (env : Env) (apiKeys : Str → Option (ApiKey Throttling Plugins))
    (clientId serviceId : Str) :
    Except LookupException (Option (ApiKey Throttling Plugins)) := do
  match apiKeys clientId with
  | none => return none
  | some apiKey =>
      if authorizedDirectly apiKey serviceId then return some apiKey
      else
        match ← findOrRouteById env serviceId with
        | none =>
            match env.datastores.routeCompositions serviceId with
            | none => return none
            | some routeComp => return authorizedOnGroups apiKey routeComp.groups
        | some service =>
            return authorizedOnApiOrGroups apiKey
              (service.metadata.lookup RouteApiRef.metadataKey) service.groups

/-- The same in the state of the proxy. -/
def findAuthorizeKeyForFromCache (env : Env) (apikeys : Str → Option (ApiKey Throttling Plugins))
    (clientId serviceId : Str) : Option (ApiKey Throttling Plugins) :=
  match apikeys clientId with
  | none => none
  | some apiKey =>
      if authorizedDirectly apiKey serviceId then some apiKey
      else
        match env.proxyState.routes serviceId with
        | none =>
            match env.proxyState.routeCompositions serviceId with
            | none => none
            | some routeComp => authorizedOnGroups apiKey routeComp.groups
        | some service =>
            authorizedOnApiOrGroups apiKey (service.apiRef.map RouteApiRef.id) service.groups

/-! ## What an entity is filed under -/

section Filing

variable {apiKey : ApiKey Throttling Plugins} {serviceId : Str}

/-- The api and the groups through which a key opens an entity. -/
def filing (apiRef : Option Str) (groups : List Str) : List EntityIdentifier :=
  (apiRef.map EntityIdentifier.api).toList ++ groups.map EntityIdentifier.serviceGroup

/-- What the data stores file an entity under; `none` where looking it up throws. -/
def storedFiling (env : Env) (serviceId : Str) : Option (List EntityIdentifier) :=
  match findOrRouteById env serviceId with
  | .error _ => none
  | .ok (some service) =>
      some (filing (service.metadata.lookup RouteApiRef.metadataKey) service.groups)
  | .ok none =>
      match env.datastores.routeCompositions serviceId with
      | some routeComp => some (filing none routeComp.groups)
      | none => some []

/-- What the state of the proxy files an entity under. -/
def cachedFiling (env : Env) (serviceId : Str) : List EntityIdentifier :=
  match env.proxyState.routes serviceId with
  | some service => filing (service.apiRef.map RouteApiRef.id) service.groups
  | none =>
      match env.proxyState.routeCompositions serviceId with
      | some routeComp => filing none routeComp.groups
      | none => []

/-- The key is authorized on one of these. -/
def Opens (apiKey : ApiKey Throttling Plugins) (identifiers : List EntityIdentifier) : Prop :=
  ∃ identifier ∈ identifiers, identifier ∈ apiKey.authorizedEntities

instance (apiKey : ApiKey Throttling Plugins) (identifiers : List EntityIdentifier) :
    Decidable (Opens apiKey identifiers) :=
  inferInstanceAs (Decidable (∃ identifier ∈ identifiers, identifier ∈ apiKey.authorizedEntities))

theorem authorizedOnGroups_eq (apiKey : ApiKey Throttling Plugins) (groups : List Str) :
    authorizedOnGroups apiKey groups =
      if Opens apiKey (filing none groups) then some apiKey else none := by
  rw [authorizedOnGroups]
  cases hfind : (groups.map EntityIdentifier.serviceGroup).find? fun sgi =>
      apiKey.authorizedEntities.contains sgi with
  | some found =>
      have hopens : Opens apiKey (filing none groups) := by
        refine ⟨found, List.mem_of_find?_eq_some hfind, ?_⟩
        have hfound := List.find?_some hfind
        rwa [List.contains_iff_mem] at hfound
      rw [if_pos hopens]
      rfl
  | none =>
      have hclosed : ¬ Opens apiKey (filing none groups) := by
        rintro ⟨identifier, hmem, hauthorized⟩
        apply List.find?_eq_none.mp hfind identifier hmem
        exact List.contains_iff_mem.mpr hauthorized
      rw [if_neg hclosed]
      rfl

theorem mem_apiAuthorizations_iff (apiKey : ApiKey Throttling Plugins) (apiRef : Str) :
    ((apiKey.authorizedEntities.filter EntityIdentifier.isApi).map
        EntityIdentifier.id).contains apiRef = true ↔
      EntityIdentifier.api apiRef ∈ apiKey.authorizedEntities := by
  rw [List.contains_iff_mem, List.mem_map]
  constructor
  · rintro ⟨identifier, hmem, rfl⟩
    obtain ⟨hauthorized, hapi⟩ := List.mem_filter.mp hmem
    cases identifier with
    | api id => exact hauthorized
    | serviceGroup id => cases hapi
    | serviceDescriptor id => cases hapi
    | route id => cases hapi
    | routeComposition id => cases hapi
  · intro hauthorized
    exact ⟨.api apiRef, List.mem_filter.mpr ⟨hauthorized, rfl⟩, rfl⟩

theorem opens_some_iff (apiKey : ApiKey Throttling Plugins) (apiRef : Str) (groups : List Str) :
    Opens apiKey (filing (some apiRef) groups) ↔
      EntityIdentifier.api apiRef ∈ apiKey.authorizedEntities ∨
        Opens apiKey (filing none groups) := by
  simp [Opens, filing]

/-- A key is found through the api or a group of an entity exactly when it is authorized
on one of them. -/
theorem authorizedOnApiOrGroups_eq (apiKey : ApiKey Throttling Plugins) (apiRef : Option Str)
    (groups : List Str) :
    authorizedOnApiOrGroups apiKey apiRef groups =
      if Opens apiKey (filing apiRef groups) then some apiKey else none := by
  cases apiRef with
  | none => exact authorizedOnGroups_eq apiKey groups
  | some apiRef =>
      rw [authorizedOnApiOrGroups]
      by_cases hapi : EntityIdentifier.api apiRef ∈ apiKey.authorizedEntities
      · rw [if_pos ((mem_apiAuthorizations_iff apiKey apiRef).mpr hapi),
          if_pos ((opens_some_iff apiKey apiRef groups).mpr (Or.inl hapi))]
      · rw [if_neg (mt (mem_apiAuthorizations_iff apiKey apiRef).mp hapi),
          authorizedOnGroups_eq apiKey groups]
        simp only [opens_some_iff apiKey apiRef groups, hapi, false_or]

/-- A lookup in the data stores, for a key that is not authorized on the entity itself. -/
theorem findAuthorizeKeyFor_eq {env : Env} {apiKeys : Str → Option (ApiKey Throttling Plugins)}
    {clientId : Str} (hkey : apiKeys clientId = some apiKey)
    (hdirect : authorizedDirectly apiKey serviceId = false) :
    findAuthorizeKeyFor env apiKeys clientId serviceId =
      match storedFiling env serviceId with
      | some identifiers => .ok (if Opens apiKey identifiers then some apiKey else none)
      | none => .error .noSuchElement := by
  rw [findAuthorizeKeyFor, storedFiling, hkey]
  dsimp only
  rw [if_neg (by rw [hdirect]; exact Bool.false_ne_true)]
  cases hfind : findOrRouteById env serviceId with
  | error e =>
      cases e
      rfl
  | ok found =>
      cases found with
      | some service =>
          exact congrArg Except.ok (authorizedOnApiOrGroups_eq apiKey _ _)
      | none =>
          cases hcomposition : env.datastores.routeCompositions serviceId with
          | some routeComp =>
              simp only [ok_bind]
              exact congrArg Except.ok (authorizedOnGroups_eq apiKey _)
          | none =>
              simp only [ok_bind]
              rfl

/-- The same for a lookup in the state of the proxy. -/
theorem findAuthorizeKeyForFromCache_eq {env : Env}
    {apikeys : Str → Option (ApiKey Throttling Plugins)} {clientId : Str}
    (hkey : apikeys clientId = some apiKey)
    (hdirect : authorizedDirectly apiKey serviceId = false) :
    findAuthorizeKeyForFromCache env apikeys clientId serviceId =
      if Opens apiKey (cachedFiling env serviceId) then some apiKey else none := by
  rw [findAuthorizeKeyForFromCache, cachedFiling, hkey]
  dsimp only
  rw [if_neg (by rw [hdirect]; exact Bool.false_ne_true)]
  cases env.proxyState.routes serviceId with
  | some service => exact authorizedOnApiOrGroups_eq apiKey _ _
  | none =>
      cases env.proxyState.routeCompositions serviceId with
      | some routeComp => exact authorizedOnGroups_eq apiKey _
      | none => rfl

/-- A key that is found is the one with the id. -/
theorem apikeys_of_findAuthorizeKeyForFromCache {env : Env}
    {apikeys : Str → Option (ApiKey Throttling Plugins)} {clientId : Str}
    (h : findAuthorizeKeyForFromCache env apikeys clientId serviceId = some apiKey) :
    apikeys clientId = some apiKey := by
  cases hkey : apikeys clientId with
  | none =>
      rw [findAuthorizeKeyForFromCache, hkey] at h
      cases h
  | some found =>
      cases hdirect : authorizedDirectly found serviceId with
      | true =>
          rw [findAuthorizeKeyForFromCache, hkey] at h
          simpa [hdirect] using h
      | false =>
          rw [findAuthorizeKeyForFromCache_eq hkey hdirect] at h
          split at h
          · exact h
          · cases h

/-- A key that is authorized on one thing only. -/
def keyFor (identifier : EntityIdentifier) : ApiKey Throttling Plugins where
  clientId := "id".toList
  clientSecret := "secret".toList
  clientName := "name".toList
  authorizedEntities := [identifier]

theorem opens_keyFor_iff (identifier : EntityIdentifier) (identifiers : List EntityIdentifier) :
    Opens (keyFor identifier : ApiKey Throttling Plugins) identifiers ↔
      identifier ∈ identifiers := by
  simp [Opens, keyFor]

/-- What an entity is filed under is an api or a group. -/
theorem authorizedDirectly_keyFor {apiRef : Option Str} {groups : List Str}
    {identifier : EntityIdentifier} (hmem : identifier ∈ filing apiRef groups)
    (hself : identifier ≠ .api serviceId) :
    authorizedDirectly (keyFor identifier : ApiKey Throttling Plugins) serviceId = false := by
  cases identifier with
  | api id =>
      have hid : id ≠ serviceId := fun h => hself (congrArg EntityIdentifier.api h)
      simp [authorizedDirectly, keyFor, hid.symm]
  | serviceGroup id => simp [authorizedDirectly, keyFor]
  | serviceDescriptor id => simp [filing] at hmem
  | route id => simp [filing] at hmem
  | routeComposition id => simp [filing] at hmem

theorem exists_filing_of_mem_storedFiling {env : Env} {stored : List EntityIdentifier}
    (hstored : storedFiling env serviceId = some stored) {identifier : EntityIdentifier}
    (hmem : identifier ∈ stored) : ∃ apiRef groups, identifier ∈ filing apiRef groups := by
  rw [storedFiling] at hstored
  split at hstored
  · cases hstored
  · cases hstored
    exact ⟨_, _, hmem⟩
  · split at hstored
    · cases hstored
      exact ⟨_, _, hmem⟩
    · cases hstored
      cases hmem

theorem exists_filing_of_mem_cachedFiling {env : Env} {identifier : EntityIdentifier}
    (hmem : identifier ∈ cachedFiling env serviceId) :
    ∃ apiRef groups, identifier ∈ filing apiRef groups := by
  rw [cachedFiling] at hmem
  split at hmem
  · exact ⟨_, _, hmem⟩
  · split at hmem
    · exact ⟨_, _, hmem⟩
    · cases hmem

/-- Where the lookups answer alike for a key that is authorized on one thing only, both find
the entity filed under it, or neither does. -/
theorem mem_iff_of_agree {env : Env} {identifier : EntityIdentifier} {clientId : Str}
    (hdirect : authorizedDirectly (keyFor identifier : ApiKey Throttling Plugins) serviceId = false)
    (hagree : findAuthorizeKeyFor env
        (fun _ => some (keyFor identifier : ApiKey Throttling Plugins)) clientId serviceId =
      .ok (findAuthorizeKeyForFromCache env (fun _ => some (keyFor identifier)) clientId
        serviceId)) :
    ∃ stored, storedFiling env serviceId = some stored ∧
      (identifier ∈ stored ↔ identifier ∈ cachedFiling env serviceId) := by
  rw [findAuthorizeKeyFor_eq rfl hdirect, findAuthorizeKeyForFromCache_eq rfl hdirect] at hagree
  cases hstored : storedFiling env serviceId with
  | none =>
      rw [hstored] at hagree
      cases hagree
  | some stored =>
      refine ⟨stored, rfl, ?_⟩
      simp only [hstored, Except.ok.injEq, opens_keyFor_iff] at hagree
      by_cases hin : identifier ∈ stored
      · by_cases hcached : identifier ∈ cachedFiling env serviceId
        · exact iff_of_true hin hcached
        · rw [if_pos hin, if_neg hcached] at hagree
          cases hagree
      · by_cases hcached : identifier ∈ cachedFiling env serviceId
        · rw [if_neg hin, if_pos hcached] at hagree
          cases hagree
        · exact iff_of_false hin hcached

/-- A key that is not authorized directly is not authorized on an api with the id. -/
theorem not_mem_of_authorizedDirectly (hdirect : authorizedDirectly apiKey serviceId = false) :
    EntityIdentifier.api serviceId ∉ apiKey.authorizedEntities := by
  intro hauthorized
  rw [authorizedDirectly, List.contains_iff_mem.mpr hauthorized, Bool.or_true] at hdirect
  cases hdirect

theorem Opens.of_same {identifiers others : List EntityIdentifier}
    (hopens : Opens apiKey identifiers)
    (hself : EntityIdentifier.api serviceId ∉ apiKey.authorizedEntities)
    (hsame : ∀ identifier, identifier ≠ .api serviceId →
      identifier ∈ identifiers → identifier ∈ others) : Opens apiKey others := by
  obtain ⟨identifier, hmem, hauthorized⟩ := hopens
  have hne : identifier ≠ .api serviceId := fun h => hself (h ▸ hauthorized)
  exact ⟨identifier, hsame identifier hne hmem, hauthorized⟩

/-- Where an entity is filed alike, the lookups answer alike for every key. -/
theorem agree_of_same {env : Env} {stored : List EntityIdentifier}
    (hstored : storedFiling env serviceId = some stored)
    (hsame : ∀ identifier, identifier ≠ .api serviceId →
      (identifier ∈ stored ↔ identifier ∈ cachedFiling env serviceId))
    (apiKeys : Str → Option (ApiKey Throttling Plugins)) (clientId : Str) :
    findAuthorizeKeyFor env apiKeys clientId serviceId =
      .ok (findAuthorizeKeyForFromCache env apiKeys clientId serviceId) := by
  cases hkey : apiKeys clientId with
  | none =>
      rw [findAuthorizeKeyFor, findAuthorizeKeyForFromCache, hkey]
      rfl
  | some apiKey =>
      cases hdirect : authorizedDirectly apiKey serviceId with
      | true =>
          rw [findAuthorizeKeyFor, findAuthorizeKeyForFromCache, hkey]
          simp only [hdirect, if_true]
          rfl
      | false =>
          have hself := not_mem_of_authorizedDirectly hdirect
          have hopens : Opens apiKey stored ↔ Opens apiKey (cachedFiling env serviceId) := by
            constructor
            · intro h
              exact h.of_same hself fun identifier hne => (hsame identifier hne).mp
            · intro h
              exact h.of_same hself fun identifier hne => (hsame identifier hne).mpr
          rw [findAuthorizeKeyFor_eq hkey hdirect, findAuthorizeKeyForFromCache_eq hkey hdirect,
            hstored]
          simp only [hopens]

variable (Throttling Plugins) in
/-- The two lookups answer alike, for all keys and client ids, exactly when the one in the
data stores does not throw and both find the entity filed under the same api and groups.
An api with the id of the entity does not matter: it is looked for before. -/
theorem findAuthorizeKeyFor_agree_iff (env : Env) (serviceId : Str) :
    (∀ (apiKeys : Str → Option (ApiKey Throttling Plugins)) (clientId : Str),
      findAuthorizeKeyFor env apiKeys clientId serviceId =
        .ok (findAuthorizeKeyForFromCache env apiKeys clientId serviceId)) ↔
      ∃ stored, storedFiling env serviceId = some stored ∧
        ∀ identifier, identifier ≠ .api serviceId →
          (identifier ∈ stored ↔ identifier ∈ cachedFiling env serviceId) := by
  constructor
  · intro hagree
    -- the keys that are authorized on one thing only are enough
    have hkey : ∀ identifier apiRef groups, identifier ∈ filing apiRef groups →
        identifier ≠ .api serviceId →
        ∃ stored, storedFiling env serviceId = some stored ∧
          (identifier ∈ stored ↔ identifier ∈ cachedFiling env serviceId) := by
      intro identifier apiRef groups hmem hself
      have hdirect : authorizedDirectly (keyFor identifier : ApiKey Throttling Plugins) serviceId =
          false := authorizedDirectly_keyFor hmem hself
      exact mem_iff_of_agree hdirect (hagree (fun _ => some (keyFor identifier)) [])
    obtain ⟨stored, hstored, -⟩ :=
      hkey (.serviceGroup []) none [[]] (List.mem_singleton.mpr rfl) nofun
    refine ⟨stored, hstored, ?_⟩
    intro identifier hself
    have hfiled : ∀ apiRef groups, identifier ∈ filing apiRef groups →
        (identifier ∈ stored ↔ identifier ∈ cachedFiling env serviceId) := by
      intro apiRef groups hmem
      obtain ⟨found, hfound, hiff⟩ := hkey identifier apiRef groups hmem hself
      rw [hstored] at hfound
      cases hfound
      exact hiff
    constructor
    · intro hmem
      obtain ⟨apiRef, groups, hfiling⟩ := exists_filing_of_mem_storedFiling hstored hmem
      exact (hfiled apiRef groups hfiling).mp hmem
    · intro hmem
      obtain ⟨apiRef, groups, hfiling⟩ := exists_filing_of_mem_cachedFiling hmem
      exact (hfiled apiRef groups hfiling).mpr hmem
  · rintro ⟨stored, hstored, hsame⟩ apiKeys clientId
    exact agree_of_same hstored hsame apiKeys clientId

/-! ## Entities that are served -/

/-- A route that has no reference to an api has none in its metadata. -/
def NgRoute.Mirrored (route : NgRoute) : Prop :=
  route.apiRef = none → route.metadata.lookup RouteApiRef.metadataKey = none

/-- A composition that is not enabled. -/
def disabledComposition : NgRouteComposition where
  id := "composition".toList
  enabled := false
  groups := ["group".toList]
  routes := [⟨[]⟩]

/-- A route that is not enabled. -/
def disabledRoute : NgRoute where
  id := "route".toList
  enabled := false
  groups := ["group".toList]

/-- The data stores hold both, and the proxy, which serves no route, the composition. -/
def disabledEnv : Env where
  datastores := {
    serviceDescriptors := fun _ => none
    routes := fun id => if id = disabledRoute.id then some disabledRoute else none
    routeCompositions := fun id =>
      if id = disabledComposition.id then some disabledComposition else none }
  proxyState := {
    routes := fun _ => none
    routeCompositions := fun id =>
      if id = disabledComposition.id then some disabledComposition else none }

/-- A key for the group opens the composition for the proxy, while the data stores throw.
It opens the route for the data stores, and not for the proxy. -/
theorem findAuthorizeKeyFor_ne :
    (findAuthorizeKeyFor disabledEnv
        (fun _ => some (keyFor (.serviceGroup "group".toList) : ApiKey Unit Unit)) "id".toList
        "composition".toList = .error .noSuchElement ∧
      findAuthorizeKeyForFromCache disabledEnv
        (fun _ => some (keyFor (.serviceGroup "group".toList) : ApiKey Unit Unit)) "id".toList
        "composition".toList = some (keyFor (.serviceGroup "group".toList))) ∧
    (findAuthorizeKeyFor disabledEnv
        (fun _ => some (keyFor (.serviceGroup "group".toList) : ApiKey Unit Unit)) "id".toList
        "route".toList = .ok (some (keyFor (.serviceGroup "group".toList))) ∧
      findAuthorizeKeyForFromCache disabledEnv
        (fun _ => some (keyFor (.serviceGroup "group".toList) : ApiKey Unit Unit)) "id".toList
        "route".toList = none) :=
  ⟨⟨rfl, rfl⟩, rfl, rfl⟩

end Filing

end Entities

end Otoroshi
