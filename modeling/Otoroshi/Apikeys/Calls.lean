/-
# The credential of a served route

A route that wants a key looks for a credential twice: perhaps when it is a candidate for
the request, to see whether the key suits it, and when it is served. Each route has its own
extractors. What a candidate finds is kept in the attributes of the request, and nothing
takes it out again, so it is what the served route looks at.

`Holds.of_matchAll` says which credential is kept after any candidates: that of the
first one that looks for a credential and finds one. `access_own_iff` says when this is a
credential of the served route.
-/

import Mathlib.Data.List.Lattice
import Otoroshi.Apikeys.Validation

namespace Otoroshi

variable {Throttling Plugins : Type}

/-! ## Tags and metadata -/

/-- `findOne` -/
def findOne {α : Type} [DecidableEq α] (seq given : List α) : Bool :=
  !(seq.bagInter given).isEmpty

/-- `findAll` -/
def findAll {α : Type} [DecidableEq α] (seq given : List α) : Bool :=
  (seq.bagInter given).dedup.length == given.length

/-- `toSeq` -/
def toSeq (metadata : AList fun _ : Str => Str) : List (Str × Str) :=
  metadata.entries.map fun entry => (entry.1, entry.2)

/-- Nothing is asked, or what is asked holds. -/
def ifAsked {α : Type} (given : List α) (holds : List α → Bool) : Bool :=
  given.isEmpty || holds given

def ApiKeyRouteMatcher.hasNoRoutingConstraints (routing : ApiKeyRouteMatcher) : Bool :=
  (toSeq routing.oneMetaIn).isEmpty && (toSeq routing.allMetaIn).isEmpty &&
    routing.oneTagIn.isEmpty && routing.allTagsIn.isEmpty && routing.noneTagIn.isEmpty &&
    (toSeq routing.noneMetaIn).isEmpty && routing.oneMetaKeyIn.isEmpty &&
    routing.allMetaKeysIn.isEmpty && routing.noneMetaKeysIn.isEmpty

namespace Entities

/-- The id of the route a route was made from, if it was. -/
def NgRoute.cacheableId (route : NgRoute) : Str :=
  ((route.metadata.lookup "otoroshi-core-original-route-id".toList).filter
    fun id => !id.isEmpty).getD route.id

namespace ApiKey

variable (apiKey : ApiKey Throttling Plugins)

def matchRouting (routing : ApiKeyRouteMatcher) : Bool :=
  if routing.hasNoRoutingConstraints && apiKey.constrainedServicesOnly then false
  else if routing.hasNoRoutingConstraints then true
  else
    let metas := toSeq apiKey.metadata
    let metaKeys := metas.map Prod.fst
    ifAsked routing.oneTagIn (findOne apiKey.tags) &&
      ifAsked routing.allTagsIn (findAll apiKey.tags) &&
      ifAsked routing.noneTagIn (fun tags => !findOne apiKey.tags tags) &&
      ifAsked (toSeq routing.oneMetaIn) (findOne metas) &&
      ifAsked (toSeq routing.allMetaIn) (findAll metas) &&
      ifAsked (toSeq routing.noneMetaIn) (fun given => !findOne metas given) &&
      ifAsked routing.oneMetaKeyIn (findOne metaKeys) &&
      ifAsked routing.allMetaKeysIn (findAll metaKeys) &&
      ifAsked routing.noneMetaKeysIn (fun keys => !findOne metaKeys keys)

def authorizedOnApi (id : Str) : Bool :=
  (apiKey.apiRef.any fun ref => ref.api == id) || apiKey.authorizedEntities.contains (.api id)

def authorizedOnServiceOrGroups (service : Str) (groups : List Str) : Bool :=
  apiKey.authorizedEntities.contains (.serviceDescriptor service) ||
    apiKey.authorizedEntities.contains (.route service) || apiKey.authorizedOnApi service ||
    apiKey.authorizedEntities.contains (.routeComposition service) ||
    apiKey.authorizedEntities.any fun entity =>
      (groups.map EntityIdentifier.serviceGroup).contains entity

end ApiKey

end Entities

namespace Credentials

/-! ## The configuration of the plugin -/

/-- The extractors have the fields of the constraints they stand for. -/
structure NgApikeyExtractors where
  basic : BasicAuthConstraints := {}
  customHeaders : CustomHeadersAuthConstraints := {}
  clientId : ClientIdAuthConstraints := {}
  jwt : JwtAuthConstraints := {}
  otoBearer : OtoBearerConstraints := {}

structure NgApikeyMatcher extends ApiKeyRouteMatcher where
  enabled : Bool := false

structure NgApikeyCallsConfig where
  extractors : NgApikeyExtractors := {}
  routing : NgApikeyMatcher := {}
  wipeBackendRequest : Bool := true
  validate : Bool := true
  mandatory : Bool := true
  passWithUser : Bool := false
  updateQuotas : Bool := true

def NgApikeyCallsConfig.legacy (config : NgApikeyCallsConfig) : ApiKeyConstraints where
  basicAuth := config.extractors.basic
  customHeadersAuth := config.extractors.customHeaders
  clientIdAuth := config.extractors.clientId
  jwtAuth := config.extractors.jwt
  otoBearerAuth := config.extractors.otoBearer
  routing := config.routing.toApiKeyRouteMatcher

/-- A route with the configuration of its plugin. -/
structure Candidate where
  route : Entities.NgRoute
  config : NgApikeyCallsConfig

/-- An error page. -/
structure Refusal where
  status : Nat
  message : String
  code : String
  deriving DecidableEq

inductive NgAccess
  | allowed
  | denied (refusal : Refusal)
  deriving DecidableEq

/-- What is asked of a key that was accepted: its restrictions on a service, and its limits,
where the use may be counted. -/
structure KeyChecks (Throttling Plugins : Type) where
  handleRestrictions : Str → Entities.ApiKey Throttling Plugins → RequestHeader → Option Refusal
  withinQuotas : (incrementQuotas : Bool) → Entities.ApiKey Throttling Plugins → Bool

/-! ## The plugin -/

section Plugin

variable (P : SignaturePlatform) (env : ApikeyEnv Throttling Plugins)
  (checks : KeyChecks Throttling Plugins) (req : RequestHeader)

def detect (constraints : ApiKeyConstraints) : AttrsM Throttling Plugins (Option ApikeyTuple) := do
  let attrs ← Stateful.get
  Stateful.ofExcept
    (detectApikeyTuple P.toTextPlatform env.toGateway req constraints attrs)

/-- The candidate has a routing that looks at keys. -/
def Candidate.looks (candidate : Candidate) : Bool :=
  candidate.config.routing.enabled && !candidate.config.routing.hasNoRoutingConstraints

/-- `matches` -/
def matchesRoute (candidate : Candidate) : AttrsM Throttling Plugins Bool :=
  if candidate.looks then do
    match ← detect P env req candidate.config.legacy with
    | none => return true
    | some tuple => do
        Stateful.modify fun attrs => { attrs with preExtractedApikeyTuple := some tuple }
        let either ← validateApikeyTuple P env req candidate.config.legacy tuple candidate.route.id
        Stateful.modify fun attrs =>
          { attrs with preExtractedApikey := some (candidate.route.id, either) }
        match either with
        | .error _ => return false
        | .ok apikey => return apikey.matchRouting candidate.config.legacy.routing
  else return true

/-- What follows from a verdict. -/
def judge (constraints : ApiKeyConstraints) (service : Str)
    (incrementQuotas routingEnabled : Bool) (verdict : Verdict Throttling Plugins) :
    Except Refusal (Entities.ApiKey Throttling Plugins) :=
  match verdict with
  | .error (none, _) => .error ⟨400, "invalid apikey tuple", "errors.invalid.api.key.tuple"⟩
  | .error (some _, _) => .error ⟨401, "bad apikey", "errors.bad.api.key"⟩
  | .ok apikey =>
      if routingEnabled && !apikey.matchRouting constraints.routing then
        .error ⟨401, "invalid apikey", "errors.invalid.api.key"⟩
      else
        match checks.handleRestrictions service apikey req with
        | some refusal => .error refusal
        | none =>
            if checks.withinQuotas incrementQuotas apikey then .ok apikey
            else .error ⟨429, "You performed too much requests", "errors.too.much.requests"⟩

def passWithApiKeyFromCache (constraints : ApiKeyConstraints) (service : Str)
    (incrementQuotas routingEnabled : Bool) :
    AttrsM Throttling Plugins (Except Refusal (Entities.ApiKey Throttling Plugins)) := do
  match ← detect P env req constraints with
  | none => return .error ⟨400, "no apikey", "errors.no.api.key"⟩
  | some apikeyTuple => do
      Stateful.modify fun attrs => { attrs with
        preExtractedApikeyTuple := attrs.preExtractedApikeyTuple.or (some apikeyTuple) }
      let verdict ← validateApikeyTuple P env req constraints apikeyTuple service
      return judge checks req constraints service incrementQuotas routingEnabled verdict

/-- A key that another plugin set. -/
def checkPresetApikey (now : Int) (candidate : Candidate)
    (apikey : Entities.ApiKey Throttling Plugins) : NgAccess :=
  let routeId := candidate.route.cacheableId
  let authorized := apikey.authorizedOnServiceOrGroups routeId candidate.route.groups ||
    candidate.route.apiRef.any fun ref => apikey.authorizedOnApi ref.id
  if apikey.isInactive now then .denied ⟨401, "bad apikey", "errors.bad.api.key"⟩
  else if !authorized then .denied ⟨401, "invalid apikey", "errors.invalid.api.key"⟩
  else if candidate.config.routing.enabled &&
      !apikey.matchRouting candidate.config.legacy.routing then
    .denied ⟨401, "invalid apikey", "errors.invalid.api.key"⟩
  else
    match checks.handleRestrictions routeId apikey req with
    | some refusal => .denied refusal
    | none => .allowed

/-- A user passes if the configuration says so. `session` is the user of a valid session. -/
def passes (config : NgApikeyCallsConfig) (session : Option PrivateAppsUser) :
    AttrsM Throttling Plugins Bool :=
  if config.passWithUser then do
    let attrs ← Stateful.get
    match attrs.user with
    | some _ => return true
    | none =>
        match session with
        | some user => do
            Stateful.modify fun attrs => { attrs with user := some user }
            return true
        | none => return false
  else return false

/-- Accept the key of the request, or answer to the refusal. -/
def accessWith (candidate : Candidate) (refused : Refusal → NgAccess) :
    AttrsM Throttling Plugins NgAccess := do
  let config := candidate.config
  match ← passWithApiKeyFromCache P env checks req config.legacy candidate.route.cacheableId
      config.updateQuotas config.routing.enabled with
  | .error refusal => return refused refusal
  | .ok apikey => do
      Stateful.modify fun attrs => { attrs with apiKey := some apikey }
      return .allowed

/-- A request without a key may pass where a key is not mandatory. -/
def unlessMissing (refusal : Refusal) : NgAccess :=
  if refusal.status = 400 &&
      (refusal.message = "no apikey" || refusal.message = "invalid apikey tuple") then .allowed
  else .denied refusal

def access (now : Int) (candidate : Candidate) (session : Option PrivateAppsUser) :
    AttrsM Throttling Plugins NgAccess := do
  let config := candidate.config
  let pass ← passes config session
  let attrs ← Stateful.get
  match attrs.apiKey with
  | none =>
      if config.validate && config.mandatory && !pass then
        accessWith P env checks req candidate .denied
      else if config.validate && !config.mandatory && !pass then
        accessWith P env checks req candidate unlessMissing
      else if !config.validate && !config.mandatory && !pass then
        accessWith P env checks req candidate fun _ => .allowed
      else return .allowed
  | some apikey =>
      if config.validate && !pass then return checkPresetApikey checks req now candidate apikey
      else return .allowed

/-- The candidates of a request, one after the other. -/
def matchAll : List Candidate → AttrsM Throttling Plugins (List Bool)
  | [] => pure []
  | candidate :: candidates => do
      let answer ← matchesRoute P env req candidate
      let answers ← matchAll candidates
      return answer :: answers

end Plugin

/-! ## The credential that is kept -/

section Kept

variable (P : SignaturePlatform) (env : ApikeyEnv Throttling Plugins)
  (checks : KeyChecks Throttling Plugins) (req : RequestHeader)

/-- The credential the extractors find in the request itself. The path parameters are those
of a route, if one was found. -/
def own (constraints : ApiKeyConstraints) (route : Option NgMatchedRoute) :
    Except ApikeyException (Option ApikeyTuple) :=
  detectApikeyTuple P.toTextPlatform env.toGateway req constraints
    ({ matchedRoute := route } : RequestAttrs Throttling Plugins)

/-- What a candidate finds, if it looks. -/
def Candidate.finds (candidate : Candidate) : Option ApikeyTuple :=
  if candidate.looks then (own P env req candidate.config.legacy none).toOption.join else none

/-- The attributes hold this credential. No key is set, and a key that was accepted for the
credential has its id. -/
structure Holds (first : Option ApikeyTuple) (route : Option NgMatchedRoute)
    (attrs : RequestAttrs Throttling Plugins) : Prop where
  tuple : attrs.preExtractedApikeyTuple = first
  verdict : ∀ id key, attrs.preExtractedApikey = some (id, .ok key) →
    ∃ tuple, first = some tuple ∧ tuple.clientId = some key.clientId
  apiKey : attrs.apiKey = none
  matchedRoute : attrs.matchedRoute = route

variable {P env checks req} {first : Option ApikeyTuple} {route : Option NgMatchedRoute}
  {attrs after : RequestAttrs Throttling Plugins} {constraints : ApiKeyConstraints}

/-- The credential that is held is detected, or else the one in the request. -/
theorem Holds.detect_eq (h : Holds first route attrs) :
    detectApikeyTuple P.toTextPlatform env.toGateway req constraints attrs =
      first.elim (own P env req constraints route) fun tuple => .ok (some tuple) := by
  cases first with
  | some tuple =>
      rw [detectApikeyTuple, h.tuple]
      rfl
  | none =>
      have hparams : attrs.pathParams =
          ({ matchedRoute := route } : RequestAttrs Throttling Plugins).pathParams := by
        rw [RequestAttrs.pathParams, RequestAttrs.pathParams, h.matchedRoute]
      rw [Option.elim_none, own, detectApikeyTuple_eq _ _ _ _ h.tuple h.apiKey, hparams]
      exact (detectApikeyTuple_eq _ _ _ _ rfl rfl).symm

/-- A key that is accepted for the credential that is held has its id. -/
theorem Holds.clientId_of_validate {tuple : ApikeyTuple} {service : Str}
    {key : Entities.ApiKey Throttling Plugins} (h : Holds (some tuple) route attrs)
    (hvalid : validateApikeyTuple P env req constraints tuple service attrs =
      (.ok (.ok key), after)) : tuple.clientId = some key.clientId := by
  have hget : Stateful.get attrs =
      ((.ok attrs, attrs) : Except ApikeyException _ × RequestAttrs Throttling Plugins) := rfl
  rw [validateApikeyTuple, Stateful.bind_of_ok hget] at hvalid
  cases hkept : attrs.preExtractedApikey.filter fun verdict => verdict.1 == service with
  | some verdict =>
      obtain ⟨id, either⟩ := verdict
      rw [hkept] at hvalid
      obtain ⟨hverdict, -⟩ := Option.filter_eq_some_iff.mp hkept
      have heither : either = .ok key := Except.ok.inj (congrArg Prod.fst hvalid)
      rw [heither] at hverdict
      obtain ⟨held, hheld, hid⟩ := h.verdict id key hverdict
      cases hheld
      exact hid
  | none =>
      rw [hkept] at hvalid
      obtain ⟨apikey, hid, -, hrun⟩ := authorized_of_validateFound hvalid
      obtain ⟨rfl, -, -⟩ := proves_of_validateFor hrun
      exact hid

theorem Holds.of_untouched (h : Holds first route attrs) (huntouched : Untouched attrs after) :
    Holds first route after where
  tuple := huntouched.tuple.trans h.tuple
  verdict id key hverdict := h.verdict id key (huntouched.verdict.symm.trans hverdict)
  apiKey := huntouched.apiKey.trans h.apiKey
  matchedRoute := huntouched.matchedRoute.trans h.matchedRoute

theorem untouched_self (attrs : RequestAttrs Throttling Plugins) : Untouched attrs attrs :=
  ⟨rfl, rfl, rfl, rfl⟩

theorem Holds.of_validate {tuple : ApikeyTuple} {service : Str}
    {verdict : Verdict Throttling Plugins} (h : Holds first route attrs)
    (hvalid : validateApikeyTuple P env req constraints tuple service attrs =
      (.ok verdict, after)) : Holds first route after := by
  have hkeeps : Stateful.Keeps (Untouched attrs)
      (validateApikeyTuple P env req constraints tuple service) :=
    keeps_validateApikeyTuple attrs service
  have huntouched := hkeeps attrs (untouched_self attrs)
  rw [hvalid] at huntouched
  exact h.of_untouched huntouched

theorem Holds.eq_of_detect {found : Option ApikeyTuple} (h : Holds first route attrs)
    (hrun : detect P env req constraints attrs = (.ok found, after)) :
    after = attrs ∧ found = first.or (own P env req constraints route).toOption.join ∧
      (first = none → own P env req constraints route = .ok found) := by
  have hdetect : (detectApikeyTuple P.toTextPlatform env.toGateway req constraints attrs, attrs) =
      (.ok found, after) := hrun
  rw [h.detect_eq] at hdetect
  obtain ⟨hfound, hafter⟩ := Prod.mk.inj hdetect
  cases first with
  | some tuple =>
      cases hfound
      exact ⟨hafter.symm, rfl, nofun⟩
  | none =>
      rw [Option.elim_none] at hfound
      rw [hfound]
      exact ⟨hafter.symm, rfl, fun _ => rfl⟩

/-! ### One candidate -/

/-- The credential that is found is kept. -/
theorem Holds.of_found {tuple : ApikeyTuple} {rest : Option ApikeyTuple}
    (h : Holds first route attrs) (hfound : some tuple = first.or rest) :
    Holds (some tuple) route { attrs with preExtractedApikeyTuple := some tuple } where
  tuple := rfl
  verdict id key hverdict := by
    obtain ⟨held, hheld, hid⟩ := h.verdict id key hverdict
    rw [hheld, Option.some_or] at hfound
    exact ⟨held, hfound, hid⟩
  apiKey := h.apiKey
  matchedRoute := h.matchedRoute

/-- A verdict on the credential that is held is kept with it. -/
theorem Holds.of_verdict {tuple : ApikeyTuple} {id : Str}
    {verdict : Verdict Throttling Plugins} (h : Holds (some tuple) route attrs)
    (hverdict : ∀ key, verdict = .ok key → tuple.clientId = some key.clientId) :
    Holds (some tuple) route { attrs with preExtractedApikey := some (id, verdict) } where
  tuple := h.tuple
  verdict id' key hkept := by
    cases hkept
    exact ⟨tuple, rfl, hverdict key rfl⟩
  apiKey := h.apiKey
  matchedRoute := h.matchedRoute

/-- A candidate leaves what is held, or what it finds if nothing is. -/
theorem Holds.of_matchesRoute {candidate : Candidate} {answer : Bool}
    (h : Holds first none attrs)
    (hrun : matchesRoute P env req candidate attrs = (.ok answer, after)) :
    Holds (first.or (candidate.finds P env req)) none after := by
  rw [matchesRoute] at hrun
  rw [Candidate.finds]
  cases hlooks : candidate.looks with
  | false =>
      rw [hlooks] at hrun
      cases hrun
      simpa using h
  | true =>
      rw [hlooks] at hrun
      obtain ⟨found, middle, hdetect, hnext⟩ := Stateful.exists_of_bind hrun
      obtain ⟨hmiddle, hfound, -⟩ := h.eq_of_detect hdetect
      subst hmiddle
      rw [if_pos rfl, ← hfound]
      cases found with
      | none =>
          cases hnext
          have hnone : first = none := (Option.or_eq_none_iff.mp hfound.symm).1
          rwa [hnone] at h
      | some tuple =>
          have hheld := h.of_found hfound
          obtain ⟨_, stored, hstored, hvalidate⟩ := Stateful.exists_of_bind hnext
          cases hstored
          obtain ⟨either, judged, hvalid, hlast⟩ := Stateful.exists_of_bind hvalidate
          have hjudged : Holds (some tuple) none judged := hheld.of_validate hvalid
          have hid : ∀ key, either = .ok key → tuple.clientId = some key.clientId := by
            rintro key rfl
            exact hheld.clientId_of_validate hvalid
          have hafter : after =
              { judged with preExtractedApikey := some (candidate.route.id, either) } := by
            cases either with
            | error refused =>
                cases hlast
                rfl
            | ok apikey =>
                cases hlast
                rfl
          rw [hafter]
          exact hjudged.of_verdict hid

/-! ### All candidates -/

/-- After the candidates, the credential of the first one that looks and finds one is
held. -/
theorem Holds.of_matchAll {candidates : List Candidate} {answers : List Bool}
    (h : Holds first none attrs)
    (hrun : matchAll P env req candidates attrs = (.ok answers, after)) :
    Holds (first.or (candidates.findSome? fun candidate => candidate.finds P env req)) none
      after := by
  induction candidates generalizing first attrs answers with
  | nil =>
      cases hrun
      simpa using h
  | cons candidate candidates ih =>
      obtain ⟨answer, middle, hstep, hnext⟩ := Stateful.exists_of_bind hrun
      obtain ⟨rest, last, hrest, hlast⟩ := Stateful.exists_of_bind hnext
      cases hlast
      have hall := ih (h.of_matchesRoute hstep) hrest
      rw [Option.or_assoc] at hall
      rw [List.findSome?_cons]
      cases hfinds : candidate.finds P env req with
      | none => simpa [hfinds] using hall
      | some tuple => simpa [hfinds] using hall

/-! ### The served route -/

/-- A key that passes is the one that was accepted. -/
theorem eq_of_judge {service : Str} {incrementQuotas routingEnabled : Bool}
    {verdict : Verdict Throttling Plugins} {key : Entities.ApiKey Throttling Plugins}
    (h : judge checks req constraints service incrementQuotas routingEnabled verdict = .ok key) :
    verdict = .ok key := by
  unfold judge at h
  split at h
  · cases h
  · cases h
  · split at h
    · cases h
    · split at h
      · cases h
      · split at h
        · cases h
          rfl
        · cases h

/-- The key that is accepted is for the credential that was held, or else for the one in the
request, which is held then. -/
theorem Holds.exists_of_pass {service : Str} {incrementQuotas routingEnabled : Bool}
    {answer : Except Refusal (Entities.ApiKey Throttling Plugins)} (h : Holds first route attrs)
    (hrun : passWithApiKeyFromCache P env checks req constraints service incrementQuotas
      routingEnabled attrs = (.ok answer, after)) :
    after.apiKey = none ∧ ∀ key, answer = .ok key →
      ∃ tuple, some tuple = first.or (own P env req constraints route).toOption.join ∧
        (first = none → own P env req constraints route = .ok (some tuple)) ∧
        tuple.clientId = some key.clientId ∧ after.preExtractedApikeyTuple = some tuple := by
  rw [passWithApiKeyFromCache] at hrun
  obtain ⟨found, middle, hdetect, hnext⟩ := Stateful.exists_of_bind hrun
  obtain ⟨hmiddle, hfound, hown⟩ := h.eq_of_detect hdetect
  subst hmiddle
  cases found with
  | none =>
      cases hnext
      refine ⟨h.apiKey, ?_⟩
      intro key hkey
      cases hkey
  | some tuple =>
      obtain ⟨_, stored, hstored, hvalidate⟩ := Stateful.exists_of_bind hnext
      obtain ⟨verdict, judged, hvalid, hlast⟩ := Stateful.exists_of_bind hvalidate
      have hput : middle.preExtractedApikeyTuple.or (some tuple) = some tuple := by
        rw [h.tuple]
        cases first with
        | none => rfl
        | some held =>
            cases hfound
            rfl
      have hstate : stored = { middle with preExtractedApikeyTuple := some tuple } := by
        rw [← hput]
        cases hstored
        rfl
      have hheld := h.of_found hfound
      rw [← hstate] at hheld
      have hjudged : Holds (some tuple) route judged := hheld.of_validate hvalid
      cases hlast
      refine ⟨hjudged.apiKey, ?_⟩
      intro key hkey
      rw [eq_of_judge hkey] at hvalid
      exact ⟨tuple, hfound, hown, hheld.clientId_of_validate hvalid, hjudged.tuple⟩

theorem Holds.of_passes {config : NgApikeyCallsConfig} {session : Option PrivateAppsUser}
    {pass : Bool} (h : Holds first route attrs)
    (hrun : passes config session attrs = (.ok pass, after)) : Holds first route after := by
  have hkeeps : Stateful.Keeps (Holds first route)
      (passes config session : AttrsM Throttling Plugins Bool) := by
    unfold passes
    split
    · refine Stateful.keeps_bind Stateful.keeps_get ?_
      intro found _ _ _
      split
      · exact Stateful.keeps_pure _
      · split
        · refine Stateful.keeps_bind (Stateful.keeps_modify ?_) ?_
          · intro state hstate
            exact ⟨hstate.tuple, hstate.verdict, hstate.apiKey, hstate.matchedRoute⟩
          · intro _ _ _ _
            exact Stateful.keeps_pure _
        · exact Stateful.keeps_pure _
    · exact Stateful.keeps_pure _
  have hafter := hkeeps attrs h
  rwa [hrun] at hafter

/-- If a key is set, it is for the credential that was held, or else for the one in the
request. -/
theorem Holds.exists_of_accessWith {candidate : Candidate} {refused : Refusal → NgAccess}
    {answer : NgAccess} {key : Entities.ApiKey Throttling Plugins} (h : Holds first route attrs)
    (hrun : accessWith P env checks req candidate refused attrs = (.ok answer, after))
    (hset : after.apiKey = some key) :
    ∃ tuple, some tuple = first.or (own P env req candidate.config.legacy route).toOption.join ∧
      (first = none → own P env req candidate.config.legacy route = .ok (some tuple)) ∧
      tuple.clientId = some key.clientId ∧ after.preExtractedApikeyTuple = some tuple := by
  rw [accessWith] at hrun
  obtain ⟨result, middle, hpass, hnext⟩ := Stateful.exists_of_bind hrun
  obtain ⟨hnone, haccepted⟩ := h.exists_of_pass hpass
  cases result with
  | error refusal =>
      cases hnext
      rw [hnone] at hset
      cases hset
  | ok apikey =>
      cases hnext
      cases hset
      exact haccepted key rfl

theorem Holds.exists_of_access {candidate : Candidate} {now : Int}
    {session : Option PrivateAppsUser} {answer : NgAccess}
    {key : Entities.ApiKey Throttling Plugins} (h : Holds first route attrs)
    (hrun : access P env checks req now candidate session attrs = (.ok answer, after))
    (hset : after.apiKey = some key) :
    ∃ tuple, some tuple = first.or (own P env req candidate.config.legacy route).toOption.join ∧
      (first = none → own P env req candidate.config.legacy route = .ok (some tuple)) ∧
      tuple.clientId = some key.clientId ∧ after.preExtractedApikeyTuple = some tuple := by
  rw [access] at hrun
  obtain ⟨pass, middle, hpass, hnext⟩ := Stateful.exists_of_bind hrun
  have hmiddle := h.of_passes hpass
  have hget : Stateful.get middle = ((.ok middle, middle) :
      Except ApikeyException _ × RequestAttrs Throttling Plugins) := rfl
  rw [Stateful.bind_of_ok hget, hmiddle.apiKey] at hnext
  dsimp only at hnext
  split at hnext
  · exact hmiddle.exists_of_accessWith hnext hset
  · split at hnext
    · exact hmiddle.exists_of_accessWith hnext hset
    · split at hnext
      · exact hmiddle.exists_of_accessWith hnext hset
      · cases hnext
        rw [hmiddle.apiKey] at hset
        cases hset

/-- Path parameters that the extractors do not look at do not matter. -/
theorem own_of_unbound {found : NgMatchedRoute}
    (h : ∀ name ∈ pathNames constraints, found.pathParams.lookup name = none) :
    own P env req constraints (some found) = own P env req constraints none := by
  have hown (route : Option NgMatchedRoute) : own P env req constraints route =
      (credentialOf P.toTextPlatform env.toGateway req constraints
        ({ matchedRoute := route } : RequestAttrs Throttling Plugins).pathParams).map
          (Option.map Credential.tuple) :=
    detectApikeyTuple_eq _ _ _ _ rfl rfl
  rw [hown, hown]
  exact congrArg (Except.map (Option.map Credential.tuple))
    (credentialOf_of_unbound P.toTextPlatform env.toGateway req constraints found.pathParams h)

/-- The candidates of a request are tried, and one of its routes is served and accepts a
key. The credential of the key is one that the extractors of the route find exactly when
the first candidate that looks for a credential and finds one finds the same. -/
theorem access_own_iff {candidates : List Candidate} {served : Candidate}
    {found : NgMatchedRoute} {user session : Option PrivateAppsUser} {now : Int}
    {answers : List Bool} {matched : RequestAttrs Throttling Plugins}
    {key : Entities.ApiKey Throttling Plugins}
    (hmatched : matchAll P env req candidates {} = (.ok answers, matched))
    (haccess : access P env checks req now served session
      { matched with matchedRoute := some found, user } = (.ok .allowed, after))
    (haccepted : after.apiKey = some key) :
    ∃ tuple, after.preExtractedApikeyTuple = some tuple ∧
      tuple.clientId = some key.clientId ∧
      (own P env req served.config.legacy (some found) = .ok (some tuple) ↔
        ∀ first, (candidates.findSome? fun candidate => candidate.finds P env req) = some first →
          own P env req served.config.legacy (some found) = .ok (some first)) ∧
      ((∀ name ∈ pathNames served.config.legacy, found.pathParams.lookup name = none) →
        own P env req served.config.legacy (some found) =
          own P env req served.config.legacy none) := by
  have hstart : Holds none none ({} : RequestAttrs Throttling Plugins) := by
    refine ⟨rfl, ?_, rfl, rfl⟩
    intro id key hverdict
    cases hverdict
  have hmatching := hstart.of_matchAll hmatched
  rw [Option.none_or] at hmatching
  have hserved : Holds (candidates.findSome? fun candidate => candidate.finds P env req)
      (some found) { matched with matchedRoute := some found, user } :=
    ⟨hmatching.tuple, hmatching.verdict, hmatching.apiKey, rfl⟩
  obtain ⟨tuple, htuple, hown, hid, hkept⟩ := hserved.exists_of_access haccess haccepted
  refine ⟨tuple, hkept, hid, ?_, own_of_unbound⟩
  cases hfirst : candidates.findSome? fun candidate => candidate.finds P env req with
  | none =>
      rw [hfirst] at hown
      exact iff_of_true (hown rfl) nofun
  | some first =>
      rw [hfirst, Option.some_or] at htuple
      cases htuple
      constructor
      · rintro htuple first' hsome
        cases hsome
        exact htuple
      · intro hall
        exact hall tuple rfl

end Kept

/-! ### A credential of another route -/

section Example

/-- A route that wants keys with a tag. -/
def taggedConfig : NgApikeyCallsConfig where
  routing := { enabled := true, oneTagIn := ["tag".toList] }

/-- A route that does not take the id of a key alone. -/
def strictConfig : NgApikeyCallsConfig where
  extractors := { clientId := { enabled := false } }

def exampleRoute : Entities.NgRoute where
  id := "route".toList
  enabled := true

def otherRoute : Entities.NgRoute where
  id := "other".toList
  enabled := true

/-- The key has the tag, and its id is enough where ids are taken. -/
def taggedKey : Entities.ApiKey Unit Unit where
  clientId := "id".toList
  clientSecret := "secret".toList
  clientName := "name".toList
  authorizedEntities := [.route "route".toList]
  allowClientIdOnly := true
  tags := ["tag".toList]

def taggedEnv : ApikeyEnv Unit Unit where
  entities := exampleEnv.entities
  apikeys := [taggedKey]

/-- Keys without restrictions and limits. -/
def openChecks : KeyChecks Unit Unit where
  handleRestrictions _ _ _ := none
  withinQuotas _ _ := true

def idRequest : RequestHeader := exampleRequest [("x-api-key".toList, "id".toList)]

def idTuple : ApikeyTuple where
  clientId := some "id".toList
  location := some ⟨.header, "x-api-key".toList⟩

/-- The attributes after the candidates. -/
def matchedBy (candidate : Candidate) : RequestAttrs Unit Unit :=
  (matchAll examplePlatform taggedEnv idRequest [candidate] {}).2

/-- The attributes after a route was served besides. -/
def servedBy (candidate served : Candidate) : RequestAttrs Unit Unit :=
  (access examplePlatform taggedEnv openChecks idRequest 0 served none
    { matchedBy candidate with matchedRoute := some {}, user := none }).2

/-- The route is its own candidate. -/
theorem access_own_iff_example :
    ∃ tuple, (servedBy ⟨exampleRoute, taggedConfig⟩
        ⟨exampleRoute, taggedConfig⟩).preExtractedApikeyTuple = some tuple ∧
      own examplePlatform taggedEnv idRequest taggedConfig.legacy (some {}) =
        .ok (some tuple) := by
  obtain ⟨tuple, hkept, -, hiff, -⟩ := @access_own_iff Unit Unit examplePlatform taggedEnv
    openChecks idRequest (servedBy ⟨exampleRoute, taggedConfig⟩ ⟨exampleRoute, taggedConfig⟩)
    [⟨exampleRoute, taggedConfig⟩] ⟨exampleRoute, taggedConfig⟩ {} none none 0 [true]
    (matchedBy ⟨exampleRoute, taggedConfig⟩) taggedKey rfl rfl rfl
  refine ⟨tuple, hkept, hiff.mpr ?_⟩
  intro first hfirst
  have hfinds : some idTuple = some first := hfirst
  cases hfinds
  rfl

/-- A candidate that is not served takes the id of a key alone. Then the route that does not
is served for it. -/
theorem exists_access_not_own :
    ∃ (env : ApikeyEnv Unit Unit) (req : RequestHeader) (candidate served : Candidate)
      (matched after : RequestAttrs Unit Unit) (tuple : ApikeyTuple)
      (key : Entities.ApiKey Unit Unit),
      matchAll examplePlatform env req [candidate] {} = (.ok [false], matched) ∧
      access examplePlatform env openChecks req 0 served none
        { matched with matchedRoute := some {} } = (.ok .allowed, after) ∧
      after.apiKey = some key ∧ after.preExtractedApikeyTuple = some tuple ∧
      own examplePlatform env req served.config.legacy none ≠ .ok (some tuple) ∧
      own examplePlatform env req served.config.legacy (some {}) ≠ .ok (some tuple) := by
  refine ⟨taggedEnv, idRequest, ⟨otherRoute, taggedConfig⟩, ⟨exampleRoute, strictConfig⟩,
    matchedBy ⟨otherRoute, taggedConfig⟩,
    servedBy ⟨otherRoute, taggedConfig⟩ ⟨exampleRoute, strictConfig⟩, idTuple, taggedKey,
    rfl, rfl, rfl, rfl, ?_, ?_⟩
  · intro hown
    cases hown
  · intro hown
    cases hown

end Example

end Credentials

end Otoroshi
