/-
# What an api key is authorized on

A key is authorized on groups, services, routes, apis and compositions of routes.
The JSON of a key says so three times: as objects, as texts that begin with the
kind, and, for the first group only, as a bare id. The reader takes all three
together.

`mem_authorizedEntities_of_reads_writes` says that nothing is gained or lost by
this, whatever the ids look like: a text is cut at its kind only once, and no kind
begins another. What a stored key can lack is a name: a key whose id, secret or
name is blank is written and never read.
-/

import Otoroshi.Apikeys.KeyRotation
import Otoroshi.Foundation.Json

namespace Otoroshi

open Json

inductive EntityIdentifier
  | serviceGroup (id : Str)
  | serviceDescriptor (id : Str)
  | route (id : Str)
  | api (id : Str)
  | routeComposition (id : Str)
  deriving DecidableEq

namespace EntityIdentifier

def kind : EntityIdentifier → String
  | serviceGroup _ => "group"
  | serviceDescriptor _ => "service"
  | route _ => "route"
  | api _ => "api"
  | routeComposition _ => "route-composition"

def id : EntityIdentifier → Str
  | serviceGroup id => id
  | serviceDescriptor id => id
  | route id => id
  | api id => id
  | routeComposition id => id

def isGroup : EntityIdentifier → Bool
  | serviceGroup _ => true
  | _ => false

def str (entity : EntityIdentifier) : Str := entity.kind.toList ++ '_' :: entity.id

def json (entity : EntityIdentifier) : JsValue := .string entity.str

def modernJson (entity : EntityIdentifier) : JsValue :=
  obj [("kind", .string entity.kind.toList), ("id", .string entity.id)]

/-- An unknown kind is a group, as in the past. -/
def ofKind (kind : Option Str) (id : Str) : EntityIdentifier :=
  if kind = some "group".toList then serviceGroup id
  else if kind = some "service".toList then serviceDescriptor id
  else if kind = some "route-composition".toList then routeComposition id
  else if kind = some "route".toList then route id
  else if kind = some "api".toList then api id
  else serviceGroup id

/-- An object without an id throws. -/
def applyModern (json : JsValue) : JsResult (Option EntityIdentifier) := do
  let id ← (json.select "id").as .string
  return some (ofKind ((json.select "kind").asOpt .string) id)

/-- The same for a text. -/
def apply (prefixedId : Str) : Option EntityIdentifier :=
  some (if startsWith prefixedId "group_".toList then
      serviceGroup (replaceFirst prefixedId "group_".toList [])
    else if startsWith prefixedId "service_".toList then
      serviceDescriptor (replaceFirst prefixedId "service_".toList [])
    else if startsWith prefixedId "route-composition_".toList then
      routeComposition (replaceFirst prefixedId "route-composition_".toList [])
    else if startsWith prefixedId "route_".toList then
      route (replaceFirst prefixedId "route_".toList [])
    else if startsWith prefixedId "api_".toList then
      api (replaceFirst prefixedId "api_".toList [])
    else serviceGroup prefixedId)

/-- A text that begins with a kind is cut there, whatever follows. -/
theorem apply_str (entity : EntityIdentifier) : apply entity.str = some entity := by
  cases entity <;> simp [apply, str, kind, id, startsWith, replaceFirst]

theorem ofKind_kind (entity : EntityIdentifier) :
    ofKind (some entity.kind.toList) entity.id = entity := by
  cases entity with
  | serviceGroup id => exact if_pos rfl
  | serviceDescriptor id =>
      have hkind : (serviceDescriptor id).kind = "service" := rfl
      rw [hkind, ofKind, if_neg (by decide), if_pos rfl]
      rfl
  | route id =>
      have hkind : (route id).kind = "route" := rfl
      rw [hkind, ofKind, if_neg (by decide), if_neg (by decide), if_neg (by decide), if_pos rfl]
      rfl
  | api id =>
      have hkind : (api id).kind = "api" := rfl
      rw [hkind, ofKind, if_neg (by decide), if_neg (by decide), if_neg (by decide),
        if_neg (by decide), if_pos rfl]
      rfl
  | routeComposition id =>
      have hkind : (routeComposition id).kind = "route-composition" := rfl
      rw [hkind, ofKind, if_neg (by decide), if_neg (by decide), if_pos rfl]
      rfl

/-- An object is read back from its kind and its id. -/
theorem applyModern_modernJson (entity : EntityIdentifier) :
    applyModern entity.modernJson = .ok (some entity) := by
  have hid : (entity.modernJson.select "id").as .string = .ok entity.id := by
    rw [modernJson, select_obj_cons, if_neg (by decide), select_obj_cons, if_pos rfl]
    rfl
  have hkind : (entity.modernJson.select "kind").asOpt .string = some entity.kind.toList := by
    rw [modernJson, select_obj_cons, if_pos rfl]
    rfl
  rw [applyModern, hid, hkind]
  exact congrArg (Except.ok ∘ some) (ofKind_kind entity)

end EntityIdentifier

/-! ## The parts of a key -/

structure RestrictionPath where
  method : Str
  path : Str
  authorizedEntity : Option EntityIdentifier

def RestrictionPath.format : Format RestrictionPath where
  writes o :=
    obj [("method", .string o.method), ("path", .string o.path),
      ("authorized_entity", orNull EntityIdentifier.modernJson o.authorizedEntity)]
  reads json := do
    let method ← (json.select "method").as .string
    let path ← (json.select "path").as .string
    let authorizedEntity ←
      match (json.select "authorized_entity").asOpt .jsObject with
      | some fields => EntityIdentifier.applyModern (.object fields)
      | none => pure none
    return { method, path, authorizedEntity }

structure Restrictions where
  enabled : Bool := false
  allowLast : Bool := true
  allowed : List RestrictionPath := []
  forbidden : List RestrictionPath := []
  notFound : List RestrictionPath := []

namespace Restrictions

/-- The paths of one list that can be read. -/
def readPaths (json : JsValue) (field : String) : List RestrictionPath :=
  (((json.select field).asOpt .jsArray).map fun items =>
    items.filterMap fun item => (RestrictionPath.format.reads item).toOption).getD []

def format : Format Restrictions where
  writes o :=
    obj [("enabled", .bool o.enabled), ("allowLast", .bool o.allowLast),
      ("allowed", .array (o.allowed.map RestrictionPath.format.writes)),
      ("forbidden", .array (o.forbidden.map RestrictionPath.format.writes)),
      ("notFound", .array (o.notFound.map RestrictionPath.format.writes))]
  reads json :=
    .ok { enabled := (json.select "enabled").asOptOrElse .boolean false
          allowLast := (json.select "allowLast").asOptOrElse .boolean true
          allowed := readPaths json "allowed"
          forbidden := readPaths json "forbidden"
          notFound := readPaths json "notFound" }

end Restrictions

def ApiKeyRotation.fmt : Format ApiKeyRotation where
  writes o :=
    obj [("enabled", .bool o.enabled), ("rotationEvery", .number o.rotationEvery),
      ("gracePeriod", .number o.gracePeriod), ("nextSecret", orNull .string o.nextSecret)]
  reads json :=
    .ok { enabled := (json.select "enabled").asOptOrElse .boolean false
          rotationEvery := (((json.select "rotationEvery").asOpt .long).map (·.1)).getD (31 * 24)
          gracePeriod := (((json.select "gracePeriod").asOpt .long).map (·.1)).getD (7 * 24)
          nextSecret := (json.select "nextSecret").asOpt .string }

structure ApiRef where
  api : Str
  plan : Str
  subscription : Str

def ApiRef.format : Format ApiRef where
  writes o :=
    obj [("api", .string o.api), ("plan", .string o.plan), ("sub", .string o.subscription)]
  reads json := do
    let api ← (json.select "api").as .string
    let plan ← (json.select "plan").as .string
    let subscription ← (json.select "sub").as .string
    return { api, plan, subscription }

structure EntityLocation where
  tenant : Str := "default".toList
  teams : List Str := ["default".toList]

namespace EntityLocation

/-- The id of a team that is written as an object. -/
def readTeamId (json : JsValue) : JsResult Str := do
  let id ← (json.select "id").as .string
  let _ ← (json.select "tenant").as .string
  return id

def format : Format EntityLocation where
  writes o :=
    obj [("tenant", .string o.tenant), ("teams", strings o.teams.eraseDups)]
  reads json :=
    let teamsAsStringList := ((json.select "teams").asOpt (.seq .string)).map List.eraseDups
    let teamsAsJsonArray := (((json.select "teams").asOpt .jsArray).map fun items =>
      items.filterMap fun item => (readTeamId item).toOption).getD []
    .ok { tenant := (json.select "tenant").asOptOrElse .string "default".toList
          teams := match teamsAsStringList with
            | some teams => teams ++ teamsAsJsonArray
            | none => if teamsAsJsonArray.isEmpty then ["default".toList] else teamsAsJsonArray }

def jsonWithKey (location : EntityLocation) : List (String × JsValue) :=
  [("_loc", format.writes location)]

def readFromKey (json : JsValue) : EntityLocation :=
  (json.select "_loc").asOptOrElse format.reads {}

end EntityLocation

/-! ## The format of keys -/

namespace RemainingQuotas

/-- `RemainingQuotas.MaxValue` -/
def maxValue : Long := ⟨10000000, by decide⟩

end RemainingQuotas

namespace Entities

/-- A key as it is stored, with its throttling strategy and its plugins. -/
structure ApiKey (Throttling Plugins : Type) where
  clientId : Str
  clientSecret : Str
  clientName : Str
  description : Str := []
  authorizedEntities : List EntityIdentifier
  enabled : Bool := true
  readOnly : Bool := false
  allowClientIdOnly : Bool := false
  throttlingStrategy : Option Throttling := none
  throttlingQuota : Long := RemainingQuotas.maxValue
  dailyQuota : Long := RemainingQuotas.maxValue
  monthlyQuota : Long := RemainingQuotas.maxValue
  constrainedServicesOnly : Bool := false
  restrictions : Restrictions := {}
  /-- in milliseconds since the epoch -/
  validUntil : Option Long := none
  rotation : ApiKeyRotation := {}
  apiRef : Option ApiRef := none
  plugins : Option Plugins := none
  tags : List Str := []
  metadata : AList fun _ : Str => Str := ∅
  location : EntityLocation := {}

/-- What the format of keys takes from elsewhere: the formats of throttling
strategies and of plugins, and the text of a JSON value. -/
structure ApiKeyFormats (Throttling Plugins : Type) where
  throttlingStrategy : Format Throttling
  plugins : Format Plugins
  /-- `Json.stringify` -/
  stringify : JsValue → Str

namespace ApiKey

variable {Throttling Plugins : Type} (formats : ApiKeyFormats Throttling Plugins)

/-- A key is not enabled after its last day. -/
def enabledAt (validUntil : Option Long) (enabled : Bool) (now : Int) : Bool :=
  match validUntil with
  | some date => if date.1 < now then false else enabled
  | none => enabled

def writes (now : Int) (apk : ApiKey Throttling Plugins) : JsValue :=
  let authGroup := orNull .string
    ((apk.authorizedEntities.find? EntityIdentifier.isGroup).map EntityIdentifier.id)
  obj (apk.location.jsonWithKey ++ [
    ("clientId", .string apk.clientId),
    ("clientSecret", .string apk.clientSecret),
    ("clientName", .string apk.clientName),
    ("description", .string apk.description),
    ("authorizedGroup", authGroup),
    ("authorizedEntities", .array (apk.authorizedEntities.map EntityIdentifier.json)),
    ("authorizations", .array (apk.authorizedEntities.map EntityIdentifier.modernJson)),
    ("enabled", .bool (enabledAt apk.validUntil apk.enabled now)),
    ("readOnly", .bool apk.readOnly),
    ("allowClientIdOnly", .bool apk.allowClientIdOnly),
    ("throttlingStrategy", orNull formats.throttlingStrategy.writes apk.throttlingStrategy),
    ("throttlingQuota", long apk.throttlingQuota),
    ("dailyQuota", long apk.dailyQuota),
    ("monthlyQuota", long apk.monthlyQuota),
    ("constrainedServicesOnly", .bool apk.constrainedServicesOnly),
    ("restrictions", Restrictions.format.writes apk.restrictions),
    ("rotation", ApiKeyRotation.fmt.writes apk.rotation),
    ("apiRef", orNull ApiRef.format.writes apk.apiRef),
    ("plugins", orNull formats.plugins.writes apk.plugins),
    ("validUntil", orNull long apk.validUntil),
    ("tags", strings apk.tags),
    ("metadata", .object ((apk.metadata.entries.filter fun entry => !entry.1.isEmpty).map
      fun entry => (entry.1, .string entry.2)))])

/-- `asOpt[String].filterNot(_.isBlank)`. -/
def readNonBlank (json : JsValue) (field : String) : Option Str :=
  ((json.select field).asOpt .string).filter fun text => !isAllWhitespace text

/-- The objects and the texts of one array. Other values are passed over. -/
def readAuthorizations : List JsValue → JsResult (List EntityIdentifier)
  | [] => return []
  | .string value :: rest => do
      return (EntityIdentifier.apply value).toList ++ (← readAuthorizations rest)
  | .object fields :: rest => do
      let entity ← EntityIdentifier.applyModern (.object fields)
      return entity.toList ++ (← readAuthorizations rest)
  | _ :: rest => readAuthorizations rest

def readAuthorizedEntities (json : JsValue) : JsResult (List EntityIdentifier) := do
  let authorizations ←
    readAuthorizations ((json.select "authorizations").asOptOrElse (.seq .jsValue) [])
  let authorizedGroup :=
    (((json.select "authorizedGroup").asOpt .string).map EntityIdentifier.serviceGroup).toList
  let authorizedEntities :=
    ((json.select "authorizedEntities").asOptOrElse (.seq .string) []).filterMap
      EntityIdentifier.apply
  return (authorizations ++ authorizedEntities ++ authorizedGroup).eraseDups

/-- The entries of the metadata. A value that is no text is kept as its JSON
text. -/
def readMetadata (json : JsValue) : AList fun _ : Str => Str :=
  match (json.select "metadata").asOpt .jsObject with
  | some fields =>
      (fields.filterMap fun field =>
        if field.1.isEmpty then none
        else match field.2 with
          | .string value => some (⟨field.1, value⟩ : Σ _ : Str, Str)
          | value => some ⟨field.1, formats.stringify value⟩).toAList
  | none => ∅

def reads (now : Int) : Reads (ApiKey Throttling Plugins) := fun json =>
  let rawEnabled := (json.select "enabled").asOptOrElse .boolean true
  let rawValidUntil := (json.select "validUntil").asOpt .long
  match readNonBlank json "clientId", readNonBlank json "clientSecret",
      readNonBlank json "clientName" with
  | some clientId, some clientSecret, some clientName => do
      let authorizedEntities ← readAuthorizedEntities json
      return {
        location := EntityLocation.readFromKey json
        clientId, clientSecret, clientName
        description := (json.select "description").asOptOrElse .string []
        authorizedEntities
        enabled := enabledAt rawValidUntil rawEnabled now
        readOnly := (json.select "readOnly").asOptOrElse .boolean false
        allowClientIdOnly := (json.select "allowClientIdOnly").asOptOrElse .boolean false
        throttlingStrategy :=
          (json.select "throttlingStrategy").asOpt formats.throttlingStrategy.reads
        throttlingQuota :=
          (json.select "throttlingQuota").asOptOrElse .long RemainingQuotas.maxValue
        dailyQuota := (json.select "dailyQuota").asOptOrElse .long RemainingQuotas.maxValue
        monthlyQuota := (json.select "monthlyQuota").asOptOrElse .long RemainingQuotas.maxValue
        constrainedServicesOnly :=
          (json.select "constrainedServicesOnly").asOptOrElse .boolean false
        restrictions := ((Restrictions.format.reads
          ((json.select "restrictions").asOptOrElse .jsValue .null)).toOption).getD {}
        rotation := ((ApiKeyRotation.fmt.reads
          ((json.select "rotation").asOptOrElse .jsValue .null)).toOption).getD {}
        validUntil := rawValidUntil
        apiRef := ((json.select "apiRef").asOpt .jsObject).bind fun fields =>
          (ApiRef.format.reads (.object fields)).toOption
        plugins := ((json.select "plugins").asOpt .jsObject).bind fun fields =>
          (formats.plugins.reads (.object fields)).toOption
        tags := (json.select "tags").asOptOrElse (.seq .string) []
        metadata := readMetadata formats json }
  | _, _, _ => .error .noSuchElement

/-! ## What is read back -/

/-- The objects are read back one by one. -/
theorem readAuthorizations_modernJson (entities : List EntityIdentifier) :
    readAuthorizations (entities.map EntityIdentifier.modernJson) = .ok entities := by
  induction entities with
  | nil => rfl
  | cons entity entities ih =>
      have hmodern := EntityIdentifier.applyModern_modernJson entity
      rw [EntityIdentifier.modernJson, obj] at hmodern
      rw [List.map_cons, EntityIdentifier.modernJson, obj, readAuthorizations, hmodern, ih]
      rfl

/-- The texts are read back too. -/
theorem filterMap_apply_str (entities : List EntityIdentifier) :
    (entities.map EntityIdentifier.str).filterMap EntityIdentifier.apply = entities := by
  rw [List.filterMap_map]
  have happly : EntityIdentifier.apply ∘ EntityIdentifier.str = some :=
    funext EntityIdentifier.apply_str
  rw [happly, List.filterMap_some]

/-- The first group is one of the entities. -/
theorem mem_of_find?_isGroup {entities : List EntityIdentifier} {id : Str}
    (h : (entities.find? EntityIdentifier.isGroup).map EntityIdentifier.id = some id) :
    EntityIdentifier.serviceGroup id ∈ entities := by
  obtain ⟨entity, hfind, hid⟩ := Option.map_eq_some_iff.mp h
  have hgroup := List.find?_some hfind
  have hmem := List.mem_of_find?_eq_some hfind
  cases entity with
  | serviceGroup id' =>
      have hid' : id' = id := hid
      rwa [hid'] at hmem
  | _ => exact absurd hgroup (by simp [EntityIdentifier.isGroup])

theorem readNonBlank_of_select {json : JsValue} {field : String} {text : Str}
    (h : json.select field = some (.string text)) :
    readNonBlank json field = if isAllWhitespace text = true then none else some text := by
  have hread : JsLookupResult.asOpt (some (.string text)) .string = some text := rfl
  rw [readNonBlank, h, hread, Option.filter_some]
  cases isAllWhitespace text <;> rfl

/-- The entities that are read from what was written are the written ones. -/
theorem readAuthorizedEntities_writes (now : Int) (apikey : ApiKey Throttling Plugins) :
    ∃ entities, readAuthorizedEntities (writes formats now apikey) = .ok entities ∧
      ∀ entity, entity ∈ entities ↔ entity ∈ apikey.authorizedEntities := by
  let group := (apikey.authorizedEntities.find? EntityIdentifier.isGroup).map EntityIdentifier.id
  have hobjects : ((writes formats now apikey).select "authorizations").asOptOrElse
      (.seq .jsValue) [] = apikey.authorizedEntities.map EntityIdentifier.modernJson := by
    have hread := reads_seq Reads.jsValue (fun value => value) (fun _ => rfl)
      (apikey.authorizedEntities.map EntityIdentifier.modernJson)
    rw [List.map_id'] at hread
    simp [writes, EntityLocation.jsonWithKey, asOptOrElse_of_ok hread]
  have htexts : ((writes formats now apikey).select "authorizedEntities").asOptOrElse
      (.seq .string) [] = apikey.authorizedEntities.map EntityIdentifier.str := by
    have hread : Reads.seq .string (.array (apikey.authorizedEntities.map EntityIdentifier.json)) =
        .ok (apikey.authorizedEntities.map EntityIdentifier.str) := by
      rw [← reads_strings, strings, List.map_map]
      rfl
    simpa [writes, EntityLocation.jsonWithKey] using asOptOrElse_of_ok hread []
  have hgroup : ((writes formats now apikey).select "authorizedGroup").asOpt .string = group := by
    have hread : JsLookupResult.asOpt (some (orNull .string group)) .string = group := by
      cases group <;> rfl
    simpa [writes, EntityLocation.jsonWithKey] using hread
  refine ⟨(apikey.authorizedEntities ++ apikey.authorizedEntities ++
    (group.map EntityIdentifier.serviceGroup).toList).eraseDups, ?_, ?_⟩
  · rw [readAuthorizedEntities, hobjects, htexts, hgroup, readAuthorizations_modernJson,
      filterMap_apply_str]
    rfl
  · intro entity
    rw [List.mem_eraseDups, List.mem_append, List.mem_append, or_self, or_iff_left_iff_imp,
      Option.mem_toList, Option.map_eq_some_iff]
    rintro ⟨id, hid, rfl⟩
    exact mem_of_find?_isGroup hid

/-- Whatever is read has its three names. -/
theorem isSome_readNonBlank_of_reads {now : Int} {json : JsValue}
    {apikey : ApiKey Throttling Plugins} (h : reads formats now json = .ok apikey) :
    (readNonBlank json "clientId").isSome = true ∧
      (readNonBlank json "clientSecret").isSome = true ∧
        (readNonBlank json "clientName").isSome = true := by
  rw [reads] at h
  split at h
  · rename_i hid hsecret hname
    rw [hid, hsecret, hname]
    exact ⟨rfl, rfl, rfl⟩
  · exact absurd h nofun

/-- The three names without which a key is not read. -/
def Presentable (apikey : ApiKey Throttling Plugins) : Prop :=
  isAllWhitespace apikey.clientId = false ∧ isAllWhitespace apikey.clientSecret = false ∧
    isAllWhitespace apikey.clientName = false

/-- A key is read back with the entities it was written with exactly when none of
its three names is blank. Otherwise nothing is read. -/
theorem mem_authorizedEntities_of_reads_writes (now later : Int)
    (apikey : ApiKey Throttling Plugins) :
    (∃ stored, reads formats later (writes formats now apikey) = .ok stored ∧
      ∀ entity, entity ∈ stored.authorizedEntities ↔ entity ∈ apikey.authorizedEntities) ↔
        apikey.Presentable := by
  have hid : readNonBlank (writes formats now apikey) "clientId" =
      if isAllWhitespace apikey.clientId = true then none else some apikey.clientId :=
    readNonBlank_of_select (by simp [writes, EntityLocation.jsonWithKey])
  have hsecret : readNonBlank (writes formats now apikey) "clientSecret" =
      if isAllWhitespace apikey.clientSecret = true then none else some apikey.clientSecret :=
    readNonBlank_of_select (by simp [writes, EntityLocation.jsonWithKey])
  have hname : readNonBlank (writes formats now apikey) "clientName" =
      if isAllWhitespace apikey.clientName = true then none else some apikey.clientName :=
    readNonBlank_of_select (by simp [writes, EntityLocation.jsonWithKey])
  constructor
  · rintro ⟨stored, hread, -⟩
    have hsome := isSome_readNonBlank_of_reads formats hread
    rw [hid, hsecret, hname] at hsome
    simpa [Presentable] using hsome
  · rintro ⟨hclientId, hclientSecret, hclientName⟩
    obtain ⟨entities, hentities, hmem⟩ := readAuthorizedEntities_writes formats now apikey
    rw [hclientId, if_neg nofun] at hid
    rw [hclientSecret, if_neg nofun] at hsecret
    rw [hclientName, if_neg nofun] at hname
    rw [reads, hid, hsecret, hname]
    dsimp only
    rw [hentities]
    exact ⟨_, rfl, hmem⟩

/-- A key without a name. -/
def nameless : ApiKey Unit Unit where
  clientId := "id".toList
  clientSecret := "secret".toList
  clientName := []
  authorizedEntities := [.route "r1".toList]

/-- Formats for keys that have neither a strategy nor plugins. -/
def bareFormats : ApiKeyFormats Unit Unit where
  throttlingStrategy := ⟨fun _ => .null, fun _ => .error .jsResult⟩
  plugins := ⟨fun _ => .null, fun _ => .error .jsResult⟩
  stringify _ := []

/-- The key is not read from what is written for it. -/
theorem reads_writes_nameless :
    reads bareFormats 0 (writes bareFormats 0 nameless) = .error .noSuchElement := by
  have hselect : (writes bareFormats 0 nameless).select "clientName" = some (.string []) := by
    simp [writes, EntityLocation.jsonWithKey, nameless]
  have hname : readNonBlank (writes bareFormats 0 nameless) "clientName" = none :=
    (readNonBlank_of_select hselect).trans (if_pos rfl)
  rw [reads, hname]
  cases readNonBlank (writes bareFormats 0 nameless) "clientId" <;>
    cases readNonBlank (writes bareFormats 0 nameless) "clientSecret" <;> rfl

end ApiKey

end Entities

end Otoroshi
