/-
# Credentials of a request

A key is presented in one of five ways: by its id alone, by its id and its secret in two
headers, by a signed token, by its id and its secret encoded in one text, or by a bearer
that is derived from its secret. Each is looked for in several places, and the first one
that is found and enabled counts. The place is noted with it.

The program notes the places in a variable that four of the searches share.
`detectApikeyTuple_eq` says what comes out: each search carries its own place along. But
two searches note a place they did not look at. A text in a cookie is noted as a path
parameter, and an id in a path parameter as a cookie.
-/

import Otoroshi.Apikeys.Constraints
import Otoroshi.Apikeys.Lookup
import Otoroshi.Foundation.Marks

namespace Otoroshi

namespace Credentials

open Search

/-! ## What is presented -/

inductive ApikeyLocationKind
  | header
  | cookie
  | query
  | path
  deriving DecidableEq

def ApikeyLocationKind.name : ApikeyLocationKind → String
  | header => "Header"
  | cookie => "Cookie"
  | query => "Query"
  | path => "Path"

structure ApikeyLocation where
  kind : ApikeyLocationKind
  name : Str
  deriving DecidableEq

def ApikeyLocation.json (location : ApikeyLocation) : JsValue :=
  Json.obj [("name", .string location.name), ("kind", .string location.kind.name.toList)]

/-- A claim of a token. A number is what `asLong` reads. -/
inductive Claim
  | null
  | text (value : Str)
  | number (value : Long)
  | other
  deriving DecidableEq

namespace Claim

/-- `asString`, with `none` for `null`. -/
def asString : Claim → Option Str
  | text value => some value
  | _ => none

/-- `asLong`, with `none` for `null`. -/
def asLong : Claim → Option Long
  | number value => some value
  | _ => none

end Claim

/-- A decoded token, whose signature has not been looked at. -/
structure DecodedJWT where
  keyId : Option Str := none
  algorithm : Option Str := none
  audience : Option (List Str) := none
  claims : List (Str × Claim) := []
  /-- the decoded payload -/
  payload : Str := []
  deriving DecidableEq

namespace DecodedJWT

/-- A claim that is neither missing nor null. -/
def claim (jwt : DecodedJWT) (name : String) : Option Claim :=
  (jwt.claims.lookup name.toList).filter fun found => found != .null

/-- The text of a claim, which is `null` for a claim that is no text. -/
def claimStr (jwt : DecodedJWT) (name : String) : Option (Option Str) :=
  (jwt.claim name).map Claim.asString

end DecodedJWT

/-- What is presented. The id of a token may be `null`. -/
structure ApikeyTuple where
  clientId : Option Str
  clientSecret : Option Str := none
  jwtToken : Option DecodedJWT := none
  location : Option ApikeyLocation
  otoBearer : Option Str := none
  deriving DecidableEq

/-- Which credentials were sent, for the messages. -/
def ApikeyTuple.redactedJson (tuple : ApikeyTuple) : JsValue :=
  Json.obj [
    ("client_id", Json.orNull .string tuple.clientId),
    ("client_secret", .bool tuple.clientSecret.isSome),
    ("jwt_token", .bool tuple.jwtToken.isSome),
    ("oto_bearer", .bool tuple.otoBearer.isSome),
    ("location", Json.orNull ApikeyLocation.json tuple.location)]

/-! ## Requests -/

/-- What comes with the platform and from the libraries: texts and tokens. -/
structure TextPlatform where
  /-- Two header names are the same if they are lower cased alike. -/
  toLowerCase : Str → Str
  /-- `decodeBase64`, with `none` where it throws -/
  decodeBase64 : Str → Option Str
  /-- `JWT.decode`, with `none` where it throws -/
  decodeJwt : Str → Option DecodedJWT

structure Cookie where
  name : Str
  value : Str
  deriving DecidableEq

/-- A request, with the protocol and the host that were resolved for it. -/
structure RequestHeader where
  method : Str
  theProtocol : Str
  theHost : Str
  relativeUri : Str
  headers : List (Str × Str) := []
  queryString : List (Str × List Str) := []
  cookies : List Cookie := []

/-- A route that was found for a request, with what its path binds. -/
structure NgMatchedRoute where
  pathParams : List (Str × Str) := []

namespace RequestHeader

variable (P : TextPlatform) (req : RequestHeader)

def header (name : Str) : Option Str :=
  (req.headers.find? fun header => P.toLowerCase header.1 == P.toLowerCase name).map Prod.snd

/-- The last value of a parameter. -/
def query (name : Str) : Option Str := (req.queryString.lookup name).bind List.getLast?

def cookie (name : Str) : Option Str :=
  (req.cookies.find? fun cookie => cookie.name == name).map Cookie.value

def theUrl : Str := req.theProtocol ++ "://".toList ++ req.theHost ++ req.relativeUri

end RequestHeader

/-- The names that are configured for the gateway. -/
structure HeaderNames where
  otoroshiBearer : Str := "Otoroshi-Token".toList
  otoroshiBearerAuthorization : Str := "bearer_auth".toList
  otoroshiJWTAuthorization : Str := "access_token".toList
  otoroshiAuthorization : Str := "Otoroshi-Authorization".toList
  otoroshiBasicAuthorization : Str := "basic_auth".toList
  otoroshiClientId : Str := "Otoroshi-Client-Id".toList
  otoroshiClientSecret : Str := "Otoroshi-Client-Secret".toList
  otoroshiSimpleApiKeyClientId : Str := "x-api-key".toList

/-- `"Authorization"` -/
def authorization : Str := "Authorization".toList

/-! ## Where they are looked for -/

/-- What the extraction, the validation and the routing throw. -/
inductive ApikeyException
  /-- `init` of an empty array -/
  | unsupportedOperation
  /-- a key pair of another algorithm -/
  | classCast
  deriving DecidableEq

namespace OtoroshiBearerToken

/-- The id is what stands between the mark of a bearer and its last part. `environment`
is the name of the environment of the gateway. -/
def extractClientId (environment bearer : Str) : Except ApikeyException Str :=
  let parts := split '_' (replaceFirst (replaceFirst bearer ("otoapk_".toList ++ environment) [])
    "otoapk_".toList [])
  if parts.isEmpty then .error .unsupportedOperation
  else .ok (List.intercalate "_".toList parts.dropLast)

end OtoroshiBearerToken

/-- Split a decoded text at the colons. A secret may have some. -/
def splitCredentials (decoded : Str) : Option (Str × Str) :=
  match split ':' decoded with
  | [clientId, clientSecret] => some (clientId, clientSecret)
  | clientId :: first :: second :: rest =>
      some (clientId, List.intercalate ":".toList (first :: second :: rest))
  | _ => none

/-- The first claim that says whose token it is. -/
def clientOf (jwt : DecodedJWT) : Option (Option Str × DecodedJWT) :=
  ((((jwt.claimStr "clientId").or (jwt.claimStr "client_id")).or (jwt.claimStr "cid")).or
    (jwt.claimStr "iss")).map fun clientId => (clientId, jwt)

/-- A text with three parts that is a token. -/
def identify (P : TextPlatform) (text : Str) : Option (Option Str × DecodedJWT) :=
  if (split '.' text).length = 3 then (P.decodeJwt text).bind clientOf else none

section Extractors

variable (P : TextPlatform) (names : HeaderNames) (req : RequestHeader)
  (pathParams : List (Str × Str)) (constraints : ApiKeyConstraints)

/-- Look into a header, and into the authorization header for the scheme, which is left
out of what is found. -/
def inHeaders (name scheme : Str) : Search ApikeyLocation Str := do
  let found ← orElse (noting ⟨.header, name⟩ (req.header P name))
    (noting ⟨.header, authorization⟩
      ((req.header P authorization).filter fun value => startsWith value scheme))
  pure (replace found scheme [])

def authByJwtToken : Search ApikeyLocation ApikeyTuple :=
  let headerName := constraints.jwtAuth.headerName.getD names.otoroshiBearer
  let queryName := constraints.jwtAuth.queryName.getD names.otoroshiBearerAuthorization
  let cookieName := constraints.jwtAuth.cookieName.getD names.otoroshiJWTAuthorization
  let pathName := constraints.jwtAuth.pathName.getD "apikey_jwt".toList
  let token := do
    let text ← orElse (inHeaders P req headerName "Bearer ".toList) <|
      orElse (noting ⟨.query, queryName⟩ (req.query queryName)) <|
      orElse (noting ⟨.cookie, cookieName⟩ (req.cookie cookieName))
        (noting ⟨.path, pathName⟩ (pathParams.lookup pathName))
    ofOption (identify P text)
  placed token fun found location =>
    { clientId := found.1, jwtToken := some found.2, location := some location }

/-- The cookie that is looked at has the name of the path parameter, if it has one, and is
noted as a path parameter. -/
def authBasic : Search ApikeyLocation ApikeyTuple :=
  let headerName := constraints.basicAuth.headerName.getD names.otoroshiAuthorization
  let queryName := constraints.basicAuth.queryName.getD names.otoroshiBasicAuthorization
  let cookieName := constraints.basicAuth.pathName.getD names.otoroshiBasicAuthorization
  let pathName := constraints.basicAuth.pathName.getD "apikey_basic".toList
  let inHeader := do
    let text ← inHeaders P req headerName "Basic ".toList
    ofOption (P.decodeBase64 text)
  let pair := do
    let decoded ← orElse inHeader <|
      orElse (noting ⟨.query, queryName⟩ ((req.query queryName).bind P.decodeBase64)) <|
      orElse (noting ⟨.path, cookieName⟩ ((req.cookie cookieName).bind P.decodeBase64))
        (noting ⟨.path, pathName⟩ ((pathParams.lookup pathName).bind P.decodeBase64))
    ofOption (splitCredentials decoded)
  placed pair fun found location =>
    { clientId := some found.1, clientSecret := some found.2, location := some location }

def authByCustomHeaders : Search ApikeyLocation ApikeyTuple :=
  let clientIdName := constraints.customHeadersAuth.clientIdHeaderName.getD names.otoroshiClientId
  let clientSecretName :=
    constraints.customHeadersAuth.clientSecretHeaderName.getD names.otoroshiClientSecret
  let pair := do
    let id ← noting ⟨.header, clientIdName⟩ (req.header P clientIdName)
    ofOption ((req.header P clientSecretName).map fun secret => (id, secret))
  placed pair fun found location =>
    { clientId := some found.1, clientSecret := some found.2, location := some location }

/-- The path parameter is noted as a cookie. -/
def authBySimpleApiKeyClientId : Search ApikeyLocation ApikeyTuple :=
  let headerName := constraints.clientIdAuth.headerName.getD names.otoroshiSimpleApiKeyClientId
  let queryName := constraints.clientIdAuth.queryName.getD names.otoroshiSimpleApiKeyClientId
  let cookieName := constraints.clientIdAuth.cookieName.getD names.otoroshiSimpleApiKeyClientId
  let pathName := constraints.clientIdAuth.pathName.getD "apikey_simple_id".toList
  let id :=
    orElse (noting ⟨.header, headerName⟩ (req.header P headerName)) <|
      orElse (noting ⟨.query, queryName⟩ (req.query queryName)) <|
      orElse (noting ⟨.cookie, cookieName⟩ (req.cookie cookieName))
        (noting ⟨.cookie, pathName⟩ (pathParams.lookup pathName))
  placed id fun found location => { clientId := some found, location := some location }

/-- A value with the place it is at. -/
def located {α : Type} (place : ApikeyLocation) (value : Option α) : Option (α × ApikeyLocation) :=
  value.map fun found => (found, place)

/-- `inHeaders`, where the value carries its place. -/
def inHeadersAt (name scheme : Str) : Option (Str × ApikeyLocation) :=
  ((located ⟨.header, name⟩ (req.header P name)).or
    (located ⟨.header, authorization⟩
      ((req.header P authorization).filter fun value => startsWith value scheme))).map
    fun found => (replace found.1 scheme [], found.2)

/-- The bearer with the place it was read from. -/
def extractTokenAndLocationFromRequest : Option (Str × ApikeyLocation) :=
  let bearerHeaderName := constraints.otoBearerAuth.headerName.getD names.otoroshiBearer
  let bearerQueryName := constraints.otoBearerAuth.queryName.getD names.otoroshiBearerAuthorization
  let clientIdQueryName :=
    constraints.otoBearerAuth.queryName.getD names.otoroshiSimpleApiKeyClientId
  let clientIdHeaderName :=
    constraints.otoBearerAuth.headerName.getD names.otoroshiSimpleApiKeyClientId
  let cookieName := constraints.otoBearerAuth.cookieName.getD "bearer".toList
  let pathName := constraints.otoBearerAuth.pathName.getD "apikey_bearer".toList
  ((inHeadersAt P req bearerHeaderName "Bearer ".toList).or <|
    (located ⟨.query, bearerQueryName⟩ (req.query bearerQueryName)).or <|
    (located ⟨.query, clientIdQueryName⟩ (req.query clientIdQueryName)).or <|
    (located ⟨.header, clientIdHeaderName⟩ (req.header P clientIdHeaderName)).or <|
    (located ⟨.cookie, cookieName⟩ (req.cookie cookieName)).or
      (located ⟨.path, pathName⟩ (pathParams.lookup pathName))).filter
    fun found => startsWith found.1 "otoapk_".toList

end Extractors

/-! ## The attributes of a request -/

structure PrivateAppsUser where
  randomId : Str
  deriving DecidableEq

variable {Throttling Plugins : Type}

/-- What a validation says: the key, or perhaps a key that was refused and why. -/
abbrev Verdict (Throttling Plugins : Type) :=
  Except (Option (Entities.ApiKey Throttling Plugins) × Option Str)
    (Entities.ApiKey Throttling Plugins)

/-- What the plugins leave for each other while a request is handled. -/
structure RequestAttrs (Throttling Plugins : Type) where
  preExtractedApikeyTuple : Option ApikeyTuple := none
  /-- with the id of the route the verdict is for -/
  preExtractedApikey : Option (Str × Verdict Throttling Plugins) := none
  apiKey : Option (Entities.ApiKey Throttling Plugins) := none
  user : Option PrivateAppsUser := none
  matchedRoute : Option NgMatchedRoute := none
  apiKeyJwt : Option Str := none

/-- The path parameters of the route that was found, if one was. -/
def RequestAttrs.pathParams (attrs : RequestAttrs Throttling Plugins) : List (Str × Str) :=
  (attrs.matchedRoute.map NgMatchedRoute.pathParams).getD []

/-- What the extraction reads of the environment. -/
structure Gateway where
  env : Str := "prod".toList
  headers : HeaderNames := {}

/-! ## The detection -/

section Detection

variable (P : TextPlatform) (gateway : Gateway) (req : RequestHeader)
  (constraints : ApiKeyConstraints)

def authByOtoBearerToken (pathParams : List (Str × Str)) :
    Except ApikeyException (Option ApikeyTuple) :=
  match extractTokenAndLocationFromRequest P gateway.headers req pathParams constraints with
  | none => .ok none
  | some (bearer, bearerLocation) => do
      let clientId ← OtoroshiBearerToken.extractClientId gateway.env bearer
      return some {
        clientId := some clientId
        location := some bearerLocation
        otoBearer := some bearer }

/-- A credential that was detected before is returned as it is. -/
def detectApikeyTuple (attrs : RequestAttrs Throttling Plugins) :
    Except ApikeyException (Option ApikeyTuple) :=
  match attrs.preExtractedApikeyTuple with
  | some tuple => .ok (some tuple)
  | none => do
      let params := attrs.pathParams
      let otoBearer ← authByOtoBearerToken P gateway req constraints params
      let jwt := authByJwtToken P gateway.headers req params constraints ⟨.header, "--".toList⟩
      let basic := authBasic P gateway.headers req params constraints jwt.2
      let customHeaders := authByCustomHeaders P gateway.headers req constraints basic.2
      let clientId :=
        authBySimpleApiKeyClientId P gateway.headers req params constraints customHeaders.2
      let preExtractedApiKey := (attrs.apiKey.map fun apiKey =>
        { clientId := some apiKey.clientId
          clientSecret := some apiKey.clientSecret
          location := none : ApikeyTuple }).or attrs.preExtractedApikeyTuple
      return (
        if preExtractedApiKey.isSome then preExtractedApiKey
        else if clientId.1.toOption.isSome && constraints.clientIdAuth.enabled then
          clientId.1.toOption
        else if customHeaders.1.toOption.isSome && constraints.customHeadersAuth.enabled then
          customHeaders.1.toOption
        else if jwt.1.toOption.isSome && constraints.jwtAuth.enabled then jwt.1.toOption
        else if basic.1.toOption.isSome && constraints.basicAuth.enabled then basic.1.toOption
        else if otoBearer.isSome && constraints.otoBearerAuth.enabled then otoBearer
        else none)

end Detection

/-! ## What is found, with its place -/

inductive Extractor
  | clientId
  | customHeaders
  | jwt
  | basic
  | otoBearer
  deriving DecidableEq

/-- The place that is noted for the place that was looked at. -/
def Extractor.noted (extractor : Extractor) (place : ApikeyLocation) : ApikeyLocation :=
  match place.kind, extractor with
  | .cookie, basic => ⟨.path, place.name⟩
  | .path, clientId => ⟨.cookie, place.name⟩
  | _, _ => place

/-- What a search found, and the place it looked at to find it. -/
structure Credential where
  extractor : Extractor
  tuple : ApikeyTuple
  place : ApikeyLocation

namespace Credential

/-- The credential with its place. -/
def tracked (credential : Credential) : ApikeyTuple × ApikeyLocation :=
  (credential.tuple, credential.place)

def ofClientId (found : Str × ApikeyLocation) : Credential where
  extractor := .clientId
  tuple := { clientId := some found.1, location := some (Extractor.clientId.noted found.2) }
  place := found.2

def ofCustomHeaders (found : (Str × Str) × ApikeyLocation) : Credential where
  extractor := .customHeaders
  tuple := {
    clientId := some found.1.1
    clientSecret := some found.1.2
    location := some (Extractor.customHeaders.noted found.2) }
  place := found.2

def ofJwt (found : (Option Str × DecodedJWT) × ApikeyLocation) : Credential where
  extractor := .jwt
  tuple := {
    clientId := found.1.1
    jwtToken := some found.1.2
    location := some (Extractor.jwt.noted found.2) }
  place := found.2

def ofBasic (found : (Str × Str) × ApikeyLocation) : Credential where
  extractor := .basic
  tuple := {
    clientId := some found.1.1
    clientSecret := some found.1.2
    location := some (Extractor.basic.noted found.2) }
  place := found.2

def ofOtoBearer (clientId : Str) (found : Str × ApikeyLocation) : Credential where
  extractor := .otoBearer
  tuple := {
    clientId := some clientId
    location := some found.2
    otoBearer := some found.1 }
  place := found.2

end Credential

section Finding

variable (P : TextPlatform) (names : HeaderNames) (req : RequestHeader)
  (pathParams : List (Str × Str)) (constraints : ApiKeyConstraints)

def findJwt : Option ((Option Str × DecodedJWT) × ApikeyLocation) :=
  let queryName := constraints.jwtAuth.queryName.getD names.otoroshiBearerAuthorization
  let cookieName := constraints.jwtAuth.cookieName.getD names.otoroshiJWTAuthorization
  let pathName := constraints.jwtAuth.pathName.getD "apikey_jwt".toList
  ((inHeadersAt P req (constraints.jwtAuth.headerName.getD names.otoroshiBearer)
      "Bearer ".toList).or <|
    (located ⟨.query, queryName⟩ (req.query queryName)).or <|
    (located ⟨.cookie, cookieName⟩ (req.cookie cookieName)).or
      (located ⟨.path, pathName⟩ (pathParams.lookup pathName))).bind
    fun found => located found.2 (identify P found.1)

def findBasic : Option ((Str × Str) × ApikeyLocation) :=
  let queryName := constraints.basicAuth.queryName.getD names.otoroshiBasicAuthorization
  let cookieName := constraints.basicAuth.pathName.getD names.otoroshiBasicAuthorization
  let pathName := constraints.basicAuth.pathName.getD "apikey_basic".toList
  (((inHeadersAt P req (constraints.basicAuth.headerName.getD names.otoroshiAuthorization)
      "Basic ".toList).bind fun found => located found.2 (P.decodeBase64 found.1)).or <|
    (located ⟨.query, queryName⟩ ((req.query queryName).bind P.decodeBase64)).or <|
    (located ⟨.cookie, cookieName⟩ ((req.cookie cookieName).bind P.decodeBase64)).or
      (located ⟨.path, pathName⟩ ((pathParams.lookup pathName).bind P.decodeBase64))).bind
    fun found => located found.2 (splitCredentials found.1)

/-- The place is that of the id. -/
def findCustomHeaders : Option ((Str × Str) × ApikeyLocation) :=
  let clientIdName := constraints.customHeadersAuth.clientIdHeaderName.getD names.otoroshiClientId
  let clientSecretName :=
    constraints.customHeadersAuth.clientSecretHeaderName.getD names.otoroshiClientSecret
  (located ⟨.header, clientIdName⟩ (req.header P clientIdName)).bind fun found =>
    located found.2 ((req.header P clientSecretName).map fun secret => (found.1, secret))

def findClientId : Option (Str × ApikeyLocation) :=
  let headerName := constraints.clientIdAuth.headerName.getD names.otoroshiSimpleApiKeyClientId
  let queryName := constraints.clientIdAuth.queryName.getD names.otoroshiSimpleApiKeyClientId
  let cookieName := constraints.clientIdAuth.cookieName.getD names.otoroshiSimpleApiKeyClientId
  let pathName := constraints.clientIdAuth.pathName.getD "apikey_simple_id".toList
  (located ⟨.header, headerName⟩ (req.header P headerName)).or <|
    (located ⟨.query, queryName⟩ (req.query queryName)).or <|
    (located ⟨.cookie, cookieName⟩ (req.cookie cookieName)).or
      (located ⟨.path, pathName⟩ (pathParams.lookup pathName))

end Finding

section Places

variable (P : TextPlatform) (req : RequestHeader) (pathParams : List (Str × Str))

/-- What the request has at a place. -/
def valueAt (place : ApikeyLocation) : Option Str :=
  match place.kind with
  | .header => req.header P place.name
  | .query => req.query place.name
  | .cookie => req.cookie place.name
  | .path => pathParams.lookup place.name

/-- What is found is found at a place where the request has something. -/
def IsPlaced {α : Type} (found : Option (α × ApikeyLocation)) : Prop :=
  ∀ value place, found = some (value, place) → (valueAt P req pathParams place).isSome = true

variable {P req pathParams} {α β : Type} {found other : Option (α × ApikeyLocation)}

theorem isPlaced_located {place : ApikeyLocation} {value : Option α}
    (h : value.isSome = true → (valueAt P req pathParams place).isSome = true) :
    IsPlaced P req pathParams (located place value) := by
  intro value' place' hlocated
  obtain ⟨value'', hvalue, hpair⟩ := Option.map_eq_some_iff.mp hlocated
  cases hpair
  exact h (by rw [hvalue]; rfl)

theorem isPlaced_or (hfound : IsPlaced P req pathParams found)
    (hother : IsPlaced P req pathParams other) :
    IsPlaced P req pathParams (found.or other) := by
  intro value place h
  obtain hsome | ⟨-, hsome⟩ := Option.or_eq_some_iff.mp h
  · exact hfound value place hsome
  · exact hother value place hsome

/-- What is found is looked at, and keeps its place. -/
theorem isPlaced_bind (h : IsPlaced P req pathParams found) (f : α × ApikeyLocation → Option β) :
    IsPlaced P req pathParams (found.bind fun pair => located pair.2 (f pair)) := by
  intro value place hbind
  obtain ⟨pair, hpair, hlocated⟩ := Option.bind_eq_some_iff.mp hbind
  obtain ⟨value', -, heq⟩ := Option.map_eq_some_iff.mp hlocated
  cases heq
  exact h pair.1 pair.2 hpair

theorem isPlaced_inHeadersAt (name scheme : Str) :
    IsPlaced P req pathParams (inHeadersAt P req name scheme) := by
  have hfound : IsPlaced P req pathParams
      ((located ⟨.header, name⟩ (req.header P name)).or (located ⟨.header, authorization⟩
        ((req.header P authorization).filter fun value => startsWith value scheme))) := by
    apply isPlaced_or (isPlaced_located id)
    apply isPlaced_located
    intro hsome
    exact Option.isSome_of_isSome_filter _ _ hsome
  intro value place h
  obtain ⟨pair, hpair, heq⟩ := Option.map_eq_some_iff.mp h
  cases heq
  exact hfound pair.1 pair.2 hpair

variable {names : HeaderNames} {constraints : ApiKeyConstraints}

theorem isPlaced_findClientId :
    IsPlaced P req pathParams (findClientId P names req pathParams constraints) := by
  apply isPlaced_or (isPlaced_located id)
  apply isPlaced_or (isPlaced_located id)
  exact isPlaced_or (isPlaced_located id) (isPlaced_located id)

theorem isPlaced_findCustomHeaders :
    IsPlaced P req pathParams (findCustomHeaders P names req constraints) :=
  isPlaced_bind (isPlaced_located id) _

theorem isPlaced_findJwt :
    IsPlaced P req pathParams (findJwt P names req pathParams constraints) := by
  apply isPlaced_bind
  apply isPlaced_or (isPlaced_inHeadersAt _ _)
  apply isPlaced_or (isPlaced_located id)
  exact isPlaced_or (isPlaced_located id) (isPlaced_located id)

theorem isPlaced_findBasic :
    IsPlaced P req pathParams (findBasic P names req pathParams constraints) := by
  apply isPlaced_bind
  apply isPlaced_or (isPlaced_bind (isPlaced_inHeadersAt _ _) _)
  apply isPlaced_or (isPlaced_located Option.isSome_of_isSome_bind)
  exact isPlaced_or (isPlaced_located Option.isSome_of_isSome_bind)
    (isPlaced_located Option.isSome_of_isSome_bind)

theorem isPlaced_extractTokenAndLocationFromRequest :
    IsPlaced P req pathParams
      (extractTokenAndLocationFromRequest P names req pathParams constraints) := by
  intro value place h
  obtain ⟨hfound, -⟩ := Option.filter_eq_some_iff.mp h
  refine isPlaced_or (isPlaced_inHeadersAt _ _) ?_ value place hfound
  apply isPlaced_or (isPlaced_located id)
  apply isPlaced_or (isPlaced_located id)
  apply isPlaced_or (isPlaced_located id)
  exact isPlaced_or (isPlaced_located id) (isPlaced_located id)

end Places

section Tracking

variable (P : TextPlatform) (names : HeaderNames) (req : RequestHeader)
  (pathParams : List (Str × Str)) (constraints : ApiKeyConstraints)

theorem tracks_inHeaders (extractor : Extractor) (name scheme : Str) :
    Tracks extractor.noted (inHeaders P req name scheme) (inHeadersAt P req name scheme) := by
  rw [inHeaders, inHeadersAt]
  apply tracks_map
  exact tracks_orElse (tracks_noting extractor.noted ⟨.header, name⟩ _)
    (tracks_noting extractor.noted ⟨.header, authorization⟩ _)

/-- Three more places after the first ones. -/
theorem tracks_places {α : Type} (extractor : Extractor) {first : Search ApikeyLocation α}
    {found : Option (α × ApikeyLocation)} (h : Tracks extractor.noted first found)
    (queryName cookieName pathName : Str) (query cookie path : Option α) :
    Tracks extractor.noted
      (orElse first <| orElse (noting (extractor.noted ⟨.query, queryName⟩) query) <|
        orElse (noting (extractor.noted ⟨.cookie, cookieName⟩) cookie)
          (noting (extractor.noted ⟨.path, pathName⟩) path))
      (found.or <| (located ⟨.query, queryName⟩ query).or <|
        (located ⟨.cookie, cookieName⟩ cookie).or (located ⟨.path, pathName⟩ path)) := by
  apply tracks_orElse h
  apply tracks_orElse (tracks_noting _ _ _)
  exact tracks_orElse (tracks_noting _ _ _) (tracks_noting _ _ _)

theorem tracks_authByJwtToken :
    Tracks Extractor.jwt.noted (authByJwtToken P names req pathParams constraints)
      ((findJwt P names req pathParams constraints).map fun found =>
        (Credential.ofJwt found).tracked) := by
  rw [authByJwtToken, findJwt]
  apply tracks_placed
  apply tracks_filterMap
  exact tracks_places .jwt (tracks_inHeaders P req .jwt _ _) _ _ _ _ _ _

theorem tracks_authBasic :
    Tracks Extractor.basic.noted (authBasic P names req pathParams constraints)
      ((findBasic P names req pathParams constraints).map fun found =>
        (Credential.ofBasic found).tracked) := by
  rw [authBasic, findBasic]
  apply tracks_placed
  apply tracks_filterMap
  exact tracks_places .basic (tracks_filterMap (tracks_inHeaders P req .basic _ _) _) _ _ _ _ _ _

theorem tracks_authByCustomHeaders :
    Tracks Extractor.customHeaders.noted (authByCustomHeaders P names req constraints)
      ((findCustomHeaders P names req constraints).map fun found =>
        (Credential.ofCustomHeaders found).tracked) := by
  rw [authByCustomHeaders, findCustomHeaders]
  apply tracks_placed
  exact tracks_filterMap (tracks_noting Extractor.customHeaders.noted ⟨.header, _⟩ _) _

theorem tracks_authBySimpleApiKeyClientId :
    Tracks Extractor.clientId.noted (authBySimpleApiKeyClientId P names req pathParams constraints)
      ((findClientId P names req pathParams constraints).map fun found =>
        (Credential.ofClientId found).tracked) := by
  rw [authBySimpleApiKeyClientId, findClientId]
  apply tracks_placed
  exact tracks_places .clientId (tracks_noting Extractor.clientId.noted ⟨.header, _⟩ _) _ _ _ _ _ _

end Tracking

/-! ## What is detected -/

section Detection

variable (P : TextPlatform) (gateway : Gateway) (req : RequestHeader)
  (constraints : ApiKeyConstraints) (pathParams : List (Str × Str))

/-- The value, if it is enabled. -/
def onlyIf {α : Type} (enabled : Bool) (value : Option α) : Option α :=
  value.filter fun _ => enabled

def findOtoBearer : Except ApikeyException (Option Credential) :=
  match extractTokenAndLocationFromRequest P gateway.headers req pathParams constraints with
  | none => .ok none
  | some found => (OtoroshiBearerToken.extractClientId gateway.env found.1).map fun clientId =>
      some (Credential.ofOtoBearer clientId found)

/-- The first credential that is found and enabled. -/
def credentialOf : Except ApikeyException (Option Credential) := do
  let names := gateway.headers
  let otoBearer ← findOtoBearer P gateway req constraints pathParams
  return (onlyIf constraints.clientIdAuth.enabled
      ((findClientId P names req pathParams constraints).map Credential.ofClientId)).or <|
    (onlyIf constraints.customHeadersAuth.enabled
      ((findCustomHeaders P names req constraints).map Credential.ofCustomHeaders)).or <|
    (onlyIf constraints.jwtAuth.enabled
      ((findJwt P names req pathParams constraints).map Credential.ofJwt)).or <|
    (onlyIf constraints.basicAuth.enabled
      ((findBasic P names req pathParams constraints).map Credential.ofBasic)).or
    (onlyIf constraints.otoBearerAuth.enabled otoBearer)

theorem ite_isSome_and {α : Type} (value other : Option α) (enabled : Bool) :
    (if value.isSome && enabled then value else other) = (onlyIf enabled value).or other := by
  cases value with
  | none => rfl
  | some value => cases enabled <;> rfl

theorem map_onlyIf {α β : Type} (f : α → β) (enabled : Bool) (value : Option α) :
    (onlyIf enabled value).map f = onlyIf enabled (value.map f) := by
  cases value with
  | none => rfl
  | some value => cases enabled <;> rfl

theorem authByOtoBearerToken_eq :
    authByOtoBearerToken P gateway req constraints pathParams =
      (findOtoBearer P gateway req constraints pathParams).map (Option.map Credential.tuple) := by
  rw [authByOtoBearerToken, findOtoBearer]
  cases extractTokenAndLocationFromRequest P gateway.headers req pathParams constraints with
  | none => rfl
  | some found =>
      obtain ⟨bearer, place⟩ := found
      dsimp only
      cases OtoroshiBearerToken.extractClientId gateway.env bearer with
      | error e => rfl
      | ok clientId => rfl

/-- The value a tracked search gives back. -/
theorem toOption_of_tracks {note : ApikeyLocation → ApikeyLocation}
    {search : Search ApikeyLocation ApikeyTuple} {α : Type} {found : Option α}
    {credential : α → Credential}
    (h : Tracks note search (found.map fun value => (credential value).tracked))
    (mark : ApikeyLocation) :
    (search mark).1.toOption = (found.map credential).map Credential.tuple := by
  have hresult := h.result mark
  rw [Option.map_map] at hresult ⊢
  exact hresult

variable {Throttling Plugins : Type} {attrs : RequestAttrs Throttling Plugins}

/-- Without a credential that was detected or set before, the detection gives the first
credential that is found and enabled, with what is noted for its place. -/
theorem detectApikeyTuple_eq (htuple : attrs.preExtractedApikeyTuple = none)
    (hkey : attrs.apiKey = none) :
    detectApikeyTuple P gateway req constraints attrs =
      (credentialOf P gateway req constraints attrs.pathParams).map
        (Option.map Credential.tuple) := by
  rw [detectApikeyTuple, htuple, credentialOf]
  dsimp only
  rw [authByOtoBearerToken_eq]
  cases findOtoBearer P gateway req constraints attrs.pathParams with
  | error e => rfl
  | ok otoBearer =>
      simp only [hkey, ok_bind, map_ok, pure_eq_ok, Option.map_none, Option.or_none,
        Option.isSome_none, Bool.false_eq_true, if_false, ite_isSome_and, map_onlyIf,
        Option.map_or,
        toOption_of_tracks (tracks_authByJwtToken P gateway.headers req _ constraints),
        toOption_of_tracks (tracks_authBasic P gateway.headers req _ constraints),
        toOption_of_tracks (tracks_authByCustomHeaders P gateway.headers req constraints),
        toOption_of_tracks
          (tracks_authBySimpleApiKeyClientId P gateway.headers req _ constraints)]

/-- The credential comes from an extractor that is enabled. -/
theorem exists_of_credentialOf {credential : Credential}
    (h : credentialOf P gateway req constraints pathParams = .ok (some credential)) :
    (constraints.clientIdAuth.enabled = true ∧ ∃ found,
      findClientId P gateway.headers req pathParams constraints = some found ∧
        credential = .ofClientId found) ∨
    (constraints.customHeadersAuth.enabled = true ∧ ∃ found,
      findCustomHeaders P gateway.headers req constraints = some found ∧
        credential = .ofCustomHeaders found) ∨
    (constraints.jwtAuth.enabled = true ∧ ∃ found,
      findJwt P gateway.headers req pathParams constraints = some found ∧
        credential = .ofJwt found) ∨
    (constraints.basicAuth.enabled = true ∧ ∃ found,
      findBasic P gateway.headers req pathParams constraints = some found ∧
        credential = .ofBasic found) ∨
    (constraints.otoBearerAuth.enabled = true ∧ ∃ clientId found,
      extractTokenAndLocationFromRequest P gateway.headers req pathParams constraints =
        some found ∧ credential = .ofOtoBearer clientId found) := by
  rw [credentialOf] at h
  obtain ⟨otoBearer, hbearer, hchosen⟩ := bind_eq_ok_iff.mp h
  have hor := Except.ok.inj hchosen
  simp only [Option.or_eq_some_iff, onlyIf, Option.filter_eq_some_iff, Option.map_eq_some_iff]
    at hor
  obtain ⟨⟨found, hfound, hcredential⟩, henabled⟩ | ⟨-, hor⟩ := hor
  · exact Or.inl ⟨henabled, found, hfound, hcredential.symm⟩
  obtain ⟨⟨found, hfound, hcredential⟩, henabled⟩ | ⟨-, hor⟩ := hor
  · exact Or.inr (Or.inl ⟨henabled, found, hfound, hcredential.symm⟩)
  obtain ⟨⟨found, hfound, hcredential⟩, henabled⟩ | ⟨-, hor⟩ := hor
  · exact Or.inr (Or.inr (Or.inl ⟨henabled, found, hfound, hcredential.symm⟩))
  obtain ⟨⟨found, hfound, hcredential⟩, henabled⟩ | ⟨-, hor⟩ := hor
  · exact Or.inr (Or.inr (Or.inr (Or.inl ⟨henabled, found, hfound, hcredential.symm⟩)))
  obtain ⟨hsome, henabled⟩ := hor
  subst hsome
  rw [findOtoBearer] at hbearer
  split at hbearer
  · cases hbearer
  · rename_i found hfound
    obtain ⟨clientId, -, hcredential⟩ := map_eq_ok_iff.mp hbearer
    exact Or.inr (Or.inr (Or.inr (Or.inr
      ⟨henabled, clientId, found, hfound, (Option.some.inj hcredential).symm⟩)))

/-- The credential is found at a place where the request has something. -/
theorem isSome_valueAt {credential : Credential}
    (h : credentialOf P gateway req constraints pathParams = .ok (some credential)) :
    (valueAt P req pathParams credential.place).isSome = true := by
  obtain ⟨-, found, hfound, rfl⟩ | ⟨-, found, hfound, rfl⟩ | ⟨-, found, hfound, rfl⟩ |
    ⟨-, found, hfound, rfl⟩ | ⟨-, clientId, found, hfound, rfl⟩ :=
      exists_of_credentialOf P gateway req constraints pathParams h
  · exact isPlaced_findClientId found.1 found.2 hfound
  · exact isPlaced_findCustomHeaders found.1 found.2 hfound
  · exact isPlaced_findJwt found.1 found.2 hfound
  · exact isPlaced_findBasic found.1 found.2 hfound
  · exact isPlaced_extractTokenAndLocationFromRequest found.1 found.2 hfound

theorem location_of_credentialOf {credential : Credential}
    (h : credentialOf P gateway req constraints pathParams = .ok (some credential)) :
    credential.tuple.location = some (credential.extractor.noted credential.place) := by
  obtain ⟨-, found, -, rfl⟩ | ⟨-, found, -, rfl⟩ | ⟨-, found, -, rfl⟩ | ⟨-, found, -, rfl⟩ |
    ⟨-, clientId, ⟨bearer, kind, name⟩, -, rfl⟩ :=
      exists_of_credentialOf P gateway req constraints pathParams h
  · rfl
  · rfl
  · rfl
  · rfl
  · cases kind <;> rfl

/-- A credential of a request is that of an extractor. -/
theorem exists_credentialOf {tuple : ApikeyTuple} (htuple : attrs.preExtractedApikeyTuple = none)
    (hkey : attrs.apiKey = none)
    (h : detectApikeyTuple P gateway req constraints attrs = .ok (some tuple)) :
    ∃ credential, credentialOf P gateway req constraints attrs.pathParams =
      .ok (some credential) ∧ credential.tuple = tuple := by
  rw [detectApikeyTuple_eq P gateway req constraints htuple hkey] at h
  obtain ⟨found, hfound, hmap⟩ := map_eq_ok_iff.mp h
  obtain ⟨credential, hcredential, htuple'⟩ := Option.map_eq_some_iff.mp hmap
  subst hcredential
  exact ⟨credential, hfound, htuple'⟩

/-- The path parameters that are looked at. -/
def pathNames : List Str := [
  constraints.clientIdAuth.pathName.getD "apikey_simple_id".toList,
  constraints.jwtAuth.pathName.getD "apikey_jwt".toList,
  constraints.basicAuth.pathName.getD "apikey_basic".toList,
  constraints.otoBearerAuth.pathName.getD "apikey_bearer".toList]

/-- Path parameters that are not looked at change nothing. -/
theorem credentialOf_of_unbound
    (h : ∀ name ∈ pathNames constraints, pathParams.lookup name = none) :
    credentialOf P gateway req constraints pathParams =
      credentialOf P gateway req constraints [] := by
  simp only [pathNames, List.forall_mem_cons] at h
  obtain ⟨hclientId, hjwt, hbasic, hbearer, -⟩ := h
  simp only [credentialOf, findOtoBearer, extractTokenAndLocationFromRequest, findClientId,
    findJwt, findBasic, hclientId, hjwt, hbasic, hbearer, List.lookup_nil]

end Detection

end Credentials

end Otoroshi
