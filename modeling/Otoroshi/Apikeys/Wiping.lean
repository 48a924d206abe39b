/-
# Credentials that are not passed on

A route may take the credential out of the request before it goes to the backend. It goes
by the place that was noted with the credential: a header, a parameter of the query or a
cookie is left out, and everything else stays. An id and a secret in two headers are noted
with the first one, so a header with its name takes the other one along.

`transformRequestSync_wipes_iff` says when this leaves out where the credential was, and
nothing else.
-/

import Otoroshi.Apikeys.Calls

namespace Otoroshi

namespace Credentials

/-! ## Requests to a backend -/

/-- How the parameters of a query are read and written. -/
structure QueryPlatform where
  query : Str → List (Str × Str)
  render : List (Str × Str) → Str

/-- An address. `rest` is all but the query. -/
structure Uri where
  rest : Str
  rawQueryString : Option Str := none
  deriving DecidableEq

/-- The request as it goes to the backend. -/
structure NgPluginHttpRequest where
  uri : Uri
  headers : List (Str × Str) := []
  cookies : List Cookie := []
  deriving DecidableEq

/-- A header takes the place of one with the same name. -/
def putHeader (headers : List (Str × Str)) (name value : Str) : List (Str × Str) :=
  headers.filter (fun header => header.1 != name) ++ [(name, value)]

section Transformation

variable {Throttling Plugins : Type} (P : TextPlatform) (Q : QueryPlatform)
  (names : HeaderNames) (config : NgApikeyCallsConfig) (req : RequestHeader)

/-- The name of the header with the id, where there are two. -/
def clientIdName (constraints : ApiKeyConstraints) : Str :=
  constraints.customHeadersAuth.clientIdHeaderName.getD names.otoroshiClientId

/-- The name of the header with the secret. -/
def clientSecretName (constraints : ApiKeyConstraints) : Str :=
  constraints.customHeadersAuth.clientSecretHeaderName.getD names.otoroshiClientSecret

/-- `equalsIgnoreCase`, for the names of headers. -/
def sameName (first second : Str) : Bool := decide (P.toLowerCase first = P.toLowerCase second)

/-- The headers to leave out, lower cased. -/
def wipedHeaders (constraints : ApiKeyConstraints) (name : Str) : List Str :=
  if sameName P name (clientIdName names constraints) then
    [P.toLowerCase name, P.toLowerCase (clientSecretName names constraints)]
  else [P.toLowerCase name]

/-- Leave out what is at a place. -/
def wipe (constraints : ApiKeyConstraints) (location : ApikeyLocation)
    (otoroshiRequest : NgPluginHttpRequest) : NgPluginHttpRequest :=
  match location.kind with
  | .header => { otoroshiRequest with
      headers := otoroshiRequest.headers.filter fun header =>
        !(wipedHeaders P names constraints location.name).contains (P.toLowerCase header.1) }
  | .query => { otoroshiRequest with
      uri := { otoroshiRequest.uri with
        rawQueryString := otoroshiRequest.uri.rawQueryString.map fun raw =>
          Q.render ((Q.query raw).filter fun param => param.1 != location.name) } }
  | .cookie => { otoroshiRequest with
      cookies := otoroshiRequest.cookies.filter fun cookie => cookie.name != location.name }
  | .path => otoroshiRequest

/-- A route that does not wipe credentials passes on the two headers with default names. -/
def transformRequestSync (attrs : RequestAttrs Throttling Plugins)
    (otoroshiRequest : NgPluginHttpRequest) : NgPluginHttpRequest :=
  if config.wipeBackendRequest then
    match attrs.preExtractedApikeyTuple.bind ApikeyTuple.location with
    | some location => wipe P Q names config.legacy location otoroshiRequest
    | none => otoroshiRequest
  else
    let withClientId :=
      match onlyIf config.extractors.customHeaders.clientIdHeaderName.isNone
          (req.header P names.otoroshiClientId) with
      | some cid => putHeader otoroshiRequest.headers names.otoroshiClientId cid
      | none => otoroshiRequest.headers
    let withClientSecret :=
      match onlyIf config.extractors.customHeaders.clientSecretHeaderName.isNone
          (req.header P names.otoroshiClientSecret) with
      | some csec => putHeader withClientId names.otoroshiClientSecret csec
      | none => withClientId
    { otoroshiRequest with headers := withClientSecret }

end Transformation

/-! ## What has to be left out -/

section Wiping

variable (P : TextPlatform) (Q : QueryPlatform) (names : HeaderNames)

/-- Where the credential was read from. The secret may be in a header of its own. -/
def Credential.places (constraints : ApiKeyConstraints) (credential : Credential) :
    List ApikeyLocation :=
  if credential.extractor = .customHeaders then
    [credential.place, ⟨.header, clientSecretName names constraints⟩]
  else [credential.place]

/-- The header is at one of the places. -/
def isHeaderAt (places : List ApikeyLocation) (header : Str × Str) : Bool :=
  places.any fun place => place.kind == .header && sameName P place.name header.1

/-- A parameter without a name and a value is none. -/
def isNamed (param : Str × Str) : Bool := param != ([], [])

def NgPluginHttpRequest.params (request : NgPluginHttpRequest) : List (Str × Str) :=
  ((request.uri.rawQueryString.map Q.query).getD []).filter isNamed

/-- What is at the places is left out, and nothing else. -/
structure Wipes (places : List ApikeyLocation) (before after : NgPluginHttpRequest) : Prop where
  headers : after.headers = before.headers.filter fun header => !isHeaderAt P places header
  params : after.params Q =
    (before.params Q).filter fun param => !places.contains ⟨.query, param.1⟩
  cookies : after.cookies =
    before.cookies.filter fun cookie => !places.contains ⟨.cookie, cookie.name⟩
  rest : after.uri.rest = before.uri.rest

/-- The parameters are read back from what is written for them. -/
def Restores (params : List (Str × Str)) : Prop :=
  (Q.query (Q.render params)).filter isNamed = params.filter isNamed

/-- The credential was read from a cookie as a text with an id and a secret. -/
def Credential.InBasicCookie (credential : Credential) : Prop :=
  credential.extractor = .basic ∧ credential.place.kind = .cookie

/-- A header with this name goes for the one with the id of a pair, and the request has a
header with a secret besides. -/
def SecretBeside (constraints : ApiKeyConstraints) (name : Str) (request : NgPluginHttpRequest) :
    Prop :=
  sameName P name (clientIdName names constraints) = true ∧
    ∃ header ∈ request.headers,
      sameName P (clientSecretName names constraints) header.1 = true ∧
        sameName P name header.1 = false

/-- The credential was read from such a header, and is no pair. -/
def Credential.TakesSecret (constraints : ApiKeyConstraints) (credential : Credential)
    (request : NgPluginHttpRequest) : Prop :=
  credential.place.kind = .header ∧ credential.extractor ≠ .customHeaders ∧
    SecretBeside P names constraints credential.place.name request

variable {P Q names} {constraints : ApiKeyConstraints} {credential : Credential}
  {request : NgPluginHttpRequest}

/-- The place is noted as it is, but for such a cookie. -/
theorem noted_eq_iff (hkind : credential.place.kind ≠ .path) :
    credential.extractor.noted credential.place = credential.place ↔
      ¬ credential.InBasicCookie := by
  obtain ⟨extractor, tuple, kind, name⟩ := credential
  simp only [Credential.InBasicCookie]
  cases kind with
  | header => exact iff_of_true rfl nofun
  | query => exact iff_of_true rfl nofun
  | path => exact absurd rfl hkind
  | cookie => cases extractor <;> simp [Extractor.noted]

/-! ### Headers -/

theorem contains_wipedHeaders (name header : Str) :
    (wipedHeaders P names constraints name).contains (P.toLowerCase header) =
      (sameName P name header || (sameName P name (clientIdName names constraints) &&
        sameName P (clientSecretName names constraints) header)) := by
  rw [wipedHeaders]
  split
  · rename_i hname
    rw [hname, Bool.true_and]
    simp [sameName, eq_comm]
  · rename_i hname
    rw [Bool.not_eq_true] at hname
    rw [hname, Bool.false_and, Bool.or_false]
    simp [sameName, eq_comm]

/-- Items that are not at any of the places stay. -/
theorem filter_eq_of_elsewhere {α : Type} {places : List ApikeyLocation} {kind : ApikeyLocationKind}
    (h : ∀ place ∈ places, place.kind ≠ kind) (name : α → Str) (items : List α) :
    (items.filter fun item => !places.contains ⟨kind, name item⟩) = items := by
  apply List.filter_eq_self.mpr
  intro item _
  rw [Bool.not_eq_true', List.contains_eq_mem, decide_eq_false_iff_not]
  intro hmem
  exact h _ hmem rfl

theorem headers_eq_of_elsewhere {places : List ApikeyLocation}
    (h : ∀ place ∈ places, place.kind ≠ .header) (headers : List (Str × Str)) :
    (headers.filter fun header => !isHeaderAt P places header) = headers := by
  apply List.filter_eq_self.mpr
  intro header _
  rw [Bool.not_eq_true', isHeaderAt, List.any_eq_false]
  intro place hmem
  simp [h place hmem]

/-- The headers of an id and a secret. -/
theorem isHeaderAt_pair (first second : Str) (header : Str × Str) :
    isHeaderAt P [⟨.header, first⟩, ⟨.header, second⟩] header =
      (sameName P first header.1 || sameName P second header.1) := by
  simp [isHeaderAt]

theorem isHeaderAt_single (name : Str) (header : Str × Str) :
    isHeaderAt P [⟨.header, name⟩] header = sameName P name header.1 := by
  simp [isHeaderAt]

/-- The header with the id of a pair takes the secret of the pair along. -/
theorem wipe_headers_of_pair (request : NgPluginHttpRequest) :
    (wipe P Q names constraints ⟨.header, clientIdName names constraints⟩ request).headers =
      request.headers.filter fun header =>
        !isHeaderAt P [⟨.header, clientIdName names constraints⟩,
          ⟨.header, clientSecretName names constraints⟩] header := by
  have hself : sameName P (clientIdName names constraints)
      (clientIdName names constraints) = true := decide_eq_true rfl
  rw [wipe]
  simp only [contains_wipedHeaders, hself, isHeaderAt_pair, Bool.true_and]

/-- A header is left out alone exactly when no secret is beside it. -/
theorem wipe_headers_of_single_iff (name : Str) :
    (wipe P Q names constraints ⟨.header, name⟩ request).headers =
        request.headers.filter (fun header => !isHeaderAt P [⟨.header, name⟩] header) ↔
      ¬ SecretBeside P names constraints name request := by
  rw [wipe]
  simp only [contains_wipedHeaders, isHeaderAt_single]
  constructor
  · rintro hfilter ⟨hid, header, hmem, hsecret, hother⟩
    have hkept : header ∈ request.headers.filter fun header => !sameName P name header.1 :=
      List.mem_filter.mpr ⟨hmem, by rw [hother]; rfl⟩
    rw [← hfilter] at hkept
    have hwiped := (List.mem_filter.mp hkept).2
    rw [hid, hsecret, hother] at hwiped
    cases hwiped
  · intro hnone
    apply List.filter_congr
    intro header hmem
    cases hid : sameName P name (clientIdName names constraints) with
    | false => rw [Bool.false_and, Bool.or_false]
    | true =>
        cases hsecret : sameName P (clientSecretName names constraints) header.1 with
        | false => rw [Bool.true_and, Bool.or_false]
        | true =>
            cases hother : sameName P name header.1 with
            | true => rfl
            | false => exact absurd ⟨hid, header, hmem, hsecret, hother⟩ hnone

/-- Wiping a header leaves out the right ones exactly when it does not take another secret
along. -/
theorem wipe_headers_iff (hheader : credential.place.kind = .header)
    (hcustom : credential.extractor = .customHeaders →
      credential.place = ⟨.header, clientIdName names constraints⟩) :
    (wipe P Q names constraints credential.place request).headers =
        request.headers.filter (fun header =>
          !isHeaderAt P (credential.places names constraints) header) ↔
      ¬ credential.TakesSecret P names constraints request := by
  by_cases hextractor : credential.extractor = .customHeaders
  · apply iff_of_true
    · rw [Credential.places, if_pos hextractor, hcustom hextractor]
      exact wipe_headers_of_pair request
    · intro htakes
      exact htakes.2.1 hextractor
  · rw [Credential.places, if_neg hextractor]
    obtain ⟨extractor, tuple, kind, name⟩ := credential
    cases hheader
    rw [wipe_headers_of_single_iff]
    constructor
    · rintro hnone ⟨-, -, htakes⟩
      exact hnone htakes
    · intro hnone htakes
      exact hnone ⟨rfl, hextractor, htakes⟩

/-! ### Every kind of place -/

/-- The place of an id and a secret in two headers is that of the id. -/
theorem place_of_customHeaders {P : TextPlatform} {gateway : Gateway} {req : RequestHeader}
    {pathParams : List (Str × Str)}
    (h : credentialOf P gateway req constraints pathParams = .ok (some credential))
    (hcustom : credential.extractor = .customHeaders) :
    credential.place = ⟨.header, clientIdName gateway.headers constraints⟩ := by
  obtain ⟨-, found, hfound, rfl⟩ | ⟨-, found, hfound, rfl⟩ | ⟨-, found, hfound, rfl⟩ |
    ⟨-, found, hfound, rfl⟩ | ⟨-, clientId, found, hfound, rfl⟩ :=
      exists_of_credentialOf P gateway req constraints pathParams h
  · cases hcustom
  · rw [findCustomHeaders] at hfound
    obtain ⟨first, hfirst, hpair⟩ := Option.bind_eq_some_iff.mp hfound
    obtain ⟨id, -, rfl⟩ := Option.map_eq_some_iff.mp hfirst
    obtain ⟨secret, -, rfl⟩ := Option.map_eq_some_iff.mp hpair
    rfl
  · cases hcustom
  · cases hcustom
  · cases hcustom

/-- Only headers are next to a header. -/
theorem kind_of_mem_places (hheader : credential.place.kind = .header) {place : ApikeyLocation}
    (hmem : place ∈ credential.places names constraints) : place.kind = .header := by
  rw [Credential.places] at hmem
  split at hmem
  · obtain rfl | hmem := List.mem_cons.mp hmem
    · exact hheader
    · rw [List.mem_singleton.mp hmem]
  · rw [List.mem_singleton.mp hmem]
    exact hheader

/-- Leaving out items by name leaves out those at the place. -/
theorem filter_name_eq {α : Type} (kind : ApikeyLocationKind) (name : Str) (key : α → Str)
    (items : List α) :
    (items.filter fun item => key item != name) =
      items.filter fun item =>
        !([⟨kind, name⟩] : List ApikeyLocation).contains ⟨kind, key item⟩ := by
  apply List.filter_congr
  intro item _
  simp [bne, beq_eq_decide]

theorem params_wipe_query (name : Str)
    (hrestores : ∀ raw, request.uri.rawQueryString = some raw →
      Restores Q ((Q.query raw).filter fun param => param.1 != name)) :
    (wipe P Q names constraints ⟨.query, name⟩ request).params Q =
      (request.params Q).filter fun param => param.1 != name := by
  rw [NgPluginHttpRequest.params, NgPluginHttpRequest.params, wipe]
  dsimp only
  cases hraw : request.uri.rawQueryString with
  | none => rfl
  | some raw =>
      rw [Option.map_some, Option.map_some, Option.getD_some, Option.map_some, Option.getD_some,
        hrestores raw hraw]
      exact List.filter_comm _ _ _

theorem wipes_wipe_query {name : Str}
    (hrestores : ∀ raw, request.uri.rawQueryString = some raw →
      Restores Q ((Q.query raw).filter fun param => param.1 != name)) :
    Wipes P Q [⟨.query, name⟩] request (wipe P Q names constraints ⟨.query, name⟩ request) where
  headers := (headers_eq_of_elsewhere (by simp) _).symm
  params := (params_wipe_query name hrestores).trans (filter_name_eq .query name _ _)
  cookies := (filter_eq_of_elsewhere (by simp) Cookie.name _).symm
  rest := rfl

theorem wipes_wipe_cookie (name : Str) :
    Wipes P Q [⟨.cookie, name⟩] request (wipe P Q names constraints ⟨.cookie, name⟩ request) where
  headers := (headers_eq_of_elsewhere (by simp) _).symm
  params := (filter_eq_of_elsewhere (by simp) Prod.fst _).symm
  cookies := filter_name_eq .cookie name _ _
  rest := rfl

/-- Wiping a header leaves everything else as it is. -/
theorem wipes_wipe_header_iff (hheader : credential.place.kind = .header) :
    Wipes P Q (credential.places names constraints) request
        (wipe P Q names constraints credential.place request) ↔
      (wipe P Q names constraints credential.place request).headers =
        request.headers.filter fun header =>
          !isHeaderAt P (credential.places names constraints) header := by
  have helse (kind : ApikeyLocationKind) (hne : kind ≠ .header) :
      ∀ place ∈ credential.places names constraints, place.kind ≠ kind := by
    intro place hmem heq
    exact hne (heq.symm.trans (kind_of_mem_places hheader hmem))
  have hwipe : ∃ headers, wipe P Q names constraints credential.place request =
      { request with headers := headers } := by
    rw [wipe, hheader]
    exact ⟨_, rfl⟩
  constructor
  · exact Wipes.headers
  · intro hheaders
    obtain ⟨headers, hwipe⟩ := hwipe
    rw [hwipe] at hheaders ⊢
    exact {
      headers := hheaders
      params := (filter_eq_of_elsewhere (helse .query nofun) Prod.fst _).symm
      cookies := (filter_eq_of_elsewhere (helse .cookie nofun) Cookie.name _).symm
      rest := rfl }

/-- Off the headers there is one place. -/
theorem places_eq_singleton (hne : credential.place.kind ≠ .header)
    (hcustom : credential.extractor = .customHeaders →
      credential.place = ⟨.header, clientIdName names constraints⟩) :
    credential.places names constraints = [credential.place] := by
  rw [Credential.places, if_neg]
  intro hextractor
  exact hne (by rw [hcustom hextractor])

/-- Wiping the place of a credential leaves out what it has to, but for the secret it may
take along. -/
theorem wipes_wipe_iff (hkind : credential.place.kind ≠ .path)
    (hcustom : credential.extractor = .customHeaders →
      credential.place = ⟨.header, clientIdName names constraints⟩)
    (hrestores : ∀ raw, request.uri.rawQueryString = some raw →
      Restores Q ((Q.query raw).filter fun param => param.1 != credential.place.name)) :
    Wipes P Q (credential.places names constraints) request
        (wipe P Q names constraints credential.place request) ↔
      ¬ credential.TakesSecret P names constraints request := by
  by_cases hheader : credential.place.kind = .header
  · rw [wipes_wipe_header_iff hheader]
    exact wipe_headers_iff hheader hcustom
  · apply iff_of_true
    · rw [places_eq_singleton hheader hcustom]
      obtain ⟨extractor, tuple, kind, name⟩ := credential
      cases kind with
      | header => exact absurd rfl hheader
      | query => exact wipes_wipe_query hrestores
      | cookie => exact wipes_wipe_cookie name
      | path => exact absurd rfl hkind
    · intro htakes
      exact hheader htakes.1

variable {Throttling Plugins : Type} {gateway : Gateway} {config : NgApikeyCallsConfig}
  {req : RequestHeader} {attrs : RequestAttrs Throttling Plugins} {tuple : ApikeyTuple}

theorem transformRequestSync_eq (hwipe : config.wipeBackendRequest = true)
    {location : ApikeyLocation} (hlocation : tuple.location = some location) :
    transformRequestSync P Q names config req { attrs with preExtractedApikeyTuple := some tuple }
        request =
      wipe P Q names config.legacy location request := by
  rw [transformRequestSync, if_pos hwipe, Option.bind_some, hlocation]

/-- A credential that was extracted is noted with the place it was read from, and what is
at the place, and nothing else, is left out of the request to the backend, exactly when it
was not read from a cookie as a text with an id and a secret, and does not take a secret
along. -/
theorem transformRequestSync_wipes_iff (hwipe : config.wipeBackendRequest = true)
    (htuple : attrs.preExtractedApikeyTuple = none) (hkey : attrs.apiKey = none)
    (hdetect : detectApikeyTuple P gateway req config.legacy attrs = .ok (some tuple))
    (hrestores : ∀ raw name, request.uri.rawQueryString = some raw →
      Restores Q ((Q.query raw).filter fun param => param.1 != name)) :
    ∃ credential, credentialOf P gateway req config.legacy attrs.pathParams =
        .ok (some credential) ∧
      (valueAt P req attrs.pathParams credential.place).isSome = true ∧
      (credential.place.kind ≠ .path →
        ((tuple.location = some credential.place ∧
            Wipes P Q (credential.places gateway.headers config.legacy) request
              (transformRequestSync P Q gateway.headers config req
                { attrs with preExtractedApikeyTuple := some tuple } request)) ↔
          ¬ credential.InBasicCookie ∧
            ¬ credential.TakesSecret P gateway.headers config.legacy request)) := by
  obtain ⟨credential, hcredential, heq⟩ := exists_credentialOf P gateway req config.legacy htuple
    hkey hdetect
  subst heq
  have hlocation :=
    location_of_credentialOf P gateway req config.legacy attrs.pathParams hcredential
  have hwiped (hkind : credential.place.kind ≠ .path) :=
    @wipes_wipe_iff P Q gateway.headers config.legacy credential request hkind
      (place_of_customHeaders hcredential) fun raw => hrestores raw credential.place.name
  use credential, hcredential
  use isSome_valueAt P gateway req config.legacy attrs.pathParams hcredential
  intro hkind
  constructor
  · rintro ⟨hnoted, hwipes⟩
    rw [transformRequestSync_eq hwipe hnoted] at hwipes
    rw [hlocation, Option.some_inj] at hnoted
    exact ⟨(noted_eq_iff hkind).mp hnoted, (hwiped hkind).mp hwipes⟩
  · rintro ⟨hcookie, hsecret⟩
    have hnoted := hlocation.trans (congrArg some ((noted_eq_iff hkind).mpr hcookie))
    rw [transformRequestSync_eq hwipe hnoted]
    exact ⟨hnoted, (hwiped hkind).mpr hsecret⟩

end Wiping

section Example

/-- Parameters of plain letters. -/
def exampleQuery : QueryPlatform where
  query raw := (split '&' raw).map fun param =>
    (param.takeWhile (· != '='), (param.dropWhile (· != '=')).drop 1)
  render params := List.intercalate "&".toList
    (params.map fun param => param.1 ++ "=".toList ++ param.2)

/-- A request with an id in its query. -/
def queryRequest : RequestHeader :=
  { exampleRequest [] with
    queryString := [("x-api-key".toList, ["id".toList]), ("page".toList, ["2".toList])] }

/-- It goes to the backend with its query and a cookie. -/
def queryBackendRequest : NgPluginHttpRequest where
  uri := {
    rest := "https://backend.oto.tools/".toList
    rawQueryString := some "x-api-key=id&page=2".toList }
  cookies := [⟨"theme".toList, "dark".toList⟩]

theorem restores_queryBackendRequest (raw name : Str)
    (h : queryBackendRequest.uri.rawQueryString = some raw) :
    Restores exampleQuery ((exampleQuery.query raw).filter fun param => param.1 != name) := by
  cases h
  have hparams : exampleQuery.query "x-api-key=id&page=2".toList =
      [("x-api-key".toList, "id".toList), ("page".toList, "2".toList)] := by decide
  rw [hparams, Restores]
  cases hkey : "x-api-key".toList != name with
  | false =>
      cases hpage : "page".toList != name <;>
        simp only [List.filter_cons, List.filter_nil, hkey, hpage] <;> decide
  | true =>
      cases hpage : "page".toList != name <;>
        simp only [List.filter_cons, List.filter_nil, hkey, hpage] <;> decide

def queryCredential : Credential := .ofClientId ("id".toList, ⟨.query, "x-api-key".toList⟩)

theorem transformRequestSync_wipes_iff_example :
    queryCredential.tuple.location = some queryCredential.place ∧
      Wipes examplePlatform.toTextPlatform exampleQuery
        (queryCredential.places {} ({} : NgApikeyCallsConfig).legacy) queryBackendRequest
        (transformRequestSync examplePlatform.toTextPlatform exampleQuery {} {} queryRequest
          { ({} : RequestAttrs Unit Unit) with
            preExtractedApikeyTuple := some queryCredential.tuple }
          queryBackendRequest) := by
  have h := @transformRequestSync_wipes_iff examplePlatform.toTextPlatform exampleQuery
    queryBackendRequest Unit Unit {} {} queryRequest {} queryCredential.tuple
    rfl rfl rfl rfl restores_queryBackendRequest
  obtain ⟨credential, hcredential, -, hiff⟩ := h
  have hfound : credentialOf examplePlatform.toTextPlatform {} queryRequest
      ({} : NgApikeyCallsConfig).legacy [] = .ok (some queryCredential) := rfl
  cases hcredential.symm.trans hfound
  have hquery := hiff nofun
  have hcookie : ¬ queryCredential.InBasicCookie := fun h => nomatch h.1
  have hsecret : ¬ queryCredential.TakesSecret examplePlatform.toTextPlatform {}
      ({} : NgApikeyCallsConfig).legacy queryBackendRequest := fun h => nomatch h.1
  exact hquery.mpr ⟨hcookie, hsecret⟩

/-- A request with an id and a secret in a cookie. -/
def cookieRequest : RequestHeader :=
  { exampleRequest [] with cookies := [⟨"basic_auth".toList, "aWQ6c2VjcmV0".toList⟩] }

def cookieBackendRequest : NgPluginHttpRequest where
  uri := { rest := "https://backend.oto.tools/".toList }
  cookies := cookieRequest.cookies

/-- The id and the secret are noted as a path parameter, and go to the backend. -/
theorem exists_not_wipes :
    ∃ (tuple : ApikeyTuple) (cookie : Cookie),
      detectApikeyTuple examplePlatform.toTextPlatform {} cookieRequest
        ({} : NgApikeyCallsConfig).legacy ({} : RequestAttrs Unit Unit) = .ok (some tuple) ∧
      credentialOf examplePlatform.toTextPlatform {} cookieRequest
        ({} : NgApikeyCallsConfig).legacy [] = .ok (some ⟨.basic, tuple, ⟨.cookie, cookie.name⟩⟩) ∧
      tuple.location = some ⟨.path, cookie.name⟩ ∧
      cookie ∈ (transformRequestSync examplePlatform.toTextPlatform exampleQuery {}
        ({} : NgApikeyCallsConfig) cookieRequest
        { ({} : RequestAttrs Unit Unit) with preExtractedApikeyTuple := some tuple }
        cookieBackendRequest).cookies ∧
      ¬ Wipes examplePlatform.toTextPlatform exampleQuery [⟨.cookie, cookie.name⟩]
        cookieBackendRequest
        (transformRequestSync examplePlatform.toTextPlatform exampleQuery {}
          ({} : NgApikeyCallsConfig) cookieRequest
          { ({} : RequestAttrs Unit Unit) with preExtractedApikeyTuple := some tuple }
          cookieBackendRequest) := by
  use { clientId := some "id".toList
        clientSecret := some "secret".toList
        location := some ⟨.path, "basic_auth".toList⟩ }
  use ⟨"basic_auth".toList, "aWQ6c2VjcmV0".toList⟩
  use rfl, rfl, rfl, List.mem_singleton_self _
  intro hwipes
  cases hwipes.cookies

end Example

end Credentials

end Otoroshi
