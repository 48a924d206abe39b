/-
# How an api key may be presented

The constraints of a service say where a key is looked for: headers, query
parameters, cookies and path elements, for each way to present it, and which tags
and metadata a route and a key must share.

The names are optional texts. A blank name is read as no name, so names that are
not blank are what the formats are for. Every format gives back what it wrote,
but for two fields of the basic authentication, which are written under one name
and read under another, and for a negative life span, which is no constraint.
-/

import Otoroshi.Foundation.Json

namespace Otoroshi

open Json

/-- Where one kind of credential is looked for. -/
structure CredentialNames where
  enabled : Bool := true
  headerName : Option Str := none
  queryName : Option Str := none
  cookieName : Option Str := none
  pathName : Option Str := none
  deriving DecidableEq

abbrev BasicAuthConstraints := CredentialNames

abbrev ClientIdAuthConstraints := CredentialNames

abbrev OtoBearerConstraints := CredentialNames

structure CustomHeadersAuthConstraints where
  enabled : Bool := true
  clientIdHeaderName : Option Str := none
  clientSecretHeaderName : Option Str := none
  deriving DecidableEq

structure JwtAuthConstraints where
  enabled : Bool := true
  secretSigned : Bool := true
  keyPairSigned : Bool := true
  includeRequestAttributes : Bool := false
  maxJwtLifespanSecs : Option Long := none
  headerName : Option Str := none
  queryName : Option Str := none
  cookieName : Option Str := none
  pathName : Option Str := none
  deriving DecidableEq

structure ApiKeyRouteMatcher where
  noneTagIn : List Str := []
  oneTagIn : List Str := []
  allTagsIn : List Str := []
  noneMetaIn : AList fun _ : Str => Str := ∅
  oneMetaIn : AList fun _ : Str => Str := ∅
  allMetaIn : AList fun _ : Str => Str := ∅
  noneMetaKeysIn : List Str := []
  oneMetaKeyIn : List Str := []
  allMetaKeysIn : List Str := []

structure ApiKeyConstraints where
  basicAuth : BasicAuthConstraints := {}
  customHeadersAuth : CustomHeadersAuthConstraints := {}
  clientIdAuth : ClientIdAuthConstraints := {}
  jwtAuth : JwtAuthConstraints := {}
  otoBearerAuth : OtoBearerConstraints := {}
  routing : ApiKeyRouteMatcher := {}

/-! ## The formats -/

/-- `asOpt[String].filterNot(_.trim.isEmpty)`. -/
def readName (json : JsValue) (field : String) : Option Str :=
  ((json.select field).asOpt .string).filter fun name => !isBlank name

/-- The fields of the credentials, written the same way everywhere. -/
def CredentialNames.json (constraints : CredentialNames) : JsValue :=
  obj [("enabled", .bool constraints.enabled),
    ("headerName", orNull .string constraints.headerName),
    ("queryName", orNull .string constraints.queryName),
    ("cookieName", orNull .string constraints.cookieName),
    ("pathName", orNull .string constraints.pathName)]

/-- A reader of credentials, with the names it gives to the last two fields. -/
def CredentialNames.reads (cookieField pathField : String) : Reads CredentialNames := fun json =>
  .ok { enabled := (json.select "enabled").asOptOrElse .boolean true
        headerName := readName json "headerName"
        queryName := readName json "queryName"
        cookieName := readName json cookieField
        pathName := readName json pathField }

def BasicAuthConstraints.format : Format BasicAuthConstraints where
  writes := CredentialNames.json
  reads := CredentialNames.reads "cookie_name" "path_name"

def ClientIdAuthConstraints.format : Format ClientIdAuthConstraints where
  writes := CredentialNames.json
  reads := CredentialNames.reads "cookieName" "pathName"

def OtoBearerConstraints.format : Format OtoBearerConstraints where
  writes := CredentialNames.json
  reads := CredentialNames.reads "cookieName" "pathName"

def CustomHeadersAuthConstraints.format : Format CustomHeadersAuthConstraints where
  writes constraints :=
    obj [("enabled", .bool constraints.enabled),
      ("clientIdHeaderName", orNull .string constraints.clientIdHeaderName),
      ("clientSecretHeaderName", orNull .string constraints.clientSecretHeaderName)]
  reads json :=
    .ok { enabled := (json.select "enabled").asOptOrElse .boolean true
          clientIdHeaderName := readName json "clientIdHeaderName"
          clientSecretHeaderName := readName json "clientSecretHeaderName" }

def JwtAuthConstraints.format : Format JwtAuthConstraints where
  writes constraints :=
    obj [("enabled", .bool constraints.enabled),
      ("secretSigned", .bool constraints.secretSigned),
      ("keyPairSigned", .bool constraints.keyPairSigned),
      ("includeRequestAttributes", .bool constraints.includeRequestAttributes),
      ("maxJwtLifespanSecs", orNull long constraints.maxJwtLifespanSecs),
      ("headerName", orNull .string constraints.headerName),
      ("queryName", orNull .string constraints.queryName),
      ("cookieName", orNull .string constraints.cookieName),
      ("pathName", orNull .string constraints.pathName)]
  reads json :=
    .ok { enabled := (json.select "enabled").asOptOrElse .boolean true
          secretSigned := (json.select "secretSigned").asOptOrElse .boolean true
          keyPairSigned := (json.select "keyPairSigned").asOptOrElse .boolean true
          includeRequestAttributes :=
            (json.select "includeRequestAttributes").asOptOrElse .boolean false
          maxJwtLifespanSecs :=
            ((json.select "maxJwtLifespanSecs").asOpt .long).filter fun secs => -1 < secs.1
          headerName := readName json "headerName"
          queryName := readName json "queryName"
          cookieName := readName json "cookieName"
          pathName := readName json "pathName" }

def ApiKeyRouteMatcher.format : Format ApiKeyRouteMatcher where
  writes matcher :=
    obj [("noneTagIn", strings matcher.noneTagIn),
      ("oneTagIn", strings matcher.oneTagIn),
      ("allTagsIn", strings matcher.allTagsIn),
      ("noneMetaIn", stringMap matcher.noneMetaIn),
      ("oneMetaIn", stringMap matcher.oneMetaIn),
      ("allMetaIn", stringMap matcher.allMetaIn),
      ("noneMetaKeysIn", strings matcher.noneMetaKeysIn),
      ("oneMetaKeyIn", strings matcher.oneMetaKeyIn),
      ("allMetaKeysIn", strings matcher.allMetaKeysIn)]
  reads json :=
    .ok { noneTagIn := (json.select "noneTagIn").asOptOrElse (.seq .string) []
          oneTagIn := (json.select "oneTagIn").asOptOrElse (.seq .string) []
          allTagsIn := (json.select "allTagsIn").asOptOrElse (.seq .string) []
          noneMetaIn := (json.select "noneMetaIn").asOptOrElse (.map .string) ∅
          oneMetaIn := (json.select "oneMetaIn").asOptOrElse (.map .string) ∅
          allMetaIn := (json.select "allMetaIn").asOptOrElse (.map .string) ∅
          noneMetaKeysIn := (json.select "noneMetaKeysIn").asOptOrElse (.seq .string) []
          oneMetaKeyIn := (json.select "oneMetaKeyIn").asOptOrElse (.seq .string) []
          allMetaKeysIn := (json.select "allMetaKeysIn").asOptOrElse (.seq .string) [] }

def ApiKeyConstraints.json (constraints : ApiKeyConstraints) : JsValue :=
  obj [("basicAuth", BasicAuthConstraints.format.writes constraints.basicAuth),
    ("customHeadersAuth",
      CustomHeadersAuthConstraints.format.writes constraints.customHeadersAuth),
    ("otoBearerAuth", OtoBearerConstraints.format.writes constraints.otoBearerAuth),
    ("clientIdAuth", ClientIdAuthConstraints.format.writes constraints.clientIdAuth),
    ("jwtAuth", JwtAuthConstraints.format.writes constraints.jwtAuth),
    ("routing", ApiKeyRouteMatcher.format.writes constraints.routing)]

/-- Only the bearer constraints have a default. -/
def ApiKeyConstraints.reads : Reads ApiKeyConstraints := fun json => do
  let basicAuth ← (json.select "basicAuth").as BasicAuthConstraints.format.reads
  let customHeadersAuth ←
    (json.select "customHeadersAuth").as CustomHeadersAuthConstraints.format.reads
  let otoBearerAuth :=
    (json.select "otoBearerAuth").asOptOrElse OtoBearerConstraints.format.reads {}
  let clientIdAuth ← (json.select "clientIdAuth").as ClientIdAuthConstraints.format.reads
  let jwtAuth ← (json.select "jwtAuth").as JwtAuthConstraints.format.reads
  let routing ← (json.select "routing").as ApiKeyRouteMatcher.format.reads
  return { basicAuth, customHeadersAuth, clientIdAuth, jwtAuth, otoBearerAuth, routing }

def ApiKeyConstraints.format : Format ApiKeyConstraints where
  writes := ApiKeyConstraints.json
  reads := ApiKeyConstraints.reads

/-! ## Names that are read back -/

/-- The name, if there is one, is no blank text. -/
def NonBlank (name : Option Str) : Prop := ∀ text ∈ name, isBlank text = false

def CredentialNames.NonBlank (constraints : CredentialNames) : Prop :=
  Otoroshi.NonBlank constraints.headerName ∧ Otoroshi.NonBlank constraints.queryName ∧
    Otoroshi.NonBlank constraints.cookieName ∧ Otoroshi.NonBlank constraints.pathName

/-- All names of the constraints are no blank texts. -/
structure ApiKeyConstraints.NonBlank (constraints : ApiKeyConstraints) : Prop where
  basicAuth : constraints.basicAuth.NonBlank
  clientIdHeader : Otoroshi.NonBlank constraints.customHeadersAuth.clientIdHeaderName
  clientSecretHeader : Otoroshi.NonBlank constraints.customHeadersAuth.clientSecretHeaderName
  clientIdAuth : constraints.clientIdAuth.NonBlank
  jwtHeader : Otoroshi.NonBlank constraints.jwtAuth.headerName
  jwtQuery : Otoroshi.NonBlank constraints.jwtAuth.queryName
  jwtCookie : Otoroshi.NonBlank constraints.jwtAuth.cookieName
  jwtPath : Otoroshi.NonBlank constraints.jwtAuth.pathName
  otoBearerAuth : constraints.otoBearerAuth.NonBlank

theorem readName_of_select {json : JsValue} {field : String} {name : Option Str}
    (h : NonBlank name) (hselect : json.select field = some (orNull .string name)) :
    readName json field = name := by
  rw [readName, hselect]
  cases name with
  | none => rfl
  | some text =>
      have htext : isBlank text = false := h text rfl
      have hread : JsLookupResult.asOpt (some (orNull .string (some text))) .string = some text :=
        rfl
      rw [hread, Option.filter_some, htext]
      rfl

/-- No field of the object has the name. -/
theorem readName_of_none {json : JsValue} {field : String} (h : json.select field = none) :
    readName json field = none := by
  rw [readName, h]
  rfl

/-- Credentials are read back by a reader that uses the names of the writer. -/
theorem CredentialNames.reads_json {constraints : CredentialNames} (h : constraints.NonBlank) :
    CredentialNames.reads "cookieName" "pathName" constraints.json = .ok constraints := by
  obtain ⟨hheader, hquery, hcookie, hpath⟩ := h
  rw [CredentialNames.reads, CredentialNames.json, readName_of_select hheader (by simp),
    readName_of_select hquery (by simp), readName_of_select hcookie (by simp),
    readName_of_select hpath (by simp)]
  simp

/-- The basic authentication loses its cookie and its path element. -/
theorem BasicAuthConstraints.reads_writes {constraints : BasicAuthConstraints}
    (h : constraints.NonBlank) :
    BasicAuthConstraints.format.reads (BasicAuthConstraints.format.writes constraints) =
      .ok { constraints with cookieName := none, pathName := none } := by
  obtain ⟨hheader, hquery, -, -⟩ := h
  have hcookie : readName constraints.json "cookie_name" = none :=
    readName_of_none (by simp [CredentialNames.json])
  have hpath : readName constraints.json "path_name" = none :=
    readName_of_none (by simp [CredentialNames.json])
  rw [BasicAuthConstraints.format]
  dsimp only
  rw [CredentialNames.reads, hcookie, hpath, CredentialNames.json,
    readName_of_select hheader (by simp), readName_of_select hquery (by simp)]
  simp

theorem CustomHeadersAuthConstraints.reads_writes {constraints : CustomHeadersAuthConstraints}
    (hid : NonBlank constraints.clientIdHeaderName)
    (hsecret : NonBlank constraints.clientSecretHeaderName) :
    CustomHeadersAuthConstraints.format.reads
      (CustomHeadersAuthConstraints.format.writes constraints) = .ok constraints := by
  rw [CustomHeadersAuthConstraints.format]
  dsimp only
  rw [readName_of_select hid (by simp), readName_of_select hsecret (by simp)]
  simp

/-- The tokens lose a negative life span. -/
theorem JwtAuthConstraints.reads_writes {constraints : JwtAuthConstraints}
    (hheader : NonBlank constraints.headerName) (hquery : NonBlank constraints.queryName)
    (hcookie : NonBlank constraints.cookieName) (hpath : NonBlank constraints.pathName) :
    JwtAuthConstraints.format.reads (JwtAuthConstraints.format.writes constraints) =
      .ok { constraints with
        maxJwtLifespanSecs := constraints.maxJwtLifespanSecs.filter fun secs => -1 < secs.1 } := by
  rw [JwtAuthConstraints.format]
  dsimp only
  rw [readName_of_select hheader (by simp), readName_of_select hquery (by simp),
    readName_of_select hcookie (by simp), readName_of_select hpath (by simp)]
  simp [asOpt_orNull reads_long rfl]

theorem ApiKeyRouteMatcher.reads_writes (matcher : ApiKeyRouteMatcher) :
    ApiKeyRouteMatcher.format.reads (ApiKeyRouteMatcher.format.writes matcher) = .ok matcher := by
  rw [ApiKeyRouteMatcher.format]
  simp [asOptOrElse_of_ok (reads_strings _), asOptOrElse_of_ok (reads_stringMap _)]

namespace ApiKeyConstraints

/-- The constraints as they come back: without the cookie and the path element of
the basic authentication, and without a negative life span. -/
def stored (constraints : ApiKeyConstraints) : ApiKeyConstraints :=
  { constraints with
    basicAuth := { constraints.basicAuth with cookieName := none, pathName := none }
    jwtAuth := { constraints.jwtAuth with
      maxJwtLifespanSecs :=
        constraints.jwtAuth.maxJwtLifespanSecs.filter fun secs => -1 < secs.1 } }

theorem reads_json {constraints : ApiKeyConstraints} (h : constraints.NonBlank) :
    reads constraints.json = .ok constraints.stored := by
  have hclient : ClientIdAuthConstraints.format.reads
      (ClientIdAuthConstraints.format.writes constraints.clientIdAuth) =
        .ok constraints.clientIdAuth := CredentialNames.reads_json h.clientIdAuth
  have hbearer : OtoBearerConstraints.format.reads
      (OtoBearerConstraints.format.writes constraints.otoBearerAuth) =
        .ok constraints.otoBearerAuth := CredentialNames.reads_json h.otoBearerAuth
  rw [reads, ApiKeyConstraints.json]
  simp only [select_obj_cons, String.reduceEq, if_true, if_false, JsLookupResult.as,
    BasicAuthConstraints.reads_writes h.basicAuth,
    CustomHeadersAuthConstraints.reads_writes h.clientIdHeader h.clientSecretHeader, hclient,
    asOptOrElse_of_ok hbearer,
    JwtAuthConstraints.reads_writes h.jwtHeader h.jwtQuery h.jwtCookie h.jwtPath,
    ApiKeyRouteMatcher.reads_writes]
  rfl

/-- Constraints with no blank name are read back from what is written for them
exactly when the basic authentication names no cookie and no path element and no
life span is negative. -/
theorem reads_writes_iff {constraints : ApiKeyConstraints} (h : constraints.NonBlank) :
    format.reads (format.writes constraints) = .ok constraints ↔
      constraints.basicAuth.cookieName = none ∧ constraints.basicAuth.pathName = none ∧
        ∀ secs ∈ constraints.jwtAuth.maxJwtLifespanSecs, -1 < secs.1 := by
  rw [format]
  dsimp only
  rw [reads_json h, Except.ok.injEq]
  constructor
  · intro hstored
    have hbasic := congrArg ApiKeyConstraints.basicAuth hstored
    have hjwt := congrArg
      (JwtAuthConstraints.maxJwtLifespanSecs ∘ ApiKeyConstraints.jwtAuth) hstored
    refine ⟨(congrArg CredentialNames.cookieName hbasic).symm,
      (congrArg CredentialNames.pathName hbasic).symm, ?_⟩
    intro secs hsecs
    have hkept : constraints.jwtAuth.maxJwtLifespanSecs.filter (fun secs => -1 < secs.1) =
        some secs := hjwt.trans hsecs
    simpa using (Option.filter_eq_some_iff.mp hkept).2
  · rintro ⟨hcookie, hpath, hsecs⟩
    have hbasic : { constraints.basicAuth with cookieName := none, pathName := none } =
        constraints.basicAuth := by
      calc
        _ = { constraints.basicAuth with
              cookieName := constraints.basicAuth.cookieName
              pathName := constraints.basicAuth.pathName } := by rw [hcookie, hpath]
        _ = constraints.basicAuth := rfl
    have hkept : constraints.jwtAuth.maxJwtLifespanSecs.filter (fun secs => -1 < secs.1) =
        constraints.jwtAuth.maxJwtLifespanSecs := by
      cases hlife : constraints.jwtAuth.maxJwtLifespanSecs with
      | none => rfl
      | some secs => rw [Option.filter_some, decide_eq_true (hsecs secs hlife), if_pos rfl]
    rw [stored, hbasic, hkept]

/-- Default constraints but for the names the basic authentication looks for. -/
def ofBasicAuth (basicAuth : BasicAuthConstraints) : ApiKeyConstraints := { basicAuth }

theorem nonBlank_ofBasicAuth {basicAuth : BasicAuthConstraints} (h : basicAuth.NonBlank) :
    (ofBasicAuth basicAuth).NonBlank where
  basicAuth := h
  clientIdHeader := nofun
  clientSecretHeader := nofun
  clientIdAuth := ⟨nofun, nofun, nofun, nofun⟩
  jwtHeader := nofun
  jwtQuery := nofun
  jwtCookie := nofun
  jwtPath := nofun
  otoBearerAuth := ⟨nofun, nofun, nofun, nofun⟩

/-- A header of the basic authentication is read back. -/
theorem reads_writes_header :
    format.reads (format.writes (ofBasicAuth { headerName := some "auth".toList })) =
      .ok (ofBasicAuth { headerName := some "auth".toList }) := by
  have hnames : CredentialNames.NonBlank { headerName := some "auth".toList } := by
    refine ⟨?_, nofun, nofun, nofun⟩
    rintro text ⟨⟩
    decide
  refine (reads_writes_iff (nonBlank_ofBasicAuth hnames)).mpr ⟨rfl, rfl, ?_⟩
  rintro secs ⟨⟩

/-- A cookie is not. -/
theorem reads_writes_cookie_ne :
    (ofBasicAuth { cookieName := some "auth".toList }).NonBlank ∧
      format.reads (format.writes (ofBasicAuth { cookieName := some "auth".toList })) ≠
        .ok (ofBasicAuth { cookieName := some "auth".toList }) := by
  have hnames : CredentialNames.NonBlank { cookieName := some "auth".toList } := by
    refine ⟨nofun, nofun, ?_, nofun⟩
    rintro text ⟨⟩
    decide
  refine ⟨nonBlank_ofBasicAuth hnames, ?_⟩
  intro hread
  have hcookie := congrArg
    (Except.map fun constraints => constraints.basicAuth.cookieName) hread
  revert hcookie
  decide

end ApiKeyConstraints

end Otoroshi
