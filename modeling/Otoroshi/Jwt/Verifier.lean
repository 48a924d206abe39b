/-
# JWT verifiers

A verifier reads a token at its source, verifies it, and does one of four things with it: it
issues a default token where there is none, lets the token pass, signs its payload again, or
transforms the payload and signs the result. What becomes of the request is told by an
injection, which a plugin applies later.

There are two copies of the decision, one for algorithms that are at hand and one for those
that have to be fetched. They are kept apart here, as in the program.
-/

import Mathlib.Data.List.Infix
import Otoroshi.Apikeys.Extraction
import Otoroshi.Foundation.Json
import Otoroshi.Foundation.Maps
import Otoroshi.Foundation.Stateful

namespace Otoroshi

namespace Jwt

open Credentials (TextPlatform Cookie)

/-- What is thrown, by where it comes from. -/
inductive JwtException
  | patternSyntax
  /-- `last` of an empty array -/
  | noSuchElement
  /-- `as[JsObject]` and `Json.parse` -/
  | json
  /-- a key that can not be read -/
  | algorithm
  /-- a key that can not sign -/
  | signature
  deriving DecidableEq

/-- A decoded token. The payload is encoded. -/
structure DecodedJWT where
  token : Str
  payload : Str
  deriving DecidableEq

abbrev JsObject := List (Str × JsValue)

namespace JsObject

/-- `obj + (name -> value)`. -/
def put (obj : JsObject) (name : Str) (value : JsValue) : JsObject :=
  if (obj.lookup name).isSome then
    obj.map fun field => if field.1 = name then (name, value) else field
  else obj ++ [(name, value)]

/-- `obj - name`. -/
def minus (obj : JsObject) (name : Str) : JsObject := obj.filter fun field => field.1 ≠ name

/-- `obj ++ other`. -/
def plusAll (obj other : JsObject) : JsObject :=
  other.foldl (fun obj field => obj.put field.1 field.2) obj

end JsObject

/-- `as[JsObject]`. -/
def asObject : JsValue → Except JwtException JsObject
  | .object fields => .ok fields
  | _ => .error .json

inductive AlgoMode
  | input (typ : Str) (kid : Option Str)
  | output

/-- The methods of the settings of an algorithm. -/
structure AlgoSettings (Algorithm : Type) where
  keyId : Option Str := none
  isAsync : Bool := false
  asAlgorithm : AlgoMode → Except JwtException (Option Algorithm)
  asAlgorithmF : AlgoMode → Except JwtException (Option Algorithm) := asAlgorithm

structure VerificationSettings where
  fields : AList fun _ : Str => Str := ∅
  arrayFields : AList fun _ : Str => Str := ∅

def VerificationSettings.asJson (settings : VerificationSettings) : JsValue :=
  Json.obj [
    ("fields", Json.stringMap settings.fields),
    ("arrayFields", Json.stringMap settings.arrayFields)]

inductive JwtTokenLocation
  | inQueryParam (name : Str)
  /-- `remove` is a pattern for what is left out of the header -/
  | inHeader (name : Str) (remove : Str)
  | inCookie (name : Str)
  deriving DecidableEq

structure MappingSettings where
  map : List (Str × Str) := []
  values : JsObject := []
  remove : List Str := []

structure TransformSettings where
  location : JwtTokenLocation
  mappingSettings : MappingSettings := {}

inductive VerifierStrategy (Algorithm : Type)
  | defaultToken (strict : Bool) (token : JsValue) (verificationSettings : VerificationSettings)
  | passThrough (verificationSettings : VerificationSettings)
  | sign (verificationSettings : VerificationSettings) (algoSettings : AlgoSettings Algorithm)
  | transform (verificationSettings : VerificationSettings) (transformSettings : TransformSettings)
      (algoSettings : AlgoSettings Algorithm)

def VerifierStrategy.verificationSettings {Algorithm : Type} :
    VerifierStrategy Algorithm → VerificationSettings
  | defaultToken _ _ settings => settings
  | passThrough settings => settings
  | sign settings _ => settings
  | transform settings _ _ => settings

/-- A verifier, with the id that its verdicts are cached under. -/
structure JwtVerifier (Algorithm : Type) where
  id : Str
  strict : Bool := true
  source : JwtTokenLocation
  algoSettings : AlgoSettings Algorithm
  strategy : VerifierStrategy Algorithm

structure JwtInjection where
  decodedToken : Option DecodedJWT := none
  additionalHeaders : List (Str × Str) := []
  removeHeaders : List Str := []
  additionalCookies : List (Str × Str) := []
  removeCookies : List Str := []
  deriving DecidableEq

/-- The error that a request is refused with. -/
structure Rejection where
  message : String
  status : Nat := 400
  sendEvent : Bool := true
  deriving DecidableEq

abbrev Verdict := Except Rejection JwtInjection

/-- What a verifier leaves for the plugins after it. -/
structure JwtAttrs (Algorithm : Type) where
  matchedInputToken : Option JsObject := none
  matchedOutputToken : Option JsObject := none
  matchedRawInputToken : Option Str := none
  matchedRawOutputToken : Option Str := none
  jwtVerifier : Option (JwtVerifier Algorithm) := none

/-- What comes from the platform and from the libraries. Expressions are evaluated for one
request, with its service, its key and its user. -/
structure JwtPlatform (Algorithm : Type) extends TextPlatform where
  digit : Char → Option Nat
  /-- `text.replaceAll(pattern, "")`, with `none` for a pattern that is none -/
  removeAll : Str → Str → Option Str
  /-- `Json.parse(Base64Codec.decode(text))`, with `none` where it throws -/
  parse : Str → Option JsValue
  stringify : JsValue → Str
  /-- `toString` of a number -/
  numberText : Rat → Str
  /-- `Base64Codec.encodeUrlSafeToString` -/
  encode : Str → Str
  sha256 : Str → Str
  /-- `asVerification(algorithm, attrs).build().verify(token)`: the payload of the token, with
  `none` where it throws -/
  verify : VerificationSettings → Algorithm → JwtAttrs Algorithm → Str → Option Str
  algorithmName : Algorithm → Str
  /-- the encoded signature of a header and a payload -/
  signature : Algorithm → Str → Str → Except JwtException Str
  /-- the payload of a token that was just signed -/
  payloadOf : Str → Str
  /-- `JwtExpressionLanguage.fromJson` -/
  evaluate : (AList fun _ : Str => Str) → JwtAttrs Algorithm → JsValue → JsValue

/-- Who calls, and when. -/
structure Caller where
  apikeyName : Option Str := none
  userEmail : Option Str := none
  elContext : AList fun _ : Str => Str := ∅
  uuid : Str
  /-- in milliseconds -/
  currentTime : Int

variable {Algorithm : Type} (P : JwtPlatform Algorithm)

/-! ## Locations -/

namespace JwtTokenLocation

/-- The text of the token in a value at the location. -/
def read (value : Str) : JwtTokenLocation → Except JwtException Str
  | inHeader _ remove =>
      match P.removeAll remove value with
      | some kept => .ok (trim kept)
      | none => .error .patternSyntax
  | _ => .ok value

/-- The first value at the location. -/
def value? (request : Credentials.RequestHeader) : JwtTokenLocation → Option Str
  | inQueryParam name => (request.queryString.lookup name).bind List.head?
  | inHeader name _ => request.header P.toTextPlatform name
  | inCookie name => request.cookie name

def token (location : JwtTokenLocation) (request : Credentials.RequestHeader) :
    Except JwtException (Option Str) :=
  match location.value? P request with
  | none => .ok none
  | some value => (location.read P value).map some

def asJwtInjection (originalToken : DecodedJWT) (newToken : Str) : JwtTokenLocation → JwtInjection
  | inQueryParam _ => {}
  | inHeader name remove =>
      { decodedToken := some originalToken, additionalHeaders := [(name, remove ++ newToken)] }
  | inCookie name =>
      { decodedToken := some originalToken, additionalCookies := [(name, newToken)] }

end JwtTokenLocation

/-! ## Tokens -/

/-- A token without the scheme. -/
def stripBearer (token : Str) : Str :=
  if startsWith token "Bearer ".toList then replaceFirst token "Bearer ".toList [] else token

/-- The id of the key and the algorithm that a token names. The signature, which is not
looked at, has to be there. -/
def tokenHeader (token : Str) : Except JwtException (Option Str × Str) :=
  match split '.' token with
  | [] => .error .noSuchElement
  | header :: _ =>
      let json := (P.parse header).getD (Json.obj [])
      .ok ((json.select "kid").asOpt .string,
        ((json.select "alg").asOpt .string).getD "RS256".toList)

/-- `Json.parse(Base64Codec.decode(decodedToken.getPayload)).as[JsObject]`. -/
def jsonPayload (decodedToken : DecodedJWT) : Except JwtException JsObject :=
  match P.parse decodedToken.payload with
  | some json => asObject json
  | none => .error .json

def sign (token : JsObject) (algorithm : Algorithm) (kid : Option Str) :
    Except JwtException Str := do
  let headerJson := Json.obj ([("alg", .string (P.algorithmName algorithm)),
    ("typ", .string "JWT".toList)] ++ (kid.map fun id => ("kid", JsValue.string id)).toList)
  let header := P.encode (P.stringify headerJson)
  let payload := P.encode (P.stringify (.object token))
  let signature ← P.signature algorithm header payload
  return header ++ ".".toList ++ payload ++ ".".toList ++ signature

/-- A claim that is a text becomes a number where it can. -/
def correctClaim (interpolatedToken : JsObject) (obj : JsObject) (name : String) : JsObject :=
  match interpolatedToken.lookup name.toList with
  | some (.string text) =>
      match parseLong P.digit text with
      | some lng => obj.put name.toList (.number lng)
      | none => obj
  | _ => obj

/-- The default token for a caller. -/
def defaultToken (caller : Caller) (attrs : JwtAttrs Algorithm) (newToken : JsValue) :
    Except JwtException JsObject := do
  let moreCtx := [
    ("jti".toList, caller.uuid),
    ("iat".toList, longText (caller.currentTime.tdiv 1000)),
    ("nbf".toList, longText (caller.currentTime.tdiv 1000)),
    ("iss".toList, "Otoroshi".toList),
    ("exp".toList, longText ((caller.currentTime + 60000).tdiv 1000)),
    ("sub".toList, (caller.apikeyName.or caller.userEmail).getD "anonymous".toList),
    ("aud".toList, "backend".toList)]
  let interpolatedToken ←
    asObject (P.evaluate (Maps.insertAll moreCtx caller.elContext) attrs newToken)
  return ["nbf", "iat", "exp"].foldl (correctClaim P interpolatedToken) interpolatedToken

/-- A claim as the expressions see it. -/
def claimText : JsValue → Str
  | .string text => text
  | .bool value => (toString value).toList
  | .number value => P.numberText value
  | .null => "null".toList
  | json => P.stringify json

/-- A value that is left out of a transformed token. -/
def isNull : JsValue → Bool
  | .null => true
  | .string text => text == "null".toList
  | _ => false

/-- Move a claim to another name. -/
def mapClaim (context : AList fun _ : Str => Str) (attrs : JwtAttrs Algorithm) (obj : JsObject)
    (entry : Str × Str) : Except JwtException JsObject :=
  match obj.lookup entry.1 with
  | some value => .ok ((obj.put entry.2 (P.evaluate context attrs value)).minus entry.1)
  | none => .error .json

def transformToken (settings : MappingSettings) (attrs : JwtAttrs Algorithm)
    (jsonToken : JsObject) : Except JwtException JsObject := do
  let context := Maps.insertAll (jsonToken.map fun field => (field.1, claimText P field.2)) ∅
  let evaluatedValues ← asObject (P.evaluate context attrs (.object settings.values))
  let mapped ← (settings.map.filter fun entry => (jsonToken.lookup entry.1).isSome).foldlM
    (mapClaim P context attrs) jsonToken
  return ((mapped.plusAll evaluatedValues).filter fun field => !isNull field.2).filter
    fun field => !settings.remove.contains field.1

/-- What becomes of a request whose token was transformed. -/
def transformInjection (source location : JwtTokenLocation) (decodedToken : DecodedJWT)
    (newToken : Str) : JwtInjection :=
  let injection := location.asJwtInjection decodedToken newToken
  match source with
  | .inQueryParam _ => injection
  | .inHeader n _ =>
      match location with
      | .inHeader nn _ => if nn = n then injection else { injection with removeHeaders := [n] }
      | _ => { injection with removeHeaders := [n] }
  | .inCookie n => { injection with removeCookies := [n] }

/-! ## Verification -/

/-- What lasts from one request to the next, and the attributes of this one. -/
structure JwtState (Algorithm : Type) where
  attrs : JwtAttrs Algorithm := {}
  signatureCache : AList fun _ : Str => Option DecodedJWT := ∅
  verificationCache : AList fun _ : Str => Rejection := ∅

abbrev JwtRun (Algorithm : Type) := Stateful (JwtState Algorithm) JwtException

/-- The five attributes are put together. -/
def putTokens (verifier : JwtVerifier Algorithm) (input output : JsObject)
    (rawInput rawOutput : Str) : JwtRun Algorithm Unit :=
  Stateful.modify fun state => { state with attrs :=
    { matchedInputToken := some input
      matchedOutputToken := some output
      matchedRawInputToken := some rawInput
      matchedRawOutputToken := some rawOutput
      jwtVerifier := some verifier } }

def verificationCacheKey (id token : Str) : Str := id ++ "-".toList ++ P.sha256 token

/-- `Try(verification.build().verify(token))`. -/
def verifyToken (settings : VerificationSettings) (algorithm : Algorithm)
    (attrs : JwtAttrs Algorithm) (token : Str) : Option DecodedJWT :=
  (P.verify settings algorithm attrs token).map fun payload => ⟨token, payload⟩

/-- A verdict is kept, unless its checks are written with expressions. -/
def cachedVerification (verifier : JwtVerifier Algorithm) (algorithm : Algorithm) (token : Str) :
    JwtRun Algorithm (Option DecodedJWT) := fun state =>
  let settings := verifier.strategy.verificationSettings
  let key := verificationCacheKey P verifier.id token
  let verified := verifyToken P settings algorithm state.attrs token
  if "$\\x7b".toList <:+: P.stringify settings.asJson then (.ok verified, state)
  else
    match state.signatureCache.lookup key with
    | some cached => (.ok cached, state)
    | none =>
        (.ok verified, { state with signatureCache := state.signatureCache.insert key verified })

namespace JwtVerifier

def isAsync (verifier : JwtVerifier Algorithm) : Bool :=
  verifier.algoSettings.isAsync && match verifier.strategy with
    | .defaultToken _ _ _ => false
    | .passThrough _ => false
    | .sign _ algoSettings => algoSettings.isAsync
    | .transform _ _ algoSettings => algoSettings.isAsync

variable (verifier : JwtVerifier Algorithm) (request : Credentials.RequestHeader) (caller : Caller)
  (sendEvent : Bool)

/-! ### The synchronous copy -/

/-- Without a token. -/
def absentSync : JwtRun Algorithm Verdict :=
  match verifier.strategy with
  | .defaultToken true newToken _ => do
      match ← Stateful.ofExcept (verifier.algoSettings.asAlgorithm .output) with
      | none =>
          return .error { message := "error.bad.output.algorithm.name", sendEvent := sendEvent }
      | some outputAlgorithm => do
          let state ← Stateful.get
          let correctedToken ← Stateful.ofExcept (defaultToken P caller state.attrs newToken)
          let signedToken ← Stateful.ofExcept
            (sign P correctedToken outputAlgorithm verifier.algoSettings.keyId)
          let decodedToken : DecodedJWT := ⟨signedToken, P.payloadOf signedToken⟩
          putTokens verifier correctedToken correctedToken signedToken signedToken
          return .ok (verifier.source.asJwtInjection decodedToken signedToken)
  | .defaultToken false _ _ => return .ok {}
  | _ =>
      if verifier.strict then
        return .error { message := "error.expected.token.not.found", sendEvent := sendEvent }
      else return .ok {}

/-- With a token that was verified. -/
def acceptSync (decodedToken : DecodedJWT) : JwtRun Algorithm Verdict :=
  match verifier.strategy with
  | .defaultToken true _ _ =>
      return .error { message := "error.token.already.present", sendEvent := sendEvent }
  | .defaultToken false _ _ => do
      let jsonToken ← Stateful.ofExcept (jsonPayload P decodedToken)
      putTokens verifier jsonToken jsonToken decodedToken.token decodedToken.token
      return .ok { decodedToken := some decodedToken }
  | .passThrough _ => do
      let jsonToken ← Stateful.ofExcept (jsonPayload P decodedToken)
      putTokens verifier jsonToken jsonToken decodedToken.token decodedToken.token
      return .ok { decodedToken := some decodedToken }
  | .sign _ aSettings => do
      match ← Stateful.ofExcept (aSettings.asAlgorithm .output) with
      | none =>
          return .error { message := "error.bad.output.algorithm.name", sendEvent := sendEvent }
      | some outputAlgorithm => do
          let jsonToken ← Stateful.ofExcept (jsonPayload P decodedToken)
          let newToken ← Stateful.ofExcept (sign P jsonToken outputAlgorithm aSettings.keyId)
          putTokens verifier jsonToken jsonToken decodedToken.token newToken
          return .ok (verifier.source.asJwtInjection decodedToken newToken)
  | .transform _ tSettings aSettings => do
      match ← Stateful.ofExcept (aSettings.asAlgorithm .output) with
      | none =>
          return .error { message := "error.bad.output.algorithm.name", sendEvent := sendEvent }
      | some outputAlgorithm => do
          let jsonToken ← Stateful.ofExcept (jsonPayload P decodedToken)
          let state ← Stateful.get
          let newJsonToken ← Stateful.ofExcept
            (transformToken P tSettings.mappingSettings state.attrs jsonToken)
          let newToken ← Stateful.ofExcept (sign P newJsonToken outputAlgorithm aSettings.keyId)
          putTokens verifier jsonToken newJsonToken decodedToken.token newToken
          return .ok
            (transformInjection verifier.source tSettings.location decodedToken newToken)

/-- With a token. -/
def presentSync (rawToken : Str) : JwtRun Algorithm Verdict := do
  let token := stripBearer rawToken
  let (kid, alg) ← Stateful.ofExcept (tokenHeader P token)
  match ← Stateful.ofExcept (verifier.algoSettings.asAlgorithm (.input alg kid)) with
  | none => return .error { message := "error.bad.input.algorithm.name" }
  | some algorithm => do
      match ← cachedVerification P verifier algorithm token with
      | none => return .error { message := "error.bad.token", sendEvent := sendEvent }
      | some decodedToken => verifier.acceptSync P sendEvent decodedToken

def internalVerifySync : JwtRun Algorithm Verdict := do
  match ← Stateful.ofExcept (verifier.source.token P request) with
  | none => verifier.absentSync P caller sendEvent
  | some rawToken => verifier.presentSync P sendEvent rawToken

/-! ### The asynchronous copy -/

/-- Without a token. -/
def absentAsync : JwtRun Algorithm Verdict :=
  match verifier.strategy with
  | .defaultToken true newToken _ => do
      match ← Stateful.ofExcept (verifier.algoSettings.asAlgorithmF .output) with
      | none =>
          return .error { message := "error.bad.output.algorithm.name", sendEvent := sendEvent }
      | some outputAlgorithm => do
          let state ← Stateful.get
          let correctedToken ← Stateful.ofExcept (defaultToken P caller state.attrs newToken)
          let signedToken ← Stateful.ofExcept
            (sign P correctedToken outputAlgorithm verifier.algoSettings.keyId)
          let decodedToken : DecodedJWT := ⟨signedToken, P.payloadOf signedToken⟩
          putTokens verifier correctedToken correctedToken decodedToken.token signedToken
          return .ok (verifier.source.asJwtInjection decodedToken signedToken)
  | .defaultToken false _ _ => return .ok {}
  | _ =>
      if verifier.strict then
        return .error { message := "error.expected.token.not.found", sendEvent := sendEvent }
      else return .ok {}

/-- With a token that was verified. A token that is signed again is put as it was read, also
as the output. -/
def acceptAsync (decodedToken : DecodedJWT) : JwtRun Algorithm Verdict :=
  match verifier.strategy with
  | .defaultToken true _ _ =>
      return .error { message := "error.token.already.present", sendEvent := sendEvent }
  | .defaultToken false _ _ => do
      let jsonToken ← Stateful.ofExcept (jsonPayload P decodedToken)
      putTokens verifier jsonToken jsonToken decodedToken.token decodedToken.token
      return .ok { decodedToken := some decodedToken }
  | .passThrough _ => do
      let jsonToken ← Stateful.ofExcept (jsonPayload P decodedToken)
      putTokens verifier jsonToken jsonToken decodedToken.token decodedToken.token
      return .ok { decodedToken := some decodedToken }
  | .sign _ aSettings => do
      match ← Stateful.ofExcept (aSettings.asAlgorithmF .output) with
      | none =>
          return .error { message := "error.bad.output.algorithm.name", sendEvent := sendEvent }
      | some outputAlgorithm => do
          let jsonToken ← Stateful.ofExcept (jsonPayload P decodedToken)
          let newToken ← Stateful.ofExcept (sign P jsonToken outputAlgorithm aSettings.keyId)
          putTokens verifier jsonToken jsonToken decodedToken.token decodedToken.token
          return .ok (verifier.source.asJwtInjection decodedToken newToken)
  | .transform _ tSettings aSettings => do
      match ← Stateful.ofExcept (aSettings.asAlgorithmF .output) with
      | none =>
          return .error { message := "error.bad.output.algorithm.name", sendEvent := sendEvent }
      | some outputAlgorithm => do
          let jsonToken ← Stateful.ofExcept (jsonPayload P decodedToken)
          let state ← Stateful.get
          let newJsonToken ← Stateful.ofExcept
            (transformToken P tSettings.mappingSettings state.attrs jsonToken)
          let newToken ← Stateful.ofExcept (sign P newJsonToken outputAlgorithm aSettings.keyId)
          putTokens verifier jsonToken newJsonToken decodedToken.token newToken
          return .ok
            (transformInjection verifier.source tSettings.location decodedToken newToken)

/-- With a token. -/
def presentAsync (rawToken : Str) : JwtRun Algorithm Verdict := do
  let token := stripBearer rawToken
  let (kid, alg) ← Stateful.ofExcept (tokenHeader P token)
  match ← Stateful.ofExcept (verifier.algoSettings.asAlgorithmF (.input alg kid)) with
  | none => return .error { message := "error.bad.input.algorithm.name" }
  | some algorithm => do
      match ← cachedVerification P verifier algorithm token with
      | none => return .error { message := "error.bad.token", sendEvent := sendEvent }
      | some decodedToken => verifier.acceptAsync P sendEvent decodedToken

def internalVerifyAsync : JwtRun Algorithm Verdict := do
  match ← Stateful.ofExcept (verifier.source.token P request) with
  | none => verifier.absentAsync P caller sendEvent
  | some rawToken => verifier.presentAsync P sendEvent rawToken

/-- The copy is chosen by the algorithms. -/
def internalVerify : JwtRun Algorithm Verdict :=
  if verifier.isAsync then verifier.internalVerifyAsync P request caller sendEvent
  else verifier.internalVerifySync P request caller sendEvent

end JwtVerifier

/-! ## Several verifiers -/

/-- A verifier that is named by the ids of others. `jwtVerifier` finds them. -/
structure RefJwtVerifier (Algorithm : Type) where
  ids : List Str := []
  jwtVerifier : Str → Option (JwtVerifier Algorithm)

namespace RefJwtVerifier

variable (refs : RefJwtVerifier Algorithm) (request : Credentials.RequestHeader) (requestId : Str)
  (caller : Caller)

/-- Where the refusal of a verifier is kept for the rest of the request. -/
def queueKey (ref : Str) : Str := requestId ++ "-".toList ++ ref ++ "-queue".toList

def putFailed (key : Str) (result : Rejection) : JwtRun Algorithm Unit :=
  Stateful.modify fun state => { state with
    verificationCache := state.verificationCache.insert key result }

def badVerifierId : Rejection where
  message := "error.bad.globaljwtverifier.id"
  status := 500

def missingVerifierId : Rejection where
  message := "error.missing.globaljwtverifier.id"
  status := 500

def isAsync : Bool := (refs.ids.filterMap refs.jwtVerifier).all JwtVerifier.isAsync

/-- `dequeueNext` of `verifyFromCacheSync`. -/
def dequeueNextSync : List Str → Verdict → JwtRun Algorithm Verdict
  | [], last => return last
  | ref :: rest, _ => do
      let state ← Stateful.get
      match state.verificationCache.lookup (queueKey requestId ref) with
      | some result => dequeueNextSync rest (.error result)
      | none =>
          match refs.jwtVerifier ref with
          | some verifier => do
              match ← verifier.internalVerifySync P request caller rest.isEmpty with
              | .error result => do
                  putFailed (queueKey requestId ref) result
                  if rest.isEmpty then return .error result
                  else dequeueNextSync rest (.error result)
              | .ok injection => return .ok injection
          | none => do
              putFailed (queueKey requestId ref) badVerifierId
              if rest.isEmpty then return .error badVerifierId
              else dequeueNextSync rest (.error badVerifierId)

def verifyFromCacheSync : JwtRun Algorithm Verdict :=
  if refs.ids.isEmpty then return .ok {}
  else refs.dequeueNextSync P request requestId caller refs.ids (.error missingVerifierId)

/-- `dequeueNext` of `verifyFromCache`. -/
def dequeueNext : List Str → Verdict → JwtRun Algorithm Verdict
  | [], last => return last
  | ref :: rest, _ => do
      let state ← Stateful.get
      match state.verificationCache.lookup (queueKey requestId ref) with
      | some result => dequeueNext rest (.error result)
      | none =>
          match refs.jwtVerifier ref with
          | some verifier => do
              match ← verifier.internalVerify P request caller rest.isEmpty with
              | .error result => do
                  putFailed (queueKey requestId ref) result
                  if rest.isEmpty then return .error result
                  else dequeueNext rest (.error result)
              | .ok injection => return .ok injection
          | none => do
              putFailed (queueKey requestId ref) badVerifierId
              if rest.isEmpty then return .error badVerifierId
              else dequeueNext rest (.error badVerifierId)

def verifyFromCache : JwtRun Algorithm Verdict :=
  if refs.ids.isEmpty then return .ok {}
  else refs.dequeueNext P request requestId caller refs.ids (.error missingVerifierId)

end RefJwtVerifier

end Jwt

end Otoroshi
