/-
# Signatures of requests

A request comes with signatures, each with a label, the components that it covers and its
parameters. The plugin tries the signatures in order, and for each of them the keys that can be
meant, and lets the request through with the first signature that holds. Before the keys come the
checks of the configuration.

A `Left` of the program leads to the next key or the next signature. Some things throw: an inline
secret that cannot be decoded does, and then nothing else is tried.
-/

import Mathlib.Data.List.Infix
import Otoroshi.Foundation.Attempts
import Otoroshi.Signatures.Base

namespace Otoroshi

open HttpSigStructuredFields

/-- What the platform does for the verification. `K` are public keys and `J` the keys of a
JWKS. The keys of certificates come from the state of the proxy, and `Left` for an address of a
JWKS is what `fetchJwks` makes of an error. -/
structure SigEnv (K J : Type) extends SigPlatform where
  equalsIgnoreCase : Str → Str → Bool
  isWhitespace : Char → Bool
  /-- `Integer.parseInt(text, 16)`, with `none` where it throws -/
  parseHex : Str → Option Int
  /-- `Base64.getUrlDecoder.decode`, with `none` where it throws -/
  decodeUrl : Str → Option (List UInt8)
  /-- `getMessage` of the exceptions of the platform -/
  messageOf : ParseError → Str
  /-- `proxyState.certificate`, with its public key -/
  certificate : Str → Option (Except Str K)
  parsePemPublic : Str → Except Str K
  fetchJwks : Str → Except (Refusal Str) (Str → Option J)
  jwkToPublicKey : J → Str → Except Str K
  /-- `HttpSigAlgorithms.verify`, for an algorithm, the text, the signature and a key -/
  verify : Str → List UInt8 → List UInt8 → List UInt8 ⊕ K → Except Str Unit

variable {K J : Type}

/-! ## Parameters of a signature -/

namespace HttpSigStructuredFields

def ParseError.getMessage (P : SigEnv K J) : ParseError → Str
  | .illegalArgument message => message
  | e => P.messageOf e

namespace SignatureInputValue

variable (value : SignatureInputValue)

def intParam (key : Str) : Option Long :=
  value.params.findSome? fun param =>
    match param with
    | (k, .int v) => if k = key then some v else none
    | _ => none

def stringParam (key : Str) : Option Str :=
  value.params.findSome? fun param =>
    match param with
    | (k, .string v) => if k = key then some v else none
    | _ => none

def created : Option Long := value.intParam "created".toList

def expires : Option Long := value.intParam "expires".toList

def keyid : Option Str := value.stringParam "keyid".toList

def alg : Option Str := value.stringParam "alg".toList

end SignatureInputValue

end HttpSigStructuredFields

/-! ## Keys -/

inductive HttpSigKeySource where
  | certRef (certId : Str) (keyid alg : Option Str)
  | inline (secretOrPem : Str) (keyid alg : Option Str)
  | jwks (url : Str) (keyid alg : Option Str)
  deriving DecidableEq

namespace HttpSigKeySource

def keyid : HttpSigKeySource → Option Str
  | certRef _ keyid _ | inline _ keyid _ | jwks _ keyid _ => keyid

def alg : HttpSigKeySource → Option Str
  | certRef _ _ alg | inline _ _ alg | jwks _ _ alg => alg

end HttpSigKeySource

namespace Refusal

def ofText {α : Type} (message : String) : Except (Refusal Str) α :=
  .error (.left message.toList)

/-- An `Either` of the program, which is no exception. -/
def ofEither {α : Type} : Except Str α → Except (Refusal Str) α
  | .ok value => .ok value
  | .error message => .error (.left message)

end Refusal

namespace HttpSigAlgorithms

def hmac256 : Str := "hmac-sha256".toList

def all : List Str :=
  ["hmac-sha256", "rsa-pss-sha512", "rsa-v1_5-sha256", "ecdsa-p256-sha256", "ecdsa-p384-sha384",
    "ed25519"].map String.toList

def isHmac (alg : Str) : Bool := alg = hmac256

end HttpSigAlgorithms

namespace HttpSigKeyResolver

open HttpSigAlgorithms

variable (P : SigEnv K J)

/-- The bytes of pairs of digits. -/
def hexPairs : Str → Option (List UInt8)
  | [] => some []
  | [_] => none
  | a :: b :: rest => do
      let byte ← P.parseHex [a, b]
      let bytes ← hexPairs rest
      some (UInt8.ofInt byte :: bytes)

def hexDecode (s : Str) : Option (List UInt8) :=
  hexPairs P (s.filter fun c => !P.isWhitespace c)

/-- `none` where the decoder throws. -/
def decodeSecret (s : Str) : Option (List UInt8) :=
  if startsWith s "base64:".toList then Base64.decode (s.drop 7)
  else if startsWith s "base64url:".toList then P.decodeUrl (s.drop 10)
  else if startsWith s "hex:".toList then hexDecode P (s.drop 4)
  else some (HttpSigBase.utf8 s)

/-- Public key lookup for verification: a secret, or a public key. -/
def publicKey (source : HttpSigKeySource) (alg : Str) (kid : Option Str) :
    Except (Refusal Str) (List UInt8 ⊕ K) :=
  match source with
  | .certRef certId _ _ =>
      match P.certificate certId with
      | none => .error (.left ("unknown cert id '".toList ++ certId ++ "'".toList))
      | some cert =>
          if isHmac alg then Refusal.ofText "HMAC requires an inline secret, not a certificate"
          else
            match cert with
            | .error e => .error (.left ("cannot read public key from cert ".toList ++ certId ++
                ": ".toList ++ e))
            | .ok key => .ok (.inr key)
  | .inline secretOrPem _ _ =>
      if isHmac alg ∧ "-----BEGIN".toList <:+: secretOrPem then
        Refusal.ofText "HMAC requires an inline secret, not a pem key"
      else if isHmac alg then
        match decodeSecret P secretOrPem with
        | some secret => .ok (.inl secret)
        | none => .error .thrown
      else Refusal.ofEither ((P.parsePemPublic secretOrPem).map .inr)
  | .jwks url _ _ =>
      if isHmac alg then Refusal.ofText "HMAC keys cannot be served via JWKS"
      else do
        let keys ← P.fetchJwks url
        match kid with
        | none => Refusal.ofText "JWKS lookup requires a keyid"
        | some kid =>
            match keys kid with
            | none => .error (.left ("no JWK with kid '".toList ++ kid ++ "' at ".toList ++ url))
            | some jwk => Refusal.ofEither ((P.jwkToPublicKey jwk alg).map .inr)

end HttpSigKeyResolver

/-! ## The plugin -/

structure HttpSignatureVerifyRequestConfig where
  keys : List HttpSigKeySource := []
  requiredComponents : List Str := ["@method".toList, "@target-uri".toList]
  allowedAlgorithms : List Str := HttpSigAlgorithms.all
  requireKeyid : Bool := true
  maxAgeSeconds : Option Long := some ⟨300, rfl⟩
  clockSkewSeconds : Long := ⟨30, rfl⟩
  label : Option Str := none
  mandatory : Bool := false

structure SigRequest where
  method : Str
  theProtocol : Str
  theHost : Str
  relativeUri : Str
  headers : List (Str × Str)

/-- Headers are found by their names, so it does not matter that the program groups them. -/
def HttpSigMessage.fromRequest (req : SigRequest) : HttpSigMessage where
  method := req.method
  fullUri := req.theProtocol ++ "://".toList ++ req.theHost ++ req.relativeUri
  headers := req.headers

inductive NgAccess where
  | allowed
  | denied (status : Nat) (details : Str)
  deriving DecidableEq

namespace HttpSignatureVerifyRequest

variable (P : SigEnv K J) (config : HttpSignatureVerifyRequestConfig) (now : Long)

/-- `s"signature '$label' ..."` -/
def about {α : Type} (label : Str) (what : Str) : Except (Refusal Str) α :=
  .error (.left ("signature '".toList ++ label ++ "' ".toList ++ what))

section One

variable (label : Str) (input : SignatureInputValue)

def coveredNames : List Str := input.components.map (·.name P.toCharPlatform)

def declaredAlg : Option Str := input.alg.map P.toLowerCase

def checkCovered : Except (Refusal Str) Unit :=
  let missing := (config.requiredComponents.map P.toLowerCase).filter
    fun rc => !(coveredNames P input).contains rc
  if missing.isEmpty then pure ()
  else about label ("does not cover required components: ".toList ++
    List.intercalate ", ".toList missing)

def checkDeclared : Except (Refusal Str) Unit :=
  match declaredAlg P input with
  | some a =>
      if config.allowedAlgorithms.contains a then pure ()
      else about label ("uses disallowed algorithm '".toList ++ a ++ "'".toList)
  | none => pure ()

def checkCreated : Except (Refusal Str) Unit :=
  match input.created with
  | some c =>
      if c.1 < 0 then about label "has a negative created timestamp".toList
      else if wrapLong (c.1 - config.clockSkewSeconds.1) > now.1 then
        about label "created in the future".toList
      else
        match config.maxAgeSeconds with
        | some raw =>
            let maxAge := max 0 raw.1
            if wrapLong (now.1 - c.1) > wrapLong (maxAge + config.clockSkewSeconds.1) then
              about label ("is older than ".toList ++ longText maxAge ++ " seconds".toList)
            else pure ()
        | none => pure ()
  | none =>
      if config.maxAgeSeconds.isSome then
        about label "has no created timestamp, required by the max age".toList
      else pure ()

def checkExpires : Except (Refusal Str) Unit :=
  match input.expires with
  | some e =>
      if now.1 > wrapLong (e.1 + config.clockSkewSeconds.1) then about label "has expired".toList
      else pure ()
  | none => pure ()

def checkKeyid : Except (Refusal Str) Unit :=
  if config.requireKeyid ∧ input.keyid.isNone then about label "has no keyid".toList else pure ()

/-- `sigs.toMap.get(label)`: of several signatures with one label the last one counts. -/
def signatureBytes (sigs : List (Str × List UInt8)) : Except (Refusal Str) (List UInt8) :=
  match sigs.reverse.lookup label with
  | none => .error (.left ("signature dict is missing label '".toList ++ label ++ "'".toList))
  | some b => pure b

/-- Keys with the id of the signature, and only if there are none those without an id. -/
def keysForKid (keyid : Option Str) : List HttpSigKeySource :=
  match keyid with
  | none => config.keys
  | some k =>
      let explicit := config.keys.filter fun key => key.keyid == some k
      if explicit.isEmpty then config.keys.filter fun key => key.keyid.isNone else explicit

def selectKeys : Except (Refusal Str) (List HttpSigKeySource) :=
  if (keysForKid config input.keyid).isEmpty then
    .error (.left ("no key configured for keyid '".toList ++ input.keyid.getD [] ++ "'".toList))
  else pure (keysForKid config input.keyid)

def buildBase (msg : HttpSigMessage) : Except (Refusal Str) Str :=
  match HttpSigBase.build P.toSigPlatform msg input none with
  | .ok base => pure base
  | .error (.left err) =>
      .error (.left ("signature '".toList ++ label ++ "': cannot build base — ".toList ++ err))
  | .error (.undecodable _) => .error .thrown

/-- The algorithm of the key wins over the one of the signature, which must not be another. -/
def resolvedAlg (head : HttpSigKeySource) : Except (Refusal Str) Str :=
  match head.alg, declaredAlg P input with
  | some keyAlg, some sigAlg =>
      if P.equalsIgnoreCase keyAlg sigAlg then pure keyAlg
      else about label ("alg=".toList ++ sigAlg ++ " does not match key '".toList ++
        head.keyid.getD [] ++ "' alg=".toList ++ keyAlg)
  | some keyAlg, none => pure keyAlg
  | none, some sigAlg => pure sigAlg
  | none, none =>
      about label "has no alg parameter and the configured key does not declare one".toList

/-- The body of the loop over the keys. -/
def tryKey (baseBytes sigBytes : List UInt8) (head : HttpSigKeySource) :
    Except (Refusal Str) Bool := do
  let alg ← resolvedAlg P label input head
  if config.allowedAlgorithms.contains alg then
    let keyMat ← HttpSigKeyResolver.publicKey P head alg input.keyid
    Refusal.ofEither (P.verify alg baseBytes sigBytes keyMat)
    pure ((coveredNames P input).contains "content-digest".toList)
  else .error (.left ("algorithm '".toList ++ alg ++ "' not in allowed_algorithms".toList))

/-- The result says whether the signature covers the digest of the body. -/
def verifyOne (msg : HttpSigMessage) (sigs : List (Str × List UInt8)) :
    Except (Refusal Str) Bool := do
  checkCovered P config label input
  checkDeclared P config label input
  checkCreated config now label input
  checkExpires config now label input
  checkKeyid config label input
  let sigBytes ← signatureBytes label sigs
  let keys ← selectKeys config input
  let base ← buildBase P label input msg
  firstOk (tryKey P config label input (HttpSigBase.utf8 base) sigBytes) keys
    "no matching key verified signature".toList

end One

def tryVerifyOne (msg : HttpSigMessage) (candidates : List (Str × SignatureInputValue))
    (sigs : List (Str × List UInt8)) : Except (Refusal Str) Bool :=
  firstOk (fun candidate => verifyOne P config now candidate.1 candidate.2 msg sigs) candidates
    "no candidate signature verified".toList

def joinHeader (values : List Str) : Option Str :=
  if values.isEmpty then none else some (List.intercalate ", ".toList values)

/-- `headers.getAll` -/
def getAll (request : SigRequest) (name : Str) : List Str :=
  (request.headers.filter fun header => P.equalsIgnoreCase header.1 name).map Prod.snd

def candidatesFor (inputs : List (Str × SignatureInputValue)) :
    List (Str × SignatureInputValue) :=
  match config.label with
  | some l => inputs.filter fun candidate => candidate.1 == l
  | none => inputs

/-- What both headers say. -/
def parsed (sigInputRaw sigRaw : Str) :
    Except ParseError (List (Str × SignatureInputValue) × List (Str × List UInt8)) := do
  let inputs ← parseSignatureInputDict P.toCharPlatform sigInputRaw
  let sigs ← parseSignatureDict P.toCharPlatform sigRaw
  pure (inputs, sigs)

/-- Whether the request is let through, and whether the digest of its body is to be checked
later. There is no result if something throws. -/
def access (request : SigRequest) : Option (NgAccess × Bool) :=
  match joinHeader (getAll P request "Signature-Input".toList),
      joinHeader (getAll P request "Signature".toList) with
  | some sigInputRaw, some sigRaw =>
      match parsed P sigInputRaw sigRaw with
      | .error err =>
          some (.denied 400 ("malformed signature headers: ".toList ++ err.getMessage P), false)
      | .ok (inputs, sigs) =>
          let candidates := candidatesFor config inputs
          if candidates.isEmpty then
            some (.denied 400 ("no signature with label '".toList ++
              config.label.getD "*".toList ++ "'".toList), false)
          else
            match tryVerifyOne P config now (.fromRequest request) candidates sigs with
            | .ok coveredDigest => some (.allowed, coveredDigest)
            | .error (.left err) => some (.denied 401 err, false)
            | .error .thrown => none
  | _, _ =>
      if config.mandatory then
        some (.denied 401 "missing Signature-Input or Signature header".toList, false)
      else some (.allowed, false)

end HttpSignatureVerifyRequest

end Otoroshi
