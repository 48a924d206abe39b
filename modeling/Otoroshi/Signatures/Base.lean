/-
# The text that is signed

The signature base has a line for each covered component, with the component and its value
in the message, and ends with the parameters of the signature. Values are parts of the
address, headers, or parameters of the query, of which only the last are decoded.

A component covers a thing once: a repeated one is an error, and so is a component that has
no value in the message.
-/

import Otoroshi.Signatures.Codec

namespace Otoroshi

open HttpSigStructuredFields

/-- `java.net.URI`, with `-1` for no port. -/
structure JavaUri where
  scheme : Option Str := none
  host : Option Str := none
  port : Int := -1
  rawPath : Option Str := none
  rawQuery : Option Str := none
  deriving DecidableEq

structure SigPlatform extends CharPlatform where
  toUpperCase : Str → Str
  /-- `Try(new URI(text)).toOption` -/
  parseUri : Str → Option JavaUri
  /-- `URLDecoder.decode`, with `none` where it throws -/
  urlDecode : Str → Option Str

structure HttpSigMessage where
  method : Str
  fullUri : Str
  headers : List (Str × Str) := []
  status : Option Int := none
  deriving DecidableEq

namespace HttpSigMessage

/-- All the values of a header, trimmed. -/
def header (P : CharPlatform) (msg : HttpSigMessage) (name : Str) : Option Str :=
  let found := (msg.headers.filter fun h => P.toLowerCase h.1 = P.toLowerCase name).map Prod.snd
  if found.isEmpty then none else some (List.intercalate ", ".toList (found.map trim))

end HttpSigMessage

namespace HttpSigStructuredFields.ComponentId

variable (cid : ComponentId)

def paramString (key : Str) : Option Str :=
  cid.params.findSome? fun param =>
    match param with
    | (k, .string v) => if k = key then some v else none
    | _ => none

def isReq : Bool := cid.params.any fun param => param.1 = "req".toList

def isBs : Bool := cid.params.any fun param => param.1 = "bs".toList

end HttpSigStructuredFields.ComponentId

namespace HttpSigBase

/-- `raw.getBytes(UTF_8)` -/
def utf8 (raw : Str) : List UInt8 := (String.ofList raw).toByteArray.data.toList

/-- A `Left` of the program, and the exception of the decoder that nobody catches. -/
inductive BuildError
  | left (message : Str)
  | undecodable (text : Str)
  deriving DecidableEq

variable (P : SigPlatform)

def urlDecode (s : Str) : Except BuildError Str :=
  match P.urlDecode s with
  | some decoded => .ok decoded
  | none => .error (.undecodable s)

def parsePair (pair : Str) : Except BuildError (Str × Str) := do
  if '=' ∈ pair then
    let key ← urlDecode P (pair.takeWhile (· != '='))
    let value ← urlDecode P ((pair.dropWhile (· != '=')).drop 1)
    pure (key, value)
  else
    let key ← urlDecode P pair
    pure (key, [])

def parseQuery (raw : Str) : Except BuildError (List (Str × Str)) :=
  ((split '&' raw).filter fun pair => !pair.isEmpty).mapM (parsePair P)

/-- The value, or the error if there is none. -/
def orLeft (value : Option Str) (message : Str) : Except BuildError Str :=
  match value with
  | some v => .ok v
  | none => .error (.left message)

section Components

variable (target : HttpSigMessage)

def authority : Except BuildError Str :=
  orLeft ((P.parseUri target.fullUri).bind fun uri => uri.host.map fun host =>
      let scheme := P.toLowerCase (uri.scheme.getD [])
      let defaultPort := (scheme = "https".toList ∧ uri.port = 443) ∨
        (scheme = "http".toList ∧ uri.port = 80)
      if uri.port < 0 ∨ defaultPort then P.toLowerCase host
      else P.toLowerCase host ++ ':' :: longText uri.port)
    "@authority cannot be derived from target URI".toList

def scheme : Except BuildError Str :=
  orLeft (((P.parseUri target.fullUri).bind JavaUri.scheme).map P.toLowerCase)
    "@scheme cannot be derived".toList

/-- `Option(u.getRawPath).filter(_.nonEmpty).getOrElse("/")` -/
def rawPath (uri : JavaUri) : Str := (uri.rawPath.filter fun p => !p.isEmpty).getD "/".toList

def requestTarget : Except BuildError Str :=
  orLeft ((P.parseUri target.fullUri).map fun uri =>
      rawPath uri ++ (uri.rawQuery.map ('?' :: ·)).getD [])
    "@request-target cannot be derived".toList

def path : Except BuildError Str :=
  orLeft ((P.parseUri target.fullUri).map rawPath) "@path cannot be derived".toList

def query : Except BuildError Str :=
  orLeft ((P.parseUri target.fullUri).map fun uri => (uri.rawQuery.map ('?' :: ·)).getD "?".toList)
    "@query cannot be derived".toList

def queryParam (cid : ComponentId) : Except BuildError Str :=
  match cid.paramString "name".toList with
  | none => .error (.left "@query-param requires a ;name parameter".toList)
  | some name =>
      match (P.parseUri target.fullUri).bind JavaUri.rawQuery with
      | none =>
          .error (.left ("@query-param;name=".toList ++ name ++ ": no query string".toList))
      | some qs => do
          let pairs ← parseQuery P qs
          match pairs.find? fun pair => pair.1 = name with
          | none => .error (.left ("@query-param;name=".toList ++ name ++ ": not present".toList))
          | some pair => pure pair.2

def status : Except BuildError Str :=
  orLeft (target.status.map longText)
    "@status component referenced on a message without a status code".toList

/-- The value of a header. With `bs` it is wrapped byte by byte. -/
def headerValue (cid : ComponentId) : Except BuildError Str := do
  let name := P.toLowerCase (cid.name P.toCharPlatform)
  let raw ← orLeft (target.header P.toCharPlatform name)
    ("missing header for signed component: ".toList ++ name)
  if cid.isBs then pure (':' :: (Base64.encode (utf8 raw) ++ [':'])) else pure raw

/-- The value of a component in the message it is about. -/
def targetValue (cid : ComponentId) : Except BuildError Str :=
  let name := cid.name P.toCharPlatform
  if name = "@method".toList then pure (P.toUpperCase target.method)
  else if name = "@target-uri".toList then pure target.fullUri
  else if name = "@authority".toList then authority P target
  else if name = "@scheme".toList then scheme P target
  else if name = "@request-target".toList then requestTarget P target
  else if name = "@path".toList then path P target
  else if name = "@query".toList then query P target
  else if name = "@query-param".toList then queryParam P target cid
  else if name = "@status".toList then status target
  else if startsWith name "@".toList then
    .error (.left ("unknown derived component: ".toList ++ name))
  else headerValue P target cid

end Components

def componentValue (msg : HttpSigMessage) (related : Option HttpSigMessage) (cid : ComponentId) :
    Except BuildError Str :=
  if cid.isReq then
    match related with
    | some r => targetValue P r cid
    | none => .error (.left ("component ".toList ++ cid.serialize P.toCharPlatform ++
        " is marked ;req but no related request is available".toList))
  else targetValue P msg cid

/-- The lines of the components that are left, after those with these ids. -/
def buildLines (msg : HttpSigMessage) (related : Option HttpSigMessage) :
    List Str → List ComponentId → Except BuildError Str
  | _, [] => pure []
  | seenIds, cid :: cids => do
      let canonicalId := cid.serialize P.toCharPlatform
      if canonicalId ∈ seenIds then
        .error (.left ("duplicate component identifier: ".toList ++ canonicalId))
      else
        let v ← componentValue P msg related cid
        let lines ← buildLines msg related (canonicalId :: seenIds) cids
        pure (canonicalId ++ ": ".toList ++ v ++ '\n' :: lines)

def build (msg : HttpSigMessage) (input : SignatureInputValue)
    (related : Option HttpSigMessage) : Except BuildError Str := do
  let lines ← buildLines P msg related [] input.components
  pure (lines ++ "\"@signature-params\": ".toList ++ input.serialize P.toCharPlatform)

end HttpSigBase

end Otoroshi
