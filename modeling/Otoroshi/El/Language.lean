/-
# The expression language

A value may have expressions between `${` and `}`. An expression is looked up in five parts of a
match, of which each case is a fixed text, the beginning of one, or a pattern with groups. What is
not found is written as a text that begins with `no-`, or as `bad-expr` where no case takes the
expression. An exception leaves the whole value as it was.

A chain has several expressions with `||` between them, and may end with a default behind `::`. Its
expressions are evaluated by the same function, each as a value of its own.

The clock and its formats are left out: what a date gives is a parameter (`dates`), as are the values
behind fixed texts (`fixed`).
-/

import Otoroshi.Foundation.Captures
import Otoroshi.Foundation.Json
import Otoroshi.Foundation.Splitting
import Otoroshi.Utils.Placeholders

namespace Otoroshi

/-- What the language uses of its platform. -/
structure ElPlatform where
  /-- `String.toInt`, with `none` where it throws -/
  toInt : Str → Option Int
  /-- the text of a number, a boolean, an array or an object -/
  stringify : JsValue → Str
  replace : Str → Str → Str → Str
  /-- with `none` where it throws -/
  replaceAll : Str → Str → Str → Option Str

/-- What an expression was found to be. -/
inductive Found
  | value (text : Str)
  | absent (what : Str)
  | thrown

/-- What a lookup gives, with an error where it throws. -/
abbrev Looked := Except Unit (Option Str)

structure ElService where
  groups : List Str := []
  metadata : Str → Option Str := fun _ => none

structure ElRoute where
  domains : List Str := []
  metadata : Str → Option Str := fun _ => none

structure ElRequest where
  headers : Str → Option Str := fun _ => none
  query : Str → Option Str := fun _ => none
  cookies : Str → Option Str := fun _ => none

structure ElApiKey where
  metadata : List (Str × Str) := []
  tags : List Str := []

structure ElUser where
  token : JsValue := .null
  otoroshiData : Option JsValue := none
  profile : JsValue := .null

/-- What an expression can see. -/
structure ElWorld where
  context : Str → Option Str := fun _ => none
  service : Option ElService := none
  route : Option ElRoute := none
  req : Option ElRequest := none
  pathParams : Option (Str → Option Str) := none
  apiKey : Option ElApiKey := none
  user : Option ElUser := none
  inputJwtToken : Option JsValue := none
  outputJwtToken : Option JsValue := none
  /-- what a path, a pointer or a name finds in the token of the api key -/
  apiKeyJwt : Str → Looked := fun _ => .ok none
  userAgent : Option (Str → Option Str) := none
  geolocation : Option (Str → Option Str) := none
  allowEnvAccess : Bool := false
  getenv : Str → Option Str := fun _ => none
  allowConfigAccess : Bool := false
  config : Str → Looked := fun _ => .ok none
  allowGlobalConfigAccess : Bool := false
  globalMetadata : Str → Option Str := fun _ => none
  globalEnv : Str → Looked := fun _ => .ok none
  vault : Str → Found := fun _ => .thrown
  /-- the cases of a fixed text, with `none` where the guard fails -/
  fixed : Str → Option Found := fun _ => none
  dates : Str → Option Found := fun _ => none

namespace GlobalExpressionLanguage

open Captures

/-- A platform that reads no number and replaces nothing. -/
def plainPlatform : ElPlatform := ⟨fun _ => none, fun _ => [], fun v _ _ => v, fun v _ _ => some v⟩

variable (P : ElPlatform)

/-! ## Lookups -/

/-- `getOrElse(dv)` -/
def orDefault (looked : Looked) (dv : Str) : Found :=
  match looked with
  | .ok found => .value (found.getD dv)
  | .error _ => .thrown

def orAbsent (looked : Looked) (what : Str) : Found :=
  match looked with
  | .ok (some value) => .value value
  | .ok none => .absent what
  | .error _ => .thrown

/-- `jsValueToString` -/
def jsValueToString : JsValue → Str
  | .string value => value
  | json => P.stringify json

/-- `lift` -/
def lift {α : Type} (items : List α) (idx : Int) : Option α :=
  if 0 ≤ idx then items[idx.toNat]? else none

/-- `json \ name` -/
def selectField (name : Str) : JsValue → Option JsValue
  | .object fields => fields.lookup name
  | _ => none

/-- One step of `at`. -/
def atStep : Option JsValue → Str → Except Unit (Option JsValue)
  | some (.object fields), part => .ok (fields.lookup part)
  | some (.array items), part =>
      match P.toInt part with
      | some idx => .ok (lift items idx)
      | none => .error ()
  | _, _ => .ok none

/-- `at` -/
def jsonAt (path : Str) (json : JsValue) : Except Unit (Option JsValue) :=
  (split '.' path).foldlM (atStep P) (some json)

def lookAt (path : Str) (json : JsValue) : Looked :=
  (jsonAt P path json).map fun found => found.map (jsValueToString P)

/-- A name with dots is a path. -/
def lookJwt (field : Str) (token : Option JsValue) : Looked :=
  match token with
  | none => .ok none
  | some json =>
      if '.' ∈ field then lookAt P field json
      else .ok ((selectField field json).map (jsValueToString P))

/-- `user.token.select(field).asOpt[String]` -/
def lookToken (w : ElWorld) (field : Str) : Option Str :=
  (w.user.bind fun user => selectField field user.token).bind fun json =>
    (Reads.string json).toOption

def lookOptional (json : Option JsValue) (field : Str) : Looked :=
  match json with
  | none => .ok none
  | some json => lookAt P field json

def userData (w : ElWorld) : Option JsValue := w.user.bind (·.otoroshiData)

/-- The data of the user, or the metadata of the api key. -/
def consumerData (w : ElWorld) : Option JsValue :=
  (userData w).or (w.apiKey.map fun apiKey =>
    .object (apiKey.metadata.map fun entry => (entry.1, .string entry.2)))

/-! ## Cases -/

inductive ElPattern
  | fixed (texts : List Str)
  | beginning (text : Str)
  | groups (items : List Item)

/-- What a case captures of an expression. -/
def ElPattern.captures : ElPattern → Str → Option (List Str)
  | fixed texts, expr => if expr ∈ texts then some [expr] else none
  | beginning text, expr => if startsWith expr text then some [expr] else none
  | groups items, expr => unapply items expr

structure ElCase where
  pattern : ElPattern
  /-- with `none` where the guard fails -/
  run : ElWorld → List Str → Option Found

/-- The items of a pattern `r"..."`, all of whose groups are `(.*)`. -/
def parse : Bool → Str → List Item
  | _, [] => []
  | true, c :: source => parse (c != ')') source
  | false, '$' :: source => .group :: parse true source
  | false, '\\' :: c :: source => .char c :: parse false source
  | false, '.' :: source => .any :: parse false source
  | false, c :: source => .char c :: parse false source

def items (source : String) : List Item := parse false source.toList

def fixed (texts : List String) : ElCase :=
  ⟨.fixed (texts.map String.toList), fun w captures => captures.head?.bind w.fixed⟩

def dates (text : String) : ElCase :=
  ⟨.beginning text.toList, fun w captures => captures.head?.bind w.dates⟩

/-- A case with one group. -/
def case1 (source : String) (run : ElWorld → Str → Option Found) : ElCase :=
  ⟨.groups (items source), fun w captures =>
    match captures with
    | [field] => run w field
    | _ => none⟩

/-- A case with two groups. -/
def case2 (source : String) (run : ElWorld → Str → Str → Option Found) : ElCase :=
  ⟨.groups (items source), fun w captures =>
    match captures with
    | [field, dv] => run w field dv
    | _ => none⟩

/-- A case with three groups. -/
def case3 (source : String) (run : ElWorld → Str → Str → Str → Option Found) : ElCase :=
  ⟨.groups (items source), fun w captures =>
    match captures with
    | [field, a, b] => run w field a b
    | _ => none⟩

/-- `case r"...$field@(.*):$dv@(.*)" => lookup.getOrElse(dv)` -/
def withDefault (source : String) (guard : ElWorld → Bool) (look : ElWorld → Str → Looked) :
    ElCase :=
  case2 source fun w field dv => if guard w then some (orDefault (look w field) dv) else none

/-- `case r"...$field@(.*)" if guard => lookup.getOrElse(s"no-...$field")` -/
def withoutDefault (source : String) (guard : ElWorld → Bool) (look : ElWorld → Str → Looked)
    (what : String) : ElCase :=
  case1 source fun w field =>
    if guard w then some (orAbsent (look w field) (what.toList ++ field)) else none

/-- The two cases of a list: an index that is no number throws where there is a list, and one out of
range throws where there is no default. -/
def indexed (start : String) (list : ElWorld → Option (List Str)) : List ElCase := [
  case2 (start ++ "\\['$field@(.*)':'$dv@(.*)'\\]") fun w field dv =>
    some (match list w with
      | none => .value dv
      | some items =>
          match P.toInt field with
          | some idx => .value ((lift items idx).getD dv)
          | none => .thrown),
  case1 (start ++ "\\['$field@(.*)'\\]") fun w field =>
    (list w).map fun items =>
      match (P.toInt field).bind (lift items) with
      | some value => .value value
      | none => .thrown]

/-- The cases of the context under the names `token` and `ctx`, up to the one with a default. -/
def contextual (name : String) : List ElCase := [
  case3 (name ++ ".$field@(.*).replace\\('$a@(.*)', '$b@(.*)'\\)") fun w field a b =>
    some (orAbsent (.ok ((w.context field).map fun v => P.replace v a b)) (name.toList ++ '-' :: field)),
  case3 (name ++ ".$field@(.*).replace\\('$a@(.*)','$b@(.*)'\\)") fun w field a b =>
    some (orAbsent (.ok ((w.context field).map fun v => P.replace v a b)) (name.toList ++ '-' :: field)),
  case3 (name ++ ".$field@(.*).replaceAll\\('$a@(.*)','$b@(.*)'\\)") fun w field a b =>
    some (match w.context field with
      | none => .absent (name.toList ++ '-' :: field)
      | some v => ((P.replaceAll v a b).map Found.value).getD .thrown),
  case3 (name ++ ".$field@(.*)\\|" ++ name ++ ".$field2@(.*):$dv@(.*)") fun w field field2 dv =>
    some (.value (((w.context field).or (w.context field2)).getD dv)),
  case2 (name ++ ".$field@(.*)\\|" ++ name ++ ".$field2@(.*)") fun w field field2 =>
    some (orAbsent (.ok ((w.context field).or (w.context field2)))
      (name.toList ++ '-' :: field ++ '-' :: field2)),
  withDefault (name ++ ".$field@(.*):$dv@(.*)") (fun _ => true) fun w field =>
    .ok (w.context field)]

def always (_ : ElWorld) : Bool := true

def part1 : List ElCase := [
  case1 "item.$field@(.*)" fun w field =>
    some (orAbsent (.ok (w.context ("item.".toList ++ field))) ("item-".toList ++ field)),
  case1 "params.$field@(.*)" fun w field =>
    some (orAbsent (.ok (w.context ("params.".toList ++ field))) ("params-".toList ++ field)),
  dates "date"]

def part2 : List ElCase := [dates "date_el(", dates "now"]

def part3 : List ElCase := [
  fixed ["service.domain", "service.subdomain", "service.tld", "service.env"]] ++
  indexed P "service.groups" (fun w => w.service.map (·.groups)) ++ [
  fixed ["service.id", "service.name"],
  withDefault "service.metadata.$field@(.*):$dv@(.*)" always fun w field =>
    .ok (w.service.bind (·.metadata field)),
  withoutDefault "service.metadata.$field@(.*)" (·.service.isSome) (fun w field =>
    .ok (w.service.bind (·.metadata field))) "meta-"] ++
  indexed P "route.domains" (fun w => w.route.map (·.domains)) ++ [
  fixed ["route.id", "route.name", "route.json.pretty", "route.json"],
  withDefault "route.metadata.$field@(.*):$dv@(.*)" always fun w field =>
    .ok (w.route.bind (·.metadata field)),
  withoutDefault "route.metadata.$field@(.*)" (·.route.isSome) (fun w field =>
    .ok (w.route.bind (·.metadata field))) "meta-",
  fixed ["req.fullUrl", "req.listener", "req.id", "req.path", "req.uri", "req.host", "req.domain",
    "req.method", "req.protocol", "req.ip", "req.ip_address", "req.ip_safe", "req.ip_from_socket",
    "req.ip_from_trusted_proxy", "req.ip_from_xff", "req.ip_from_xforwarded_header", "req.secured",
    "req.version"],
  withDefault "req.headers.$field@(.*):$defaultValue@(.*)" always fun w field =>
    .ok (w.req.bind (·.headers field)),
  withoutDefault "req.headers.$field@(.*)" (·.req.isSome) (fun w field =>
    .ok (w.req.bind (·.headers field))) "header-",
  withDefault "req.query.$field@(.*):$defaultValue@(.*)" always fun w field =>
    .ok (w.req.bind (·.query field)),
  withoutDefault "req.query.$field@(.*)" (·.req.isSome) (fun w field =>
    .ok (w.req.bind (·.query field))) "query-",
  withDefault "req.cookies.$field@(.*):$defaultValue@(.*)" always fun w field =>
    .ok (w.req.bind (·.cookies field)),
  withoutDefault "req.cookies.$field@(.*)" (·.req.isSome) (fun w field =>
    .ok (w.req.bind (·.cookies field))) "query-",
  withDefault "req.pathparams.$field@(.*):$defaultValue@(.*)" always fun w field =>
    .ok (w.pathParams.bind (· field)),
  withoutDefault "req.pathparams.$field@(.*)" (·.pathParams.isSome) (fun w field =>
    .ok (w.pathParams.bind (· field))) "path-param-"]

def part4 : List ElCase := [
  fixed ["apikey.name", "apikey.id", "apikey.clientId", "apikey.json.pretty", "apikey.json",
    "apikey.api.id", "apikey.api.plan", "apikey.api.sub"],
  withDefault "apikey.metadata.$field@(.*):$dv@(.*)" always fun w field =>
    .ok (w.apiKey.bind (·.metadata.lookup field)),
  withoutDefault "apikey.metadata.$field@(.*)" (·.apiKey.isSome) (fun w field =>
    .ok (w.apiKey.bind (·.metadata.lookup field))) "meta-"] ++
  indexed P "apikey.tags" (fun w => w.apiKey.map (·.tags)) ++ [
  -- dots that are written as dots are any characters here
  ⟨.groups (items "apikey.json.pretty"), fun w _ => w.fixed "apikey.json.pretty".toList⟩,
  ⟨.groups (items "apikey.json"), fun w _ => w.fixed "apikey.json".toList⟩] ++
  contextual P "token" ++ [
  withoutDefault "token.$field@(.*)" always (fun w field => .ok (w.context field)) "token-",
  withDefault "in_jwt.$field@(.*):$dv@(.*)" always fun w field => lookJwt P field w.inputJwtToken,
  withoutDefault "in_jwt.$field@(.*)" (·.inputJwtToken.isSome) (fun w field =>
    lookJwt P field w.inputJwtToken) "jwt-",
  withDefault "out_jwt.$field@(.*):$dv@(.*)" always fun w field => lookJwt P field w.outputJwtToken,
  withoutDefault "out_jwt.$field@(.*)" (·.outputJwtToken.isSome) (fun w field =>
    lookJwt P field w.outputJwtToken) "jwt-",
  fixed ["in_raw_jwt", "out_raw_jwt"],
  withoutDefault "apikeyjwt.$field@(.*)" always (fun w field => w.apiKeyJwt field) "path-at-",
  withDefault "env.$field@(.*):$dv@(.*)" (·.allowEnvAccess) fun w field => .ok (w.getenv field),
  withoutDefault "env.$field@(.*)" (·.allowEnvAccess) (fun w field => .ok (w.getenv field))
    "env-var-",
  withDefault "config.$field@(.*):$dv@(.*)" (·.allowConfigAccess) fun w field => w.config field,
  withoutDefault "config.$field@(.*)" (·.allowConfigAccess) (fun w field => w.config field)
    "config-"]

def part5 : List ElCase := contextual P "ctx" ++ [
  withoutDefault "ctx.useragent.$field@(.*)" (·.userAgent.isSome) (fun w field =>
    .ok (w.userAgent.bind (· field))) "ctx-",
  withoutDefault "ctx.geolocation.$field@(.*)" (·.geolocation.isSome) (fun w field =>
    .ok (w.geolocation.bind (· field))) "ctx-",
  withoutDefault "ctx.$field@(.*)" always (fun w field => .ok (w.context field)) "ctx-",
  case1 "vault://$path@(.*)" fun w path => some (w.vault path),
  withoutDefault "global_config.metadata.$name@(.*)" (·.allowGlobalConfigAccess) (fun w name =>
    .ok (w.globalMetadata name)) "metadata-",
  withoutDefault "global_config.env.$path@(.*)" (·.allowGlobalConfigAccess) (fun w path =>
    w.globalEnv path) "global-env-at-",
  fixed ["user.name", "user.email", "user.json.pretty", "user.json", "user.tokens.id_token",
    "user.tokens.access_token", "user.tokens.refresh_token", "user.tokens.token_type",
    "user.tokens.expires_in"],
  withDefault "user.tokens.$field@(.*):$dv@(.*)" always fun w field => .ok (lookToken w field),
  withoutDefault "user.tokens.$field@(.*)" (·.user.isSome) (fun w field => .ok (lookToken w field)) "",
  withDefault "user.metadata.$field@(.*):$dv@(.*)" always fun w field =>
    lookOptional P (userData w) field,
  withoutDefault "user.metadata.$field@(.*)" (·.user.isSome) (fun w field =>
    lookOptional P (userData w) field) "meta-",
  withDefault "user.profile.$field@(.*):$dv@(.*)" always fun w field =>
    lookOptional P (w.user.map (·.profile)) field,
  fixed ["rand", "plan.id", "plan.name", "api.id", "api.name"],
  withoutDefault "user.profile.$field@(.*)" (·.user.isSome) (fun w field =>
    lookOptional P (w.user.map (·.profile)) field) "meta-",
  fixed ["consumer.id", "consumer.long_id", "consumer.name", "consumer.kind", "consumer.json.pretty",
    "consumer.json"],
  withDefault "consumer.metadata.$field@(.*):$dv@(.*)" always fun w field =>
    lookOptional P (consumerData w) field,
  withoutDefault "consumer.metadata.$field@(.*)" (fun w => w.user.isSome || w.apiKey.isSome)
    (fun w field => lookOptional P (consumerData w) field) "meta-",
  fixed ["nbf", "iat", "exp", "req.client_cert.dn", "req.client_cert.id", "req.client_cert.domain",
    "req.client_cert.cn", "req.client_cert.issuer_dn"]]

/-- The cases of all parts, in their order. -/
def cases : List ElCase := part1 ++ part2 ++ part3 P ++ part4 P ++ part5 P

/-- The first case that takes an expression, with `none` where none does. -/
def firstCase (w : ElWorld) (expr : Str) : List ElCase → Option Found
  | [] => none
  | c :: cases => ((c.pattern.captures expr).bind (c.run w)).or (firstCase w expr cases)

/-! ## Values -/

/-- What an expression is written as, with `none` where it throws. -/
def Found.text? : Option Found → Option Str
  | some (.value text) => some text
  | some (.absent what) => some ("no-".toList ++ what)
  | some .thrown => none
  | none => some "bad-expr".toList

/-- An expression that is no chain. -/
def evaluate (w : ElWorld) (expr : Str) : Option Found := firstCase w expr (cases P)

/-- An expression as a value of its own. -/
def quoted (expr : Str) : Str := "$\x7b".toList ++ expr ++ "\x7d".toList

/-- The value of a chain, each of whose parts `apply` evaluates. -/
def chain (apply : Str → Str) (expr : Str) : Str :=
  let _parts := splitText "||".toList expr
  let last := _parts.getLast?
  let hasDefaultValue := last.any fun last => decide ("::".toList <:+: last)
  let lastParts := if hasDefaultValue then
      (last.map fun last => (splitText "::".toList last).map trim).getD []
    else []
  let parts := if hasDefaultValue then _parts.dropLast ++ lastParts.head?.toList else _parts
  let defaultValue := if hasDefaultValue then lastParts.getLast?.getD "no-chain-value-d".toList
    else "no-chain-value".toList
  ((parts.map fun str => apply (quoted (trim str))).find? fun str =>
    str != "bad-expr".toList && !startsWith str "no-".toList).getD defaultValue

/-- The first part of the match has the case of the chains. -/
def callback (w : ElWorld) (apply : Str → Str) (expr : Str) : Option Str :=
  if "||".toList <:+: expr then some (chain apply expr) else Found.text? (evaluate P w expr)

/-- `replaceOn`, with `none` where the callback throws. -/
def replaceOn (callback : Str → Option Str) (value : Str) : Option Str :=
  match _h : Placeholders.find "$\x7b".toList value with
  | none => some value
  | some (before, expr, after) =>
      (callback expr).bind fun replacement =>
        (replaceOn callback after).map fun rest => before ++ replacement ++ rest
termination_by value.length
decreasing_by exact Placeholders.length_find _h

/-- One level of `apply`. -/
def applyWith (w : ElWorld) (apply : Str → Str) (value : Str) : Str :=
  if "$\x7b".toList <:+: value then (replaceOn (callback P w apply) value).getD value else value

/-- `apply`, down to some depth of chains. -/
def applyTo (w : ElWorld) : Nat → Str → Str
  | 0, value => value
  | depth + 1, value => applyWith P w (applyTo w depth) value

/-- `apply`. The parts of a chain are shorter than the value. -/
def apply (w : ElWorld) (value : Str) : Str := applyTo P w value.length value

end GlobalExpressionLanguage

end Otoroshi
