/-
# Answers through a tunnel

An answer crosses a tunnel as a JSON document, and crosses a second one when another node relays
it. `resultToJson` sends the headers, with the type and the length of the body among them, and the
cookies by themselves; `responseToResult` reads them back.

The document of a cookie says its same-site attribute, and the reader does not read it. The length
of the body is read from the headers and has to be a number there. `crosses_iff` says that nothing
else is lost, at the first crossing and at the second.
-/

import Otoroshi.Foundation.Base64
import Otoroshi.Foundation.Json
import Otoroshi.Foundation.NormedMaps

namespace Otoroshi

namespace TunnelActor

inductive SameSite
  | strict | lax | none
  deriving DecidableEq

/-- The text of the attribute. -/
def SameSite.value : SameSite → Str
  | strict => "Strict".toList
  | lax => "Lax".toList
  | none => "None".toList

structure Cookie where
  name : Str
  value : Str
  maxAge : Option Int32 := .none
  path : Str := "/".toList
  domain : Option Str := .none
  secure : Bool := false
  httpOnly : Bool := true
  sameSite : Option SameSite := .none
  deriving DecidableEq

/-- Two names of headers are the same when they differ in case only. -/
def lowerName (name : Str) : Str := name.map Char.toLower

abbrev Headers := NormedMap lowerName Str

/-- A byte string, whose length is an `Int`. -/
abbrev ByteString := { bytes : List UInt8 // bytes.length < 2 ^ 31 }

/-- The body of an answer: all at once, or piece by piece, with or without a length. -/
inductive HttpEntity
  | strict (data : ByteString) (contentType : Option Str)
  | streamed (data : List (List UInt8)) (contentLength : Option Long) (contentType : Option Str)
  | chunked (chunks : List (List UInt8)) (contentType : Option Str)

namespace HttpEntity

def contentType : HttpEntity → Option Str
  | strict _ contentType => contentType
  | streamed _ _ contentType => contentType
  | chunked _ contentType => contentType

theorem isLong_length (data : ByteString) : isLong data.1.length = true := by
  have hlength := data.2
  rw [isLong, Bool.and_eq_true, decide_eq_true_eq, decide_eq_true_eq]
  omega

def contentLength : HttpEntity → Option Long
  | strict data _ => some ⟨data.1.length, isLong_length data⟩
  | streamed _ contentLength _ => contentLength
  | chunked _ _ => none

def dataStream : HttpEntity → List (List UInt8)
  | strict data _ => [data.1]
  | streamed data _ _ => data
  | chunked chunks _ => chunks

end HttpEntity

structure Result where
  status : Int32
  headers : Headers
  body : HttpEntity
  newCookies : List Cookie := []

/-! ## Writing -/

def cookieToJson (cookie : Cookie) : JsValue := Json.obj [
  ("name", .string cookie.name),
  ("value", .string cookie.value),
  ("path", .string cookie.path),
  ("domain", Json.orNull .string cookie.domain),
  ("http_only", .bool cookie.httpOnly),
  ("max_age", Json.orNull Json.int cookie.maxAge),
  ("secure", .bool cookie.secure),
  ("same_site", Json.orNull (fun sameSite => .string sameSite.value) cookie.sameSite)]

/-- `equalsIgnoreCase` with the name of the header that sets cookies. -/
def isSetCookie (name : Str) : Bool := lowerName name == lowerName "Set-Cookie".toList

/-- The headers of the document. -/
def sentHeaders (result : Result) : Headers :=
  ((result.headers.filterNot isSetCookie).putOption "Content-Type".toList
    result.body.contentType).putOption "Content-Length".toList
      (result.body.contentLength.map fun clength => longText clength.1)

variable (decodeSetCookieHeader : Str → List Cookie)

/-- The cookies the answer sets: its own, and those of the header. -/
def cookies (result : Result) : List Cookie :=
  result.newCookies ++
    ((result.headers.get "Set-Cookie".toList).map decodeSetCookieHeader).getD []

def resultToJson (result : Result) (requestId : Str) : JsValue := Json.obj [
  ("request_id", .string requestId),
  ("type", .string "response".toList),
  ("status", Json.int result.status),
  ("headers", .object ((sentHeaders result).entries.map fun entry => (entry.1, .string entry.2))),
  ("cookies", .array ((cookies decodeSetCookieHeader result).map cookieToJson)),
  ("body", .string (Base64.encode result.body.dataStream.flatten))]

/-! ## Reading -/

def cookieFromJson (c : JsValue) : JsResult Cookie := do
  let name ← (c.select "name").as .string
  let value ← (c.select "value").as .string
  return {
    name
    value
    maxAge := ((c.select "maxAge").asOpt .int).or ((c.select "max_age").asOpt .int)
    path := (c.select "path").asOptOrElse .string "/".toList
    domain := (c.select "domain").asOpt .string
    secure := (c.select "secure").asOptOrElse .boolean false
    httpOnly := (((c.select "httpOnly").asOpt .boolean).or
      ((c.select "http_only").asOpt .boolean)).getD false
    sameSite := none }

/-- `getIgnoreCase`, of a map that compares its keys as they are. -/
def getIgnoreCase (headers : AList fun _ : Str => Str) (key : Str) : Option Str :=
  (headers.lookup key).or (headers.lookup (lowerName key))

/-- `toLong`, with an error where it throws. -/
def toLong (text : Str) : JsResult Long :=
  match h : parseLong asciiDigit text with
  | some n => .ok ⟨n, isLong_of_parseLong h⟩
  | none => .error .jsResult

/-- An object among the items of an array. -/
def jsObjects : Reads (List JsValue) :=
  Reads.seq fun json => (Reads.jsObject json).map .object

def responseToResult (response : JsValue) : JsResult Result := do
  let status ← (response.select "status").as .int
  let headers := ((response.select "headers").asOpt (.map .string)).getD ∅
  let cookies ← (((response.select "cookies").asOpt jsObjects).getD []).mapM cookieFromJson
  let body ← match (response.select "body").asOpt .string with
    | none => pure []
    | some b => ((Base64.decode b).map ([·])).elim (.error .jsResult) .ok
  let contentType := getIgnoreCase headers "Content-Type".toList
  let contentLength ← (getIgnoreCase headers "Content-Length".toList).mapM toLong
  return {
    status
    headers := NormedMap.empty.putAll (headers.entries.map fun entry => (entry.1, entry.2))
    body := .streamed body contentLength contentType
    newCookies := cookies }

/-- An answer on the other side of a tunnel, or the error its reader ends with. -/
def cross (result : Result) (requestId : Str) : JsResult Result :=
  responseToResult (resultToJson decodeSetCookieHeader result requestId)

/-! ## What an answer says -/

def bytes (result : Result) : List UInt8 := result.body.dataStream.flatten

/-- The type of the body, from the body itself or else from the headers. -/
def contentType (result : Result) : Option Str :=
  result.body.contentType.or (result.headers.get "Content-Type".toList)

def contentLength (result : Result) : Option Str :=
  (result.body.contentLength.map fun n => longText n.1).or
    (result.headers.get "Content-Length".toList)

/-- A header that is sent apart from the others. -/
def isEntityHeader (name : Str) : Prop :=
  lowerName name ∈ ["set-cookie".toList, "content-type".toList, "content-length".toList]

/-- Another answer says the same, and says every cookie once. -/
structure SameAnswer (result other : Result) : Prop where
  status : other.status = result.status
  bytes : bytes other = bytes result
  headers : ∀ name, ¬ isEntityHeader name → other.headers.get name = result.headers.get name
  contentType : contentType other = contentType result
  contentLength : contentLength other = contentLength result
  cookies : cookies decodeSetCookieHeader other = cookies decodeSetCookieHeader result
  setCookie : other.headers.get "Set-Cookie".toList = none

/-- Without its same-site attribute. -/
def Cookie.forgotten (cookie : Cookie) : Cookie := { cookie with sameSite := none }

/-- A length that has to be read from the headers is the text of a number. -/
def LengthReadable (result : Result) : Prop :=
  result.body.contentLength = none → ∀ entry ∈ result.headers.entries,
    entry.1 = "Content-Length".toList ∨ entry.1 = "content-length".toList →
      ∃ n : Long, entry.2 = longText n.1

/-! ## One crossing -/

section Crossing

variable {decodeSetCookieHeader} {result : Result}

theorem cookieFromJson_cookieToJson (cookie : Cookie) :
    cookieFromJson (cookieToJson cookie) = .ok cookie.forgotten := by
  have hdomain : JsLookupResult.asOpt (some (Json.orNull .string cookie.domain)) .string =
      cookie.domain := @asOpt_orNull Str .string .string (fun _ => rfl) _ rfl cookie.domain
  have hmaxAge : JsLookupResult.asOpt (some (Json.orNull Json.int cookie.maxAge)) .int =
      cookie.maxAge := asOpt_orNull reads_int rfl cookie.maxAge
  have hpath : JsLookupResult.asOptOrElse (some (.string cookie.path)) .string "/".toList =
      cookie.path :=
    asOptOrElse_of_ok (show Reads.string (.string cookie.path) = .ok cookie.path from rfl) _
  simp only [cookieFromJson, cookieToJson, select_obj_cons, select_obj_nil, String.reduceEq,
    if_true, if_false, asOpt_none, hdomain, hmaxAge, hpath, asOptOrElse_bool, Option.none_or]
  rfl

/-- The headers of the document, as a map that compares its keys as they are. -/
def headerMap (result : Result) : AList fun _ : Str => Str where
  entries := (sentHeaders result).entries.map fun entry => ⟨entry.1, entry.2⟩
  nodupKeys := by
    rw [List.NodupKeys, List.keys, List.map_map, List.Nodup, List.pairwise_map]
    exact (sentHeaders result).formsDiffer.imp fun hform heq => hform (congrArg lowerName heq)

theorem lookup_headerMap_iff {key text : Str} :
    (headerMap result).lookup key = some text ↔ (key, text) ∈ (sentHeaders result).entries := by
  rw [← Option.mem_def, AList.mem_lookup_iff]
  simp [headerMap]

theorem get_of_mem {name key text : Str} (hform : lowerName name = lowerName key)
    (h : (name, text) ∈ (sentHeaders result).entries) :
    (sentHeaders result).get key = some text :=
  NormedMap.get_eq_some_iff.mpr ⟨_, h, hform, rfl⟩

theorem lowerName_lowerName (name : Str) : lowerName (lowerName name) = lowerName name := by
  rw [lowerName, lowerName, List.map_map]
  exact List.map_congr_left fun c _ => toLower_toLower c

theorem getIgnoreCase_eq_some_iff {key text : Str} :
    getIgnoreCase (headerMap result) key = some text ↔
      (key, text) ∈ (sentHeaders result).entries ∨
        (lowerName key, text) ∈ (sentHeaders result).entries := by
  rw [getIgnoreCase, Option.or_eq_some_iff, lookup_headerMap_iff, lookup_headerMap_iff]
  constructor
  · exact Or.imp_right And.right
  · rintro (h | h)
    · exact Or.inl h
    · cases hlookup : (headerMap result).lookup key with
      | none => exact Or.inr ⟨rfl, h⟩
      | some other =>
          have hother := lookup_headerMap_iff.mp hlookup
          have hsame := (get_of_mem rfl hother).symm.trans (get_of_mem (lowerName_lowerName key) h)
          rw [Option.some.inj hsame] at hother
          exact Or.inl hother

/-- What is found ignoring case is the value of the header. -/
theorem get_of_getIgnoreCase {key text : Str}
    (h : getIgnoreCase (headerMap result) key = some text) :
    (sentHeaders result).get key = some text := by
  rcases getIgnoreCase_eq_some_iff.mp h with h | h
  · exact get_of_mem rfl h
  · exact get_of_mem (lowerName_lowerName key) h

/-- What is received, with the length that is read. -/
def received (decodeSetCookieHeader : Str → List Cookie) (result : Result) (length : Option Long) :
    Result where
  status := result.status
  headers := sentHeaders result
  body := .streamed [bytes result] length (getIgnoreCase (headerMap result) "Content-Type".toList)
  newCookies := (cookies decodeSetCookieHeader result).map Cookie.forgotten

theorem putAll_headerMap (result : Result) :
    NormedMap.empty.putAll ((headerMap result).entries.map fun entry => (entry.1, entry.2)) =
      sentHeaders result := by
  have hentries : ((headerMap result).entries.map fun entry => (entry.1, entry.2)) =
      (sentHeaders result).entries := by
    simp [headerMap, Function.comp_def]
  rw [hentries]
  apply NormedMap.ext
  exact NormedMap.entries_putAll .empty (sentHeaders result).formsDiffer

theorem mapM_cookieFromJson (cookies : List Cookie) :
    (cookies.map cookieToJson).mapM cookieFromJson = .ok (cookies.map Cookie.forgotten) := by
  induction cookies with
  | nil => rfl
  | cons cookie cookies ih =>
      rw [List.map_cons, List.mapM_cons, cookieFromJson_cookieToJson, ih]
      rfl

theorem jsObjects_cookies (cookies : List Cookie) :
    jsObjects (.array (cookies.map cookieToJson)) = .ok (cookies.map cookieToJson) := by
  rw [jsObjects, Reads.seq]
  induction cookies with
  | nil => rfl
  | cons cookie cookies ih =>
      rw [List.map_cons, List.mapM_cons, ih]
      rfl

/-- Only the length of the body can fail to be read. -/
theorem cross_eq (requestId : Str) :
    cross decodeSetCookieHeader result requestId =
      ((getIgnoreCase (headerMap result) "Content-Length".toList).mapM toLong).map
        (received decodeSetCookieHeader result) := by
  have hstatus : JsLookupResult.as (some (Json.int result.status)) .int = .ok result.status :=
    reads_int result.status
  have hheaders : JsLookupResult.asOpt (some (.object ((sentHeaders result).entries.map
      fun entry => (entry.1, .string entry.2)))) (.map .string) = some (headerMap result) := by
    have hmap := reads_stringMap (headerMap result)
    rw [Json.stringMap, headerMap, List.map_map] at hmap
    exact asOpt_of_ok hmap
  have hcookies : JsLookupResult.asOpt (some (.array
      ((cookies decodeSetCookieHeader result).map cookieToJson))) jsObjects =
        some ((cookies decodeSetCookieHeader result).map cookieToJson) :=
    asOpt_of_ok (jsObjects_cookies _)
  have hbody : JsLookupResult.asOpt
      (some (.string (Base64.encode result.body.dataStream.flatten))) .string =
        some (Base64.encode result.body.dataStream.flatten) := asOpt_of_ok rfl
  simp only [cross, responseToResult, resultToJson, select_obj_cons, String.reduceEq, if_true,
    if_false, hstatus, hheaders, hcookies, hbody, Option.getD_some, mapM_cookieFromJson,
    putAll_headerMap, Base64.decode_encode, Option.map_some, Option.elim_some]
  cases (getIgnoreCase (headerMap result) "Content-Length".toList).mapM toLong <;> rfl

/-! ## What is lost -/

theorem isSetCookie_iff {name : Str} :
    isSetCookie name = true ↔ lowerName name = "set-cookie".toList := beq_iff_eq

theorem isSetCookie_congr (a b : Str) (h : lowerName a = lowerName b) :
    isSetCookie a = isSetCookie b := by
  rw [isSetCookie, h, isSetCookie]

/-- The header of a name, once the type and the length of the body are among the headers. -/
theorem get_sentHeaders (result : Result) (name : Str) :
    (sentHeaders result).get name =
      if lowerName name = "set-cookie".toList then none
      else if lowerName name = "content-type".toList then
        result.body.contentType.or (result.headers.get name)
      else if lowerName name = "content-length".toList then
        (result.body.contentLength.map fun n => longText n.1).or (result.headers.get name)
      else result.headers.get name := by
  have hcookie : isSetCookie name = true ↔ lowerName name = "set-cookie".toList := isSetCookie_iff
  have htype : lowerName "Content-Type".toList = "content-type".toList := by decide
  have hlength : lowerName "Content-Length".toList = "content-length".toList := by decide
  rw [sentHeaders, NormedMap.get_putOption, NormedMap.get_putOption,
    NormedMap.get_filterNot _ isSetCookie_congr, htype, hlength]
  by_cases h1 : lowerName name = "set-cookie".toList
  · have h2 : lowerName name ≠ "content-type".toList := h1 ▸ by decide
    have h3 : lowerName name ≠ "content-length".toList := h1 ▸ by decide
    rw [if_neg h3, if_neg h2, if_pos (hcookie.mpr h1), if_pos h1]
  · rw [if_neg h1, if_neg fun h => h1 (hcookie.mp h)]
    by_cases h2 : lowerName name = "content-type".toList
    · have h3 : lowerName name ≠ "content-length".toList := h2 ▸ by decide
      rw [if_neg h3, if_pos h2, if_pos h2]
    · rw [if_neg h2, if_neg h2]

/-- The headers say the same, but for the cookies they set. -/
theorem get_sentHeaders_of_not {name : Str} (h : ¬ isEntityHeader name) :
    (sentHeaders result).get name = result.headers.get name := by
  simp only [isEntityHeader, List.mem_cons, List.not_mem_nil, or_false, not_or] at h
  rw [get_sentHeaders, if_neg h.1, if_neg h.2.1, if_neg h.2.2]

theorem get_sentHeaders_setCookie : (sentHeaders result).get "Set-Cookie".toList = none := by
  rw [get_sentHeaders, if_pos (by decide)]

theorem get_sentHeaders_contentType :
    (sentHeaders result).get "Content-Type".toList = contentType result := by
  rw [get_sentHeaders, if_neg (by decide), if_pos (by decide), contentType]

theorem get_sentHeaders_contentLength :
    (sentHeaders result).get "Content-Length".toList = contentLength result := by
  rw [get_sentHeaders, if_neg (by decide), if_neg (by decide), if_pos (by decide), contentLength]

theorem toLong_eq_ok_iff {text : Str} {n : Long} :
    toLong text = .ok n ↔ parseLong asciiDigit text = some n.1 := by
  unfold toLong
  split
  · next m hparse => simp [hparse, Subtype.ext_iff]
  · next hparse => simp [hparse]

theorem mapM_toLong (text : Str) : (some text).mapM toLong = (toLong text).map some := rfl

theorem mapM_toLong_some {text : Str} {length : Option Long}
    (h : (some text).mapM toLong = .ok length) : ∃ n, toLong text = .ok n ∧ length = some n := by
  rw [mapM_toLong] at h
  cases htext : toLong text with
  | error e =>
      rw [htext] at h
      cases h
  | ok n =>
      rw [htext] at h
      exact ⟨n, rfl, (Except.ok.inj h).symm⟩

theorem toLong_longText (n : Long) : toLong (longText n.1) = .ok n :=
  toLong_eq_ok_iff.mpr (parseLong_longText readsDigits_asciiDigit n.2)

theorem forgotten_eq_self_iff {cookie : Cookie} :
    cookie.forgotten = cookie ↔ cookie.sameSite = none := by
  constructor
  · intro h
    exact (congrArg Cookie.sameSite h).symm
  · intro h
    rw [Cookie.forgotten, ← h]

/-- What is found for a header, and its value otherwise, is its value. -/
theorem getIgnoreCase_or_get (key : Str) :
    (getIgnoreCase (headerMap result) key).or ((sentHeaders result).get key) =
      (sentHeaders result).get key := by
  cases hfound : getIgnoreCase (headerMap result) key with
  | none => rfl
  | some text => rw [Option.some_or, get_of_getIgnoreCase hfound]

/-- A received answer says the same exactly when no cookie had a same-site attribute and the length
is the text that was read. -/
theorem sameAnswer_received_iff {length : Option Long}
    (hlength :
      (getIgnoreCase (headerMap result) "Content-Length".toList).mapM toLong = .ok length) :
    SameAnswer decodeSetCookieHeader result (received decodeSetCookieHeader result length) ↔
      (∀ cookie ∈ cookies decodeSetCookieHeader result, cookie.sameSite = none) ∧
        getIgnoreCase (headerMap result) "Content-Length".toList =
          length.map fun n => longText n.1 := by
  have hcookies : cookies decodeSetCookieHeader (received decodeSetCookieHeader result length) =
      (cookies decodeSetCookieHeader result).map Cookie.forgotten := by
    rw [cookies, received, get_sentHeaders_setCookie]
    exact List.append_nil _
  have hforgotten : (cookies decodeSetCookieHeader result).map Cookie.forgotten =
      cookies decodeSetCookieHeader result ↔
        ∀ cookie ∈ cookies decodeSetCookieHeader result, cookie.sameSite = none := by
    have hid := @List.map_inj_left _ _ (cookies decodeSetCookieHeader result) Cookie.forgotten id
    rw [List.map_id] at hid
    exact hid.trans (forall₂_congr fun _ _ => forgotten_eq_self_iff)
  have hlengths : contentLength (received decodeSetCookieHeader result length) =
      contentLength result ↔ getIgnoreCase (headerMap result) "Content-Length".toList =
        length.map fun n => longText n.1 := by
    have hreceived : contentLength (received decodeSetCookieHeader result length) =
        (length.map fun n => longText n.1).or
          ((sentHeaders result).get "Content-Length".toList) := rfl
    have hsent : (sentHeaders result).get "Content-Length".toList = contentLength result :=
      get_sentHeaders_contentLength
    rw [hreceived, ← hsent]
    cases hfound : getIgnoreCase (headerMap result) "Content-Length".toList with
    | none =>
        rw [hfound] at hlength
        cases hlength
        exact iff_of_true rfl rfl
    | some text =>
        obtain ⟨n, -, rfl⟩ := mapM_toLong_some (hfound ▸ hlength)
        rw [get_of_getIgnoreCase hfound]
        exact eq_comm
  constructor
  · intro h
    exact ⟨hforgotten.mp (hcookies.symm.trans h.cookies), hlengths.mp h.contentLength⟩
  · rintro ⟨hsameSite, htext⟩
    exact {
      status := rfl
      bytes := List.append_nil _
      headers := fun name hname => get_sentHeaders_of_not hname
      contentType := (getIgnoreCase_or_get _).trans get_sentHeaders_contentType
      contentLength := hlengths.mpr htext
      cookies := hcookies.trans (hforgotten.mpr hsameSite)
      setCookie := get_sentHeaders_setCookie }

theorem mem_sentHeaders_iff (hnone : result.body.contentLength = none) {entry : Str × Str}
    (hentry : lowerName entry.1 = "content-length".toList) :
    entry ∈ (sentHeaders result).entries ↔ entry ∈ result.headers.entries := by
  have htype : lowerName entry.1 ≠ lowerName "Content-Type".toList := hentry ▸ by decide
  have hcookie : isSetCookie entry.1 = false := by
    rw [isSetCookie, hentry]
    decide
  rw [sentHeaders, hnone, Option.map_none]
  show entry ∈ ((result.headers.filterNot isSetCookie).putOption _ _).entries ↔ _
  rw [NormedMap.mem_putOption_iff htype, NormedMap.filterNot, List.mem_filter]
  simp [hcookie]

/-- A length is sent as the text of a number, or was one in the headers of the answer. -/
theorem lengthReadable_iff :
    LengthReadable result ↔
      ∀ text, getIgnoreCase (headerMap result) "Content-Length".toList = some text →
        ∃ n : Long, text = longText n.1 := by
  have hnames : ∀ name, name = "Content-Length".toList ∨ name = "content-length".toList →
      lowerName name = "content-length".toList := by
    rintro name (rfl | rfl) <;> decide
  have hlower : lowerName "Content-Length".toList = "content-length".toList := by decide
  have hsmall : lowerName "content-length".toList = "content-length".toList := by decide
  constructor
  · intro h text htext
    cases hlength : result.body.contentLength with
    | none =>
        rw [getIgnoreCase_eq_some_iff, hlower] at htext
        rcases htext with hmem | hmem
        · exact h hlength _ ((mem_sentHeaders_iff hlength hlower).mp hmem) (Or.inl rfl)
        · exact h hlength _ ((mem_sentHeaders_iff hlength hsmall).mp hmem) (Or.inr rfl)
    | some n =>
        have hget := get_of_getIgnoreCase htext
        rw [get_sentHeaders_contentLength, contentLength, hlength] at hget
        exact ⟨n, (Option.some.inj hget).symm⟩
  · rintro h hlength ⟨name, text⟩ hentry hname
    apply h text
    have hmem := (mem_sentHeaders_iff hlength (hnames name hname)).mpr hentry
    rw [getIgnoreCase_eq_some_iff, hlower]
    rcases hname with rfl | rfl
    · exact Or.inl hmem
    · exact Or.inr hmem

/-- One crossing changes nothing under the condition, and only then. -/
theorem crosses_once_iff (requestId : Str) :
    (∃ other, cross decodeSetCookieHeader result requestId = .ok other ∧
        SameAnswer decodeSetCookieHeader result other) ↔
      (∀ cookie ∈ cookies decodeSetCookieHeader result, cookie.sameSite = none) ∧
        LengthReadable result := by
  rw [cross_eq, lengthReadable_iff]
  constructor
  · rintro ⟨other, hcross, hsame⟩
    cases hlength : (getIgnoreCase (headerMap result) "Content-Length".toList).mapM toLong with
    | error e =>
        rw [hlength] at hcross
        cases hcross
    | ok length =>
        rw [hlength] at hcross
        cases hcross
        obtain ⟨hsameSite, htext⟩ := (sameAnswer_received_iff hlength).mp hsame
        refine ⟨hsameSite, fun text hfound => ?_⟩
        obtain ⟨n, -, hn⟩ := Option.map_eq_some_iff.mp (htext.symm.trans hfound)
        exact ⟨n, hn.symm⟩
  · rintro ⟨hsameSite, htexts⟩
    have hread : ∃ length, (getIgnoreCase (headerMap result) "Content-Length".toList).mapM toLong =
          .ok length ∧ getIgnoreCase (headerMap result) "Content-Length".toList =
            length.map fun n => longText n.1 := by
      cases hfound : getIgnoreCase (headerMap result) "Content-Length".toList with
      | none => exact ⟨none, rfl, rfl⟩
      | some text =>
          obtain ⟨n, rfl⟩ := htexts text hfound
          refine ⟨some n, ?_, rfl⟩
          rw [mapM_toLong, toLong_longText]
          rfl
    obtain ⟨length, hlength, htext⟩ := hread
    refine ⟨received decodeSetCookieHeader result length, by rw [hlength]; rfl, ?_⟩
    exact (sameAnswer_received_iff hlength).mpr ⟨hsameSite, htext⟩

/-- The length of a received answer was read, if its headers have one. -/
theorem lengthReadable_of_cross {other : Result} {requestId : Str}
    (h : cross decodeSetCookieHeader result requestId = .ok other) : LengthReadable other := by
  rw [cross_eq] at h
  cases hlength : (getIgnoreCase (headerMap result) "Content-Length".toList).mapM toLong with
  | error e =>
      rw [hlength] at h
      cases h
  | ok length =>
      rw [hlength] at h
      cases h
      rintro hnone ⟨name, text⟩ hentry hname
      have hfound : getIgnoreCase (headerMap result) "Content-Length".toList = some text := by
        rw [getIgnoreCase_eq_some_iff]
        rcases hname with rfl | rfl
        · exact Or.inl hentry
        · exact Or.inr hentry
      obtain ⟨n, -, hn⟩ := mapM_toLong_some (hfound ▸ hlength)
      rw [hn] at hnone
      cases hnone

/-- An answer crosses a tunnel, and then another one, unchanged exactly when none of its cookies
has a same-site attribute and a length that has to be read from its headers can be read. -/
theorem crosses_iff (decodeSetCookieHeader : Str → List Cookie) (result : Result)
    (requestId relayId : Str) :
    (∃ other, cross decodeSetCookieHeader result requestId = .ok other ∧
        SameAnswer decodeSetCookieHeader result other ∧
        ∃ relayed, cross decodeSetCookieHeader other relayId = .ok relayed ∧
          SameAnswer decodeSetCookieHeader other relayed) ↔
      (∀ cookie ∈ cookies decodeSetCookieHeader result, cookie.sameSite = none) ∧
        LengthReadable result := by
  rw [← crosses_once_iff requestId]
  constructor
  · rintro ⟨other, hcross, hsame, -⟩
    exact ⟨other, hcross, hsame⟩
  · rintro ⟨other, hcross, hsame⟩
    obtain ⟨hsameSite, -⟩ := (crosses_once_iff requestId).mp ⟨other, hcross, hsame⟩
    rw [← hsame.cookies] at hsameSite
    exact ⟨other, hcross, hsame,
      (crosses_once_iff relayId).mpr ⟨hsameSite, lengthReadable_of_cross hcross⟩⟩

/-- An answer with a strict cookie. -/
def strictAnswer : Result where
  status := 200
  headers := .empty
  body := .strict ⟨[], by decide⟩ none
  newCookies := [{ name := "session".toList, value := "1".toList, sameSite := some .strict }]

theorem exists_changed_answer :
    ∃ (decodeSetCookieHeader : Str → List Cookie) (result : Result) (requestId relayId : Str),
      ¬ ∃ other, cross decodeSetCookieHeader result requestId = .ok other ∧
        SameAnswer decodeSetCookieHeader result other ∧
        ∃ relayed, cross decodeSetCookieHeader other relayId = .ok relayed ∧
          SameAnswer decodeSetCookieHeader other relayed := by
  refine ⟨fun _ => [], strictAnswer, [], [], ?_⟩
  rintro ⟨other, hcross, hsame, -⟩
  have hsameSite := ((crosses_once_iff []).mp ⟨other, hcross, hsame⟩).1
  exact absurd hsameSite (by decide)

end Crossing

end TunnelActor

end Otoroshi
