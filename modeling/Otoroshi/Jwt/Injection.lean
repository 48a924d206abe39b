/-
# The token that a backend receives

A token that is signed again replaces the one of the request. The verifier says what to add
to the request and what to remove from it, and a plugin does so: cookies are added to those
that are there, a header takes the place of one with the very same name, and nothing is
written to a query.

`onlyNewToken_iff` says when the new token is all that the backend finds.
-/

import Otoroshi.Apikeys.Wiping
import Otoroshi.Jwt.Agreement

namespace Otoroshi

namespace Jwt

open Credentials (TextPlatform Cookie QueryPlatform NgPluginHttpRequest putHeader
  sameName)

variable {Algorithm : Type}

/-- `JwtVerification.transformRequestSync`. -/
def transformRequestSync (P : TextPlatform) (attr : Option JwtInjection)
    (otoroshiRequest : NgPluginHttpRequest) : NgPluginHttpRequest :=
  match attr with
  | none => otoroshiRequest
  | some injection =>
      let kept := otoroshiRequest.headers.filter fun header =>
        !(injection.removeHeaders.map P.toLowerCase).contains (P.toLowerCase header.1)
      { otoroshiRequest with
        headers := injection.additionalHeaders.foldl
          (fun headers header => putHeader headers header.1 header.2) kept
        cookies := (otoroshiRequest.cookies.filter fun cookie =>
            !injection.removeCookies.contains cookie.name) ++
          injection.additionalCookies.map fun cookie => ⟨cookie.1, cookie.2⟩ }

section Locations

variable (P : JwtPlatform Algorithm) (Q : QueryPlatform)

namespace JwtTokenLocation

/-- All values at the location. A header is the same in any casing. -/
def values (request : NgPluginHttpRequest) : JwtTokenLocation → List Str
  | inQueryParam name => ((request.params Q).filter fun param => param.1 == name).map Prod.snd
  | inHeader name _ =>
      (request.headers.filter fun header => sameName P.toTextPlatform name header.1).map Prod.snd
  | inCookie name => (request.cookies.filter fun cookie => cookie.name == name).map Cookie.value

/-- A token as it is written to the location. -/
def render (newToken : Str) : JwtTokenLocation → Str
  | inHeader _ remove => remove ++ newToken
  | _ => newToken

def SamePlace : JwtTokenLocation → JwtTokenLocation → Prop
  | inQueryParam name, inQueryParam other => name = other
  | inHeader name _, inHeader other _ => sameName P.toTextPlatform name other = true
  | inCookie name, inCookie other => name = other
  | _, _ => False

/-- The token can be read at the location. -/
def Carries (location : JwtTokenLocation) (token : Str) (request : NgPluginHttpRequest) : Prop :=
  ∃ value ∈ location.values P Q request, (location.read P value).map stripBearer = .ok token

end JwtTokenLocation

/-- The new token is all there is at the destination, and the original one has left its
place. -/
structure OnlyNewToken (source destination : JwtTokenLocation) (original newToken : Str)
    (request : NgPluginHttpRequest) : Prop where
  arrives : destination.values P Q request = [destination.render newToken]
  leaves : ¬ source.SamePlace P destination → ¬ source.Carries P Q original request

/-! ## When nothing else is left -/

/-- No header has the name in another casing. -/
def OneCasing (name : Str) (request : NgPluginHttpRequest) : Prop :=
  ∀ header ∈ request.headers, sameName P.toTextPlatform name header.1 = true → header.1 = name

def NoCookie (name : Str) (request : NgPluginHttpRequest) : Prop :=
  ∀ cookie ∈ request.cookies, cookie.name ≠ name

/-- A token that is added will be alone. -/
def Free (request : NgPluginHttpRequest) : JwtTokenLocation → Prop
  | .inQueryParam _ => False
  | .inHeader name _ => OneCasing P name request
  | .inCookie name => NoCookie name request

/-- The destination will hold what is added, and nothing else. A header that is renamed to
another casing is removed, a header that keeps its name is not. -/
def Vacant (source : JwtTokenLocation) (request : NgPluginHttpRequest) : JwtTokenLocation → Prop
  | .inQueryParam _ => False
  | .inHeader name _ =>
      match source with
      | .inHeader n _ =>
          n ≠ name ∧ sameName P.toTextPlatform n name = true ∨ OneCasing P name request
      | _ => OneCasing P name request
  | .inCookie name =>
      match source with
      | .inCookie n => n = name ∨ NoCookie name request
      | _ => NoCookie name request

/-- A token that came in the query stays there. -/
def Leaves (original : Str) (request : NgPluginHttpRequest) (source : JwtTokenLocation) : Prop :=
  match source with
  | .inQueryParam _ => ¬ source.Carries P Q original request
  | _ => True

namespace JwtVerifier

variable (verifier : JwtVerifier Algorithm)

/-- Where the new token goes, if there is one. -/
def destination : Option JwtTokenLocation :=
  match verifier.strategy with
  | .sign _ _ => some verifier.source
  | .transform _ tSettings _ => some tSettings.location
  | _ => none

/-- The request is one whose token gets replaced. Nothing is removed for a token that is
signed again. -/
def Replaces (original : Str) (request : NgPluginHttpRequest) : Prop :=
  match verifier.strategy with
  | .sign _ _ => Free P request verifier.source
  | .transform _ tSettings _ =>
      Vacant P verifier.source request tSettings.location ∧
        Leaves P Q original request verifier.source
  | _ => False

/-- The injection for a token that was signed again. -/
def resigned (decodedToken : DecodedJWT) (newToken : Str) : JwtInjection :=
  match verifier.strategy with
  | .sign _ _ => verifier.source.asJwtInjection decodedToken newToken
  | .transform _ tSettings _ =>
      transformInjection verifier.source tSettings.location decodedToken newToken
  | _ => {}

end JwtVerifier

variable {P Q} {request : NgPluginHttpRequest} {name value : Str}

/-! ## Headers and cookies -/

theorem sameName_self : sameName P.toTextPlatform name name = true := decide_eq_true rfl

/-- An item that is added is the only one that is kept exactly when none was kept before. -/
theorem map_filter_concat_iff {α : Type} {items : List α} {keep : α → Bool} {item : α}
    {f : α → Str} (hitem : keep item = true) :
    ((items ++ [item]).filter keep).map f = [f item] ↔ ∀ other ∈ items, keep other = false := by
  rw [List.filter_append, List.filter_cons_of_pos hitem, List.filter_nil, List.map_append,
    List.map_cons, List.map_nil, List.append_left_eq_self, List.map_eq_nil_iff,
    List.filter_eq_nil_iff]
  simp only [Bool.not_eq_true]

/-- A header that is put is the only one with its name in any casing exactly when there is no
other casing of it. -/
theorem values_putHeader_iff (remove : Str) :
    (JwtTokenLocation.inHeader name remove).values P Q
        { request with headers := putHeader request.headers name value } = [value] ↔
      OneCasing P name request := by
  apply (@map_filter_concat_iff (Str × Str) _ _ (name, value) Prod.snd sameName_self).trans
  constructor
  · intro hnone header hmem hsame
    by_contra hne
    have hother := hnone header (List.mem_filter.mpr ⟨hmem, bne_iff_ne.mpr hne⟩)
    rw [hsame] at hother
    cases hother
  · intro hone header hmem
    rw [List.mem_filter, bne_iff_ne] at hmem
    cases hsame : sameName P.toTextPlatform name header.1 with
    | false => rfl
    | true => exact absurd (hone header hmem.1 hsame) hmem.2

theorem values_addCookie_iff :
    (JwtTokenLocation.inCookie name).values P Q
        { request with cookies := request.cookies ++ [⟨name, value⟩] } = [value] ↔
      NoCookie name request := by
  apply (@map_filter_concat_iff Cookie _ _ ⟨name, value⟩ Cookie.value
    (beq_self_eq_true name)).trans
  simp only [beq_eq_false_iff_ne, NoCookie]

/-! ## What an injection does -/

variable {source location : JwtTokenLocation} {decodedToken : DecodedJWT}
  {original newToken : Str}

variable (P) in
/-- The request without some headers and cookies. -/
def without (removeHeaders removeCookies : List Str) (request : NgPluginHttpRequest) :
    NgPluginHttpRequest :=
  { request with
    headers := request.headers.filter fun header =>
      !(removeHeaders.map P.toLowerCase).contains (P.toLowerCase header.1)
    cookies := request.cookies.filter fun cookie => !removeCookies.contains cookie.name }

/-- The request with a token at a location. -/
def place (location : JwtTokenLocation) (newToken : Str) (request : NgPluginHttpRequest) :
    NgPluginHttpRequest :=
  match location with
  | .inQueryParam _ => request
  | .inHeader name remove =>
      { request with headers := putHeader request.headers name (remove ++ newToken) }
  | .inCookie name => { request with cookies := request.cookies ++ [⟨name, newToken⟩] }

theorem transformRequestSync_inject (removeHeaders removeCookies : List Str) :
    transformRequestSync P.toTextPlatform
        (some { location.asJwtInjection decodedToken newToken with
          removeHeaders := removeHeaders, removeCookies := removeCookies }) request =
      place location newToken (without P removeHeaders removeCookies request) := by
  cases location with
  | inCookie name => rfl
  | _ =>
      simp only [transformRequestSync, JwtTokenLocation.asJwtInjection, List.map_nil,
        List.append_nil]
      rfl

theorem without_nil : without P [] [] request = request := by
  simp [without]

theorem transformRequestSync_asJwtInjection :
    transformRequestSync P.toTextPlatform
        (some (location.asJwtInjection decodedToken newToken)) request =
      place location newToken request := by
  have hinject := @transformRequestSync_inject Algorithm P request location decodedToken newToken
    [] []
  rw [without_nil] at hinject
  rw [← hinject]
  cases location <;> rfl

/-- The headers that are removed for a token that is moved. -/
def removedHeaders (source location : JwtTokenLocation) : List Str :=
  match source with
  | .inHeader n _ =>
      match location with
      | .inHeader nn _ => if nn = n then [] else [n]
      | _ => [n]
  | _ => []

def removedCookies : JwtTokenLocation → List Str
  | .inCookie n => [n]
  | _ => []

theorem transformRequestSync_transformInjection :
    transformRequestSync P.toTextPlatform
        (some (transformInjection source location decodedToken newToken)) request =
      place location newToken
        (without P (removedHeaders source location) (removedCookies source) request) := by
  rw [← @transformRequestSync_inject Algorithm P request location decodedToken]
  congr 2
  cases source with
  | inQueryParam n => cases location <;> rfl
  | inCookie n => cases location <;> rfl
  | inHeader n r =>
      cases location with
      | inHeader nn remove =>
          simp only [transformInjection, removedHeaders]
          split <;> rfl
      | _ => rfl

/-- What is placed is alone exactly when the place was free. -/
theorem values_place_iff (hquery : ∀ name, location ≠ .inQueryParam name) :
    location.values P Q (place location newToken request) = [location.render newToken] ↔
      Free P request location := by
  cases location with
  | inQueryParam name => exact absurd rfl (hquery name)
  | inHeader name remove => exact values_putHeader_iff remove
  | inCookie name => exact values_addCookie_iff

theorem filter_putHeader_of_ne {n : Str} (headers : List (Str × Str))
    (h : sameName P.toTextPlatform n name = false) :
    (putHeader headers name value).filter (fun header => sameName P.toTextPlatform n header.1) =
      headers.filter fun header => sameName P.toTextPlatform n header.1 := by
  have hnew : [(name, value)].filter (fun header => sameName P.toTextPlatform n header.1) = [] := by
    simpa using h
  rw [putHeader, List.filter_append, List.filter_filter, hnew, List.append_nil]
  apply List.filter_congr
  intro header _
  cases hsame : sameName P.toTextPlatform n header.1 with
  | false => rfl
  | true =>
      rw [Bool.true_and, bne_iff_ne]
      intro hname
      rw [hname, h] at hsame
      cases hsame

/-- Nothing changes where nothing is placed. -/
theorem values_place_of_elsewhere (h : ¬ source.SamePlace P location) :
    source.values P Q (place location newToken request) = source.values P Q request := by
  cases location with
  | inQueryParam name => rfl
  | inHeader name remove =>
      cases source with
      | inHeader n r =>
          have hne : sameName P.toTextPlatform n name = false := Bool.not_eq_true _ ▸ h
          exact congrArg _ (filter_putHeader_of_ne request.headers hne)
      | _ => rfl
  | inCookie name =>
      cases source with
      | inCookie n =>
          have hne : ¬ name = n := fun hname => h hname.symm
          simp [place, JwtTokenLocation.values, hne]
      | _ => rfl

/-! ### Removals -/

theorem mem_headers_without_iff {n : Str} {removeCookies : List Str} {header : Str × Str} :
    header ∈ (without P [n] removeCookies request).headers ↔
      header ∈ request.headers ∧ sameName P.toTextPlatform n header.1 = false := by
  simp only [without, sameName, List.mem_filter, List.map_cons, List.map_nil,
    List.contains_eq_mem, List.mem_singleton, decide_eq_false_iff_not, Bool.not_eq_true']
  rw [eq_comm (a := P.toLowerCase n)]

theorem headers_without_nil {removeCookies : List Str} :
    (without P [] removeCookies request).headers = request.headers := by
  simp [without]

theorem mem_cookies_without_iff {n : Str} {removeHeaders : List Str} {cookie : Cookie} :
    cookie ∈ (without P removeHeaders [n] request).cookies ↔
      cookie ∈ request.cookies ∧ cookie.name ≠ n := by
  simp [without]

theorem cookies_without_nil {removeHeaders : List Str} :
    (without P removeHeaders [] request).cookies = request.cookies := by
  simp [without]

/-- Removing a header removes all its casings. -/
theorem oneCasing_without_iff {n : Str} {removeCookies : List Str} :
    OneCasing P name (without P [n] removeCookies request) ↔
      sameName P.toTextPlatform n name = true ∨ OneCasing P name request := by
  simp only [OneCasing, mem_headers_without_iff]
  constructor
  · intro hone
    cases hsame : sameName P.toTextPlatform n name with
    | true => exact .inl rfl
    | false =>
        right
        intro header hmem hheader
        apply hone header ⟨hmem, ?_⟩ hheader
        simp only [sameName, decide_eq_true_eq, decide_eq_false_iff_not] at hheader hsame ⊢
        rw [← hheader]
        exact hsame
  · rintro (hsame | hone) header ⟨hmem, hother⟩ hheader
    · simp only [sameName, decide_eq_true_eq, decide_eq_false_iff_not] at hheader hsame hother
      exact absurd (hsame.trans hheader) hother
    · exact hone header hmem hheader

theorem noCookie_without_iff {n : Str} {removeHeaders : List Str} :
    NoCookie name (without P removeHeaders [n] request) ↔ n = name ∨ NoCookie name request := by
  simp only [NoCookie, mem_cookies_without_iff]
  constructor
  · intro hnone
    by_cases hname : n = name
    · exact .inl hname
    · right
      intro cookie hmem hcookie
      exact hnone cookie ⟨hmem, fun hn => hname (hn.symm.trans hcookie)⟩ hcookie
  · rintro (rfl | hnone) cookie ⟨hmem, hother⟩
    · exact hother
    · exact hnone cookie hmem

/-- A place is vacant where the removals make it free. -/
theorem vacant_iff : Vacant P source request location ↔ Free P
    (without P (removedHeaders source location) (removedCookies source) request) location := by
  cases location with
  | inQueryParam name => rfl
  | inHeader name remove =>
      cases source with
      | inHeader n r =>
          simp only [Vacant, Free, removedHeaders]
          split
          · rename_i hname
            simp only [OneCasing, headers_without_nil, hname, ne_eq, not_true_eq_false, false_and,
              false_or]
          · rename_i hname
            rw [oneCasing_without_iff, and_iff_right (Ne.symm hname)]
      | _ => simp only [Vacant, Free, OneCasing, removedHeaders, headers_without_nil]
  | inCookie name =>
      cases source with
      | inCookie n => exact noCookie_without_iff.symm
      | _ => simp only [Vacant, Free, NoCookie, removedCookies, cookies_without_nil]

/-- Nothing is left at a place that is removed. -/
theorem values_without (h : ¬ source.SamePlace P location) :
    source.values P Q
        (without P (removedHeaders source location) (removedCookies source) request) =
      match source with
      | .inQueryParam _ => source.values P Q request
      | _ => [] := by
  cases source with
  | inQueryParam n => rfl
  | inHeader n r =>
      have hremoved : removedHeaders (.inHeader n r) location = [n] := by
        cases location with
        | inHeader name remove =>
            apply if_neg
            rintro rfl
            exact h sameName_self
        | _ => rfl
      rw [hremoved]
      apply List.map_eq_nil_iff.mpr
      apply List.filter_eq_nil_iff.mpr
      intro header hmem
      rw [(mem_headers_without_iff.mp hmem).2]
      exact Bool.false_ne_true
  | inCookie n =>
      apply List.map_eq_nil_iff.mpr
      apply List.filter_eq_nil_iff.mpr
      intro cookie hmem
      rw [beq_iff_eq]
      exact (mem_cookies_without_iff.mp hmem).2

/-! ## Tokens that are replaced -/

theorem samePlace_self : location.SamePlace P location := by
  cases location with
  | inHeader name remove => exact sameName_self
  | _ => rfl

/-- A token that is signed again is alone where its place was free. -/
theorem onlyNewToken_sign_iff (hquery : ∀ name, source ≠ .inQueryParam name) :
    OnlyNewToken P Q source source original newToken
        (transformRequestSync P.toTextPlatform
          (some (source.asJwtInjection decodedToken newToken)) request) ↔
      Free P request source := by
  rw [transformRequestSync_asJwtInjection]
  have honly : OnlyNewToken P Q source source original newToken (place source newToken request) ↔
      source.values P Q (place source newToken request) = [source.render newToken] :=
    ⟨OnlyNewToken.arrives, fun harrives => ⟨harrives, fun hother => absurd samePlace_self hother⟩⟩
  rw [honly, values_place_iff hquery]

theorem carries_place_without_iff (h : ¬ source.SamePlace P location) :
    source.Carries P Q original (place location newToken
        (without P (removedHeaders source location) (removedCookies source) request)) ↔
      ¬ Leaves P Q original request source := by
  simp only [JwtTokenLocation.Carries, values_place_of_elsewhere h, values_without h]
  cases source with
  | inQueryParam name => simp [Leaves, JwtTokenLocation.Carries]
  | _ => simp [Leaves]

/-- A token that is transformed is alone where its place is vacant and the other one has
left. -/
theorem onlyNewToken_transform_iff (hquery : ∀ name, location ≠ .inQueryParam name) :
    OnlyNewToken P Q source location original newToken
        (transformRequestSync P.toTextPlatform
          (some (transformInjection source location decodedToken newToken)) request) ↔
      Vacant P source request location ∧ Leaves P Q original request source := by
  rw [transformRequestSync_transformInjection]
  have hvacant : location.values P Q (place location newToken
        (without P (removedHeaders source location) (removedCookies source) request)) =
      [location.render newToken] ↔ Vacant P source request location := by
    rw [values_place_iff hquery, vacant_iff]
  constructor
  · intro honly
    constructor
    · exact hvacant.mp honly.arrives
    · by_cases hsame : source.SamePlace P location
      · cases source with
        | inQueryParam n =>
            cases location with
            | inQueryParam name => exact absurd rfl (hquery name)
            | _ => cases hsame
        | _ => trivial
      · by_contra hleaves
        exact honly.leaves hsame ((carries_place_without_iff hsame).mpr hleaves)
  · rintro ⟨hfree, hleaves⟩
    constructor
    · exact hvacant.mpr hfree
    · intro hsame hcarries
      exact (carries_place_without_iff hsame).mp hcarries hleaves

/-- The token of a request that was signed again is replaced, unless it goes to a query. -/
theorem onlyNewToken_resigned_iff {verifier : JwtVerifier Algorithm}
    (hdestination : verifier.destination = some location)
    (hquery : ∀ name, location ≠ .inQueryParam name) :
    OnlyNewToken P Q verifier.source location original newToken
        (transformRequestSync P.toTextPlatform (some (verifier.resigned decodedToken newToken))
          request) ↔
      verifier.Replaces P Q original request := by
  rw [JwtVerifier.destination] at hdestination
  rw [JwtVerifier.resigned, JwtVerifier.Replaces]
  cases hstrategy : verifier.strategy with
  | sign settings algoSettings =>
      rw [hstrategy] at hdestination
      cases hdestination
      exact onlyNewToken_sign_iff hquery
  | transform settings tSettings algoSettings =>
      rw [hstrategy] at hdestination
      cases hdestination
      exact onlyNewToken_transform_iff hquery
  | _ =>
      rw [hstrategy] at hdestination
      cases hdestination

/-- Nothing is written to a query. -/
theorem values_query_transformRequestSync (injection : JwtInjection) :
    (JwtTokenLocation.inQueryParam name).values P Q
        (transformRequestSync P.toTextPlatform (some injection) request) =
      (JwtTokenLocation.inQueryParam name).values P Q request := rfl

theorem not_replaces_of_query {verifier : JwtVerifier Algorithm}
    (hdestination : verifier.destination = some (.inQueryParam name)) :
    ¬ verifier.Replaces P Q original request := by
  rw [JwtVerifier.destination] at hdestination
  rw [JwtVerifier.Replaces]
  cases hstrategy : verifier.strategy with
  | sign settings algoSettings =>
      rw [hstrategy] at hdestination
      intro h
      rwa [Option.some.inj hdestination] at h
  | transform settings tSettings algoSettings =>
      rw [hstrategy] at hdestination
      intro h
      replace h := h.1
      rwa [Option.some.inj hdestination] at h
  | _ => exact id

end Locations

/-! ## Verification -/

section Verification

variable (P : JwtPlatform Algorithm) (Q : QueryPlatform) (verifier : JwtVerifier Algorithm)
  (request : Credentials.RequestHeader) (caller : Caller) (sendEvent : Bool)

/-- The platform with another signature. -/
def signedWith (signature : Algorithm → Str → Str → Except JwtException Str) :
    JwtPlatform Algorithm :=
  { P with signature }

/-- All but the signature of a token is the same for all of them. -/
theorem exists_sign_signedWith (token : JsObject) (algorithm : Algorithm) (kid : Option Str) :
    ∃ start, ∀ text, sign (signedWith P fun _ _ _ => .ok text) token algorithm kid =
      .ok (start ++ text) := by
  apply Exists.intro
  intro text
  simp only [sign, signedWith, ok_bind, pure_eq_ok]
  rfl

namespace JwtVerifier

variable {P verifier request caller sendEvent} {location : JwtTokenLocation}
  {decodedToken : DecodedJWT} {injection : JwtInjection} {state after : JwtState Algorithm}

/-- A token is accepted with the injection for the output token. With another signature, it
is accepted with another output token. -/
structure Resigns (P : JwtPlatform Algorithm)
    (run : JwtPlatform Algorithm → JwtRun Algorithm Verdict) (verifier : JwtVerifier Algorithm)
    (decodedToken : DecodedJWT) (injection : JwtInjection) (state after : JwtState Algorithm) :
    Prop where
  output : ∃ newToken, after.attrs.matchedRawOutputToken = some newToken ∧
    injection = verifier.resigned decodedToken newToken
  others : ∃ start, ∀ text, ∃ other,
    run (signedWith P fun _ _ _ => .ok text) state =
      (.ok (.ok (verifier.resigned decodedToken (start ++ text))), other) ∧
    other.attrs.matchedRawOutputToken = some (start ++ text)

theorem resigns_acceptSync (hdestination : verifier.destination = some location)
    (haccept : verifier.acceptSync P sendEvent decodedToken state = (.ok (.ok injection), after)) :
    verifier.Resigns P (fun P => verifier.acceptSync P sendEvent decodedToken) decodedToken
      injection state after := by
  rw [destination] at hdestination
  rw [acceptSync] at haccept
  cases hstrategy : verifier.strategy with
  | sign settings aSettings =>
      cases halgorithm : aSettings.asAlgorithm .output with
      | error e => simp [hstrategy, halgorithm] at haccept
      | ok found =>
      cases found with
      | none => simp [hstrategy, halgorithm] at haccept
      | some algorithm =>
      cases hpayload : jsonPayload P decodedToken with
      | error e => simp [hstrategy, halgorithm, hpayload] at haccept
      | ok jsonToken =>
      cases hsign : Jwt.sign P jsonToken algorithm aSettings.keyId with
      | error e => simp [hstrategy, halgorithm, hpayload, hsign] at haccept
      | ok newToken =>
          obtain ⟨start, hstart⟩ := exists_sign_signedWith P jsonToken algorithm aSettings.keyId
          have hpayload' : ∀ signature, jsonPayload (signedWith P signature) decodedToken =
            .ok jsonToken := fun _ => hpayload
          simp [hstrategy, halgorithm, hpayload, hsign, putTokens] at haccept
          constructor
          · use newToken
            rw [← haccept.2, ← haccept.1, resigned, hstrategy]
            exact ⟨rfl, rfl⟩
          · use start
            intro text
            simp [acceptSync, resigned, hstrategy, halgorithm, hpayload', hstart, putTokens]
  | transform settings tSettings aSettings =>
      cases halgorithm : aSettings.asAlgorithm .output with
      | error e => simp [hstrategy, halgorithm] at haccept
      | ok found =>
      cases found with
      | none => simp [hstrategy, halgorithm] at haccept
      | some algorithm =>
      cases hpayload : jsonPayload P decodedToken with
      | error e => simp [hstrategy, halgorithm, hpayload] at haccept
      | ok jsonToken =>
      cases htransform : transformToken P tSettings.mappingSettings state.attrs jsonToken with
      | error e =>
          simp [hstrategy, halgorithm, hpayload, htransform, Stateful.get_bind_apply] at haccept
      | ok newJsonToken =>
      cases hsign : Jwt.sign P newJsonToken algorithm aSettings.keyId with
      | error e =>
          simp [hstrategy, halgorithm, hpayload, htransform, hsign,
            Stateful.get_bind_apply] at haccept
      | ok newToken =>
          obtain ⟨start, hstart⟩ :=
            exists_sign_signedWith P newJsonToken algorithm aSettings.keyId
          have hpayload' : ∀ signature, jsonPayload (signedWith P signature) decodedToken =
            .ok jsonToken := fun _ => hpayload
          have htransform' : ∀ signature, transformToken (signedWith P signature)
            tSettings.mappingSettings state.attrs jsonToken = .ok newJsonToken :=
              fun _ => htransform
          simp [hstrategy, halgorithm, hpayload, htransform, hsign, putTokens,
            Stateful.get_bind_apply] at haccept
          constructor
          · use newToken
            rw [← haccept.2, ← haccept.1, resigned, hstrategy]
            exact ⟨rfl, rfl⟩
          · use start
            intro text
            simp [acceptSync, resigned, hstrategy, halgorithm, hpayload', htransform', hstart,
              putTokens, Stateful.get_bind_apply]
  | _ =>
      rw [hstrategy] at hdestination
      cases hdestination

theorem resigns_internalVerifySync {rawToken : Str}
    (hdestination : verifier.destination = some location)
    (htoken : verifier.source.token P request = .ok (some rawToken))
    (haccept : verifier.internalVerifySync P request caller sendEvent state =
      (.ok (.ok injection), after)) :
    ∃ decodedToken, verifier.Resigns P
      (fun P => verifier.internalVerifySync P request caller sendEvent) decodedToken injection
      state after := by
  have htoken' : ∀ signature, verifier.source.token (signedWith P signature) request =
    .ok (some rawToken) := fun _ => htoken
  cases hheader : tokenHeader P (stripBearer rawToken) with
  | error e => simp [internalVerifySync, presentSync, htoken, hheader] at haccept
  | ok header =>
  obtain ⟨kid, alg⟩ := header
  have hheader' : ∀ signature, tokenHeader (signedWith P signature) (stripBearer rawToken) =
    .ok (kid, alg) := fun _ => hheader
  cases halgorithm : verifier.algoSettings.asAlgorithm (.input alg kid) with
  | error e => simp [internalVerifySync, presentSync, htoken, hheader, halgorithm] at haccept
  | ok found =>
  cases found with
  | none => simp [internalVerifySync, presentSync, htoken, hheader, halgorithm] at haccept
  | some algorithm =>
  obtain ⟨result, middle, hcached⟩ :=
    cachedVerification_eq_ok P verifier algorithm (stripBearer rawToken) state
  have hcached' : ∀ signature, cachedVerification (signedWith P signature) verifier algorithm
    (stripBearer rawToken) state = (.ok result, middle) := fun _ => hcached
  cases result with
  | none =>
      simp [internalVerifySync, presentSync, htoken, hheader, halgorithm,
        Stateful.bind_of_ok hcached] at haccept
  | some decodedToken =>
      simp [internalVerifySync, presentSync, htoken, hheader, halgorithm,
        Stateful.bind_of_ok hcached] at haccept
      have hresigns := resigns_acceptSync hdestination haccept
      use decodedToken
      constructor
      · exact hresigns.output
      · obtain ⟨start, hothers⟩ := hresigns.others
        use start
        intro text
        obtain ⟨other, hrun, houtput⟩ := hothers text
        use other
        constructor
        · simp [internalVerifySync, presentSync, htoken', hheader', halgorithm,
            Stateful.bind_of_ok (hcached' _), hrun]
        · exact houtput

end JwtVerifier

/-- Whatever the signature is, the new token is all that the backend finds, if and only if the
request is one whose token gets replaced. -/
theorem onlyNewToken_iff (state : JwtState Algorithm) (otoroshiRequest : NgPluginHttpRequest)
    {location : JwtTokenLocation} {rawToken : Str} {accepted : JwtInjection}
    {final : JwtState Algorithm} (hdestination : verifier.destination = some location)
    (htoken : verifier.source.token P request = .ok (some rawToken))
    (haccept : verifier.internalVerifySync P request caller sendEvent state =
      (.ok (.ok accepted), final)) :
    (∀ signature injection after newToken,
      verifier.internalVerifySync (signedWith P signature) request caller sendEvent state =
          (.ok (.ok injection), after) →
        after.attrs.matchedRawOutputToken = some newToken →
          OnlyNewToken P Q verifier.source location (stripBearer rawToken) newToken
            (transformRequestSync P.toTextPlatform (some injection) otoroshiRequest)) ↔
      verifier.Replaces P Q (stripBearer rawToken) otoroshiRequest := by
  constructor
  · intro hevery
    obtain ⟨decodedToken, hresigns⟩ :=
      JwtVerifier.resigns_internalVerifySync hdestination htoken haccept
    obtain ⟨start, hothers⟩ := hresigns.others
    by_cases hquery : ∃ name, location = .inQueryParam name
    · obtain ⟨name, rfl⟩ := hquery
      -- the value that is there can not be every new token
      obtain ⟨first, hfirst, hfirstOutput⟩ := hothers []
      obtain ⟨second, hsecond, hsecondOutput⟩ := hothers "new".toList
      have hone := (hevery _ _ _ _ hfirst hfirstOutput).arrives
      have hother := (hevery _ _ _ _ hsecond hsecondOutput).arrives
      rw [values_query_transformRequestSync] at hone hother
      rw [hone] at hother
      simp [JwtTokenLocation.render] at hother
    · obtain ⟨other, hrun, houtput⟩ := hothers []
      exact (onlyNewToken_resigned_iff hdestination fun name hname => hquery ⟨name, hname⟩).mp
        (hevery _ _ _ _ hrun houtput)
  · intro hreplaces signature injection after newToken hrun hnew
    have htoken' : verifier.source.token (signedWith P signature) request =
      .ok (some rawToken) := htoken
    obtain ⟨decodedToken, hresigns⟩ :=
      JwtVerifier.resigns_internalVerifySync hdestination htoken' hrun
    obtain ⟨output, houtput, rfl⟩ := hresigns.output
    rw [houtput] at hnew
    cases hnew
    apply (onlyNewToken_resigned_iff hdestination _).mpr hreplaces
    rintro name rfl
    exact not_replaces_of_query hdestination hreplaces

end Verification

/-! ## An example -/

/-- No query is read. -/
def noQuery : QueryPlatform where
  query _ := []
  render _ := []

def backendRequest : NgPluginHttpRequest where
  uri := ⟨"/".toList, none⟩
  headers := [("X-JWT-Token".toList, "header.payload.old".toList)]

/-- Settings whose key is at hand. -/
def localSettings : AlgoSettings Unit where
  asAlgorithm _ := .ok (some ())

/-- A verifier that signs tokens again. -/
def localVerifier (source : JwtTokenLocation) : JwtVerifier Unit where
  id := "verifier".toList
  source
  algoSettings := localSettings
  strategy := .sign {} localSettings

/-- A token in a header is replaced by the one that is signed again. -/
theorem onlyNewToken_iff_example :
    OnlyNewToken tokenPlatform noQuery (.inHeader "X-JWT-Token".toList [])
      (.inHeader "X-JWT-Token".toList []) "header.payload.old".toList "..new".toList
      (transformRequestSync tokenPlatform.toTextPlatform
        (some { decodedToken := some ⟨"header.payload.old".toList, "payload".toList⟩,
                additionalHeaders := [("X-JWT-Token".toList, "..new".toList)] })
        backendRequest) := by
  apply (onlyNewToken_iff tokenPlatform noQuery
    (localVerifier (.inHeader "X-JWT-Token".toList [])) tokenRequest tokenCaller false {}
    backendRequest rfl rfl rfl).mpr _ tokenPlatform.signature _ _ _ rfl rfl
  intro header hmem _
  rw [List.mem_singleton.mp hmem]

def tokenCookie : Cookie where
  name := "token".toList
  value := "header.payload.old".toList

/-- A token in a cookie that is signed again goes along with the new one. -/
theorem exists_original_token :
    ¬ ∀ (Algorithm : Type) (P : JwtPlatform Algorithm) (Q : QueryPlatform)
      (verifier : JwtVerifier Algorithm) (request : Credentials.RequestHeader) (caller : Caller)
      (sendEvent : Bool) (state : JwtState Algorithm) (otoroshiRequest : NgPluginHttpRequest)
      (location : JwtTokenLocation) (rawToken newToken : Str) (injection : JwtInjection)
      (after : JwtState Algorithm),
      verifier.destination = some location →
        verifier.source.token P request = .ok (some rawToken) →
        verifier.internalVerifySync P request caller sendEvent state =
          (.ok (.ok injection), after) →
        after.attrs.matchedRawOutputToken = some newToken →
        OnlyNewToken P Q verifier.source location (stripBearer rawToken) newToken
          (transformRequestSync P.toTextPlatform (some injection) otoroshiRequest) := by
  intro h
  have honly := h Unit tokenPlatform noQuery (localVerifier (.inCookie "token".toList))
    { tokenRequest with headers := [], cookies := [tokenCookie] } tokenCaller false {}
    { backendRequest with headers := [], cookies := [tokenCookie] } _ _ _ _ _ rfl rfl rfl rfl
  exact absurd honly.arrives (by decide)

end Jwt

end Otoroshi
