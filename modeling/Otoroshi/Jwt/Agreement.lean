/-
# The two copies of the verification

`verifyFromCache` and `verifyFromCacheSync` try the same verifiers in the same order, each
with its own copy of the decision. `agree_iff` says when they agree: nothing is thrown where
a verifier is tried, and the one that accepts is not an asynchronous one that signs the
token again. Such a verifier leaves the old token as the output token.
-/

import Otoroshi.Jwt.Verifier

namespace Otoroshi

namespace Jwt

open Credentials (TextPlatform Cookie)

variable {Algorithm : Type} (P : JwtPlatform Algorithm)

/-- Both runs end without an exception, with the same verdict and the same attributes. -/
def SameOutcome (first second : Except JwtException Verdict × JwtState Algorithm) : Prop :=
  first.1 = second.1 ∧ first.2.attrs = second.2.attrs ∧ ∃ verdict, second.1 = .ok verdict

def AlgoSettings.Agrees (settings : AlgoSettings Algorithm) : Prop :=
  settings.asAlgorithmF = settings.asAlgorithm

/-- The settings that the strategy signs with. -/
def VerifierStrategy.outputSettings : VerifierStrategy Algorithm → Option (AlgoSettings Algorithm)
  | sign _ settings => some settings
  | transform _ _ settings => some settings
  | _ => none

/-- The two ways to read the algorithms give the same one. -/
structure JwtVerifier.AlgorithmsAgree (verifier : JwtVerifier Algorithm) : Prop where
  input : verifier.algoSettings.Agrees
  output : ∀ settings, verifier.strategy.outputSettings = some settings → settings.Agrees

/-! ## When a verifier is tried without trouble -/

/-- If there is an algorithm, it signs the token, and the result is one that is allowed. -/
def Signs (settings : AlgoSettings Algorithm) (token : Except JwtException JsObject)
    (allowed : Str → Prop) : Prop :=
  ∃ found, settings.asAlgorithm .output = .ok found ∧ ∀ algorithm, found = some algorithm →
    ∃ jsonToken newToken, token = .ok jsonToken ∧
      sign P jsonToken algorithm settings.keyId = .ok newToken ∧ allowed newToken

namespace JwtVerifier

variable (async : Bool) (verifier : JwtVerifier Algorithm) (request : Credentials.RequestHeader)
  (caller : Caller) (sendEvent : Bool)

/-- A default token can be issued, if it has to be. -/
def MeetsAbsent (state : JwtState Algorithm) : Prop :=
  match verifier.strategy with
  | .defaultToken true newToken _ =>
      Signs P verifier.algoSettings (defaultToken P caller state.attrs newToken) fun _ => True
  | _ => True

/-- The payload is an object, and can be signed again. The result is the same token, if the
copy is the asynchronous one and the strategy is to sign. -/
def MeetsAccept (decodedToken : DecodedJWT) (state : JwtState Algorithm) : Prop :=
  match verifier.strategy with
  | .defaultToken true _ _ => True
  | .defaultToken false _ _ => ∃ jsonToken, jsonPayload P decodedToken = .ok jsonToken
  | .passThrough _ => ∃ jsonToken, jsonPayload P decodedToken = .ok jsonToken
  | .sign _ aSettings => Signs P aSettings (jsonPayload P decodedToken) fun newToken =>
      async = true → newToken = decodedToken.token
  | .transform _ tSettings aSettings =>
      Signs P aSettings
        (jsonPayload P decodedToken >>=
          transformToken P tSettings.mappingSettings state.attrs) fun _ => True

/-- The token has a header, an algorithm can be read for it, and a token that is verified
makes no trouble. -/
def MeetsPresent (rawToken : Str) (state : JwtState Algorithm) : Prop :=
  ∃ kid alg found, tokenHeader P (stripBearer rawToken) = .ok (kid, alg) ∧
    verifier.algoSettings.asAlgorithm (.input alg kid) = .ok found ∧
    ∀ algorithm, found = some algorithm → ∀ decodedToken after,
      cachedVerification P verifier algorithm (stripBearer rawToken) state =
        (.ok (some decodedToken), after) → verifier.MeetsAccept P async decodedToken after

/-- The verifier makes no trouble, whether there is a token or not. -/
def Meets (state : JwtState Algorithm) : Prop :=
  ∃ found, verifier.source.token P request = .ok found ∧
    (found = none → verifier.MeetsAbsent P caller state) ∧
    ∀ rawToken, found = some rawToken → verifier.MeetsPresent P async rawToken state

variable {async verifier} {state : JwtState Algorithm}

/-- One of the two copies. -/
def copy (async : Bool) (first second : JwtRun Algorithm Verdict) : JwtRun Algorithm Verdict :=
  if async then first else second

theorem copy_self (program : JwtRun Algorithm Verdict) : copy async program program = program :=
  ite_self program

theorem sameOutcome_self_iff {outcome : Except JwtException Verdict × JwtState Algorithm} :
    SameOutcome outcome outcome ↔ ∃ verdict, outcome.1 = .ok verdict :=
  ⟨fun h => h.2.2, fun h => ⟨rfl, rfl, h⟩⟩

/-- A verification is cached or not, and never throws. -/
theorem cachedVerification_eq_ok (verifier : JwtVerifier Algorithm) (algorithm : Algorithm)
    (token : Str) (state : JwtState Algorithm) :
    ∃ result after, cachedVerification P verifier algorithm token state = (.ok result, after) := by
  simp only [cachedVerification]
  split_ifs with hexpression
  · exact ⟨_, _, rfl⟩
  · cases state.signatureCache.lookup (verificationCacheKey P verifier.id token) <;>
      exact ⟨_, _, rfl⟩

/-- Where there is no token, the copies do the same. -/
theorem absentAsync_eq_absentSync (hagree : verifier.AlgorithmsAgree) :
    verifier.absentAsync P caller sendEvent = verifier.absentSync P caller sendEvent := by
  have hinput : verifier.algoSettings.asAlgorithmF = verifier.algoSettings.asAlgorithm :=
    hagree.input
  rw [absentAsync, absentSync, hinput]

theorem sameOutcome_absent_iff :
    (∃ verdict, (verifier.absentSync P caller sendEvent state).1 = .ok verdict) ↔
      verifier.MeetsAbsent P caller state := by
  rw [absentSync, MeetsAbsent]
  cases verifier.strategy with
  | defaultToken strict newToken settings =>
      cases strict with
      | false => simp
      | true =>
          cases halgorithm : verifier.algoSettings.asAlgorithm .output with
          | error e => simp [Signs, halgorithm]
          | ok found =>
              cases found with
              | none => simp [Signs, halgorithm]
              | some algorithm =>
                  cases hdefault : defaultToken P caller state.attrs newToken with
                  | error e => simp [Signs, halgorithm, hdefault, Stateful.get_bind_apply]
                  | ok token =>
                      cases hsign : sign P token algorithm verifier.algoSettings.keyId with
                      | error e =>
                          simp [Signs, halgorithm, hdefault, hsign, Stateful.get_bind_apply]
                      | ok newToken =>
                          simp [Signs, halgorithm, hdefault, hsign, Stateful.get_bind_apply,
                            putTokens]
  | passThrough settings => cases verifier.strict <;> simp
  | sign settings aSettings => cases verifier.strict <;> simp
  | transform settings tSettings aSettings => cases verifier.strict <;> simp

/-- Where a token was verified, the copies do the same, but for a token that is signed
again. -/
theorem sameOutcome_accept_iff (hagree : verifier.AlgorithmsAgree) (decodedToken : DecodedJWT) :
    SameOutcome
        (copy async (verifier.acceptAsync P sendEvent decodedToken)
          (verifier.acceptSync P sendEvent decodedToken) state)
        (verifier.acceptSync P sendEvent decodedToken state) ↔
      verifier.MeetsAccept P async decodedToken state := by
  have houtput := hagree.output
  rw [acceptAsync, acceptSync, MeetsAccept]
  cases hstrategy : verifier.strategy with
  | defaultToken strict newToken settings =>
      cases strict with
      | true => simp [copy_self, sameOutcome_self_iff]
      | false =>
          rw [copy_self, sameOutcome_self_iff]
          cases hpayload : jsonPayload P decodedToken <;> simp [putTokens]
  | passThrough settings =>
      rw [copy_self, sameOutcome_self_iff]
      cases hpayload : jsonPayload P decodedToken <;> simp [putTokens]
  | sign settings aSettings =>
      have hsame : aSettings.asAlgorithmF = aSettings.asAlgorithm :=
        houtput aSettings (by rw [hstrategy]; rfl)
      simp only [hsame]
      cases halgorithm : aSettings.asAlgorithm .output with
      | error e => cases async <;> simp [Signs, halgorithm, copy, SameOutcome]
      | ok found =>
          cases found with
          | none => cases async <;> simp [Signs, halgorithm, copy, SameOutcome]
          | some algorithm =>
              cases hpayload : jsonPayload P decodedToken with
              | error e => cases async <;> simp [Signs, halgorithm, copy, SameOutcome]
              | ok jsonToken =>
                  cases hsign : Jwt.sign P jsonToken algorithm aSettings.keyId with
                  | error e =>
                      cases async <;> simp [Signs, halgorithm, hsign, copy, SameOutcome]
                  | ok newToken =>
                      cases async <;>
                        simp [Signs, halgorithm, hsign, copy, SameOutcome, putTokens, eq_comm]
  | transform settings tSettings aSettings =>
      have hsame : aSettings.asAlgorithmF = aSettings.asAlgorithm :=
        houtput aSettings (by rw [hstrategy]; rfl)
      simp only [hsame, copy_self, sameOutcome_self_iff]
      cases halgorithm : aSettings.asAlgorithm .output with
      | error e => simp [Signs, halgorithm]
      | ok found =>
          cases found with
          | none => simp [Signs, halgorithm]
          | some algorithm =>
              cases hpayload : jsonPayload P decodedToken with
              | error e => simp [Signs, halgorithm]
              | ok jsonToken =>
                  cases htransform : transformToken P tSettings.mappingSettings state.attrs
                      jsonToken with
                  | error e => simp [Signs, halgorithm, htransform, Stateful.get_bind_apply]
                  | ok newJsonToken =>
                      cases hsign : Jwt.sign P newJsonToken algorithm aSettings.keyId <;>
                        simp [Signs, halgorithm, htransform, hsign, Stateful.get_bind_apply,
                          putTokens]

theorem sameOutcome_present_iff (hagree : verifier.AlgorithmsAgree) (rawToken : Str) :
    SameOutcome
        (copy async (verifier.presentAsync P sendEvent rawToken)
          (verifier.presentSync P sendEvent rawToken) state)
        (verifier.presentSync P sendEvent rawToken state) ↔
      verifier.MeetsPresent P async rawToken state := by
  have hinput : verifier.algoSettings.asAlgorithmF = verifier.algoSettings.asAlgorithm :=
    hagree.input
  rw [presentAsync, presentSync, MeetsPresent, hinput]
  cases hheader : tokenHeader P (stripBearer rawToken) with
  | error e => cases async <;> simp [copy, SameOutcome]
  | ok header =>
      obtain ⟨kid, alg⟩ := header
      cases halgorithm : verifier.algoSettings.asAlgorithm (.input alg kid) with
      | error e => cases async <;> simp [copy, SameOutcome, halgorithm]
      | ok found =>
          cases found with
          | none => cases async <;> simp [copy, SameOutcome, halgorithm]
          | some algorithm =>
              obtain ⟨result, after, hcached⟩ :=
                cachedVerification_eq_ok P verifier algorithm (stripBearer rawToken) state
              cases result with
              | none =>
                  cases async <;>
                    simp [copy, SameOutcome, halgorithm, Stateful.bind_of_ok hcached, hcached]
              | some decodedToken =>
                  have haccept := @sameOutcome_accept_iff Algorithm P async verifier sendEvent
                    after hagree decodedToken
                  cases async <;>
                    simpa [copy, halgorithm, hcached, Stateful.bind_of_ok hcached] using haccept

/-- One verifier: what it takes for the copies to agree. -/
theorem sameOutcome_iff (hagree : verifier.AlgorithmsAgree) :
    SameOutcome
        (copy async (verifier.internalVerifyAsync P request caller sendEvent)
          (verifier.internalVerifySync P request caller sendEvent) state)
        (verifier.internalVerifySync P request caller sendEvent state) ↔
      verifier.Meets P async request caller state := by
  rw [internalVerifyAsync, internalVerifySync, Meets]
  cases htoken : verifier.source.token P request with
  | error e => cases async <;> simp [copy, SameOutcome]
  | ok found =>
      cases found with
      | none =>
          have habsent := @sameOutcome_absent_iff Algorithm P verifier caller sendEvent state
          rw [absentAsync_eq_absentSync P caller sendEvent hagree]
          cases async <;> simpa [copy, sameOutcome_self_iff] using habsent
      | some rawToken =>
          have hpresent := @sameOutcome_present_iff Algorithm P async verifier sendEvent state
            hagree rawToken
          cases async <;> simpa [copy] using hpresent

/-! ## What the copies have in common -/

/-- The outcomes are the same, but perhaps for the attributes of a request that is
accepted. -/
def Close (first second : Except JwtException Verdict × JwtState Algorithm) : Prop :=
  first = second ∨ ∃ injection attrs, second.1 = .ok (.ok injection) ∧
    first = (second.1, { second.2 with attrs })

theorem close_accept (hagree : verifier.AlgorithmsAgree) (decodedToken : DecodedJWT) :
    Close
      (copy async (verifier.acceptAsync P sendEvent decodedToken)
        (verifier.acceptSync P sendEvent decodedToken) state)
      (verifier.acceptSync P sendEvent decodedToken state) := by
  have houtput := hagree.output
  rw [acceptAsync, acceptSync]
  cases hstrategy : verifier.strategy with
  | defaultToken strict newToken settings =>
      cases strict <;> exact .inl (congrFun (copy_self _) state)
  | passThrough settings => exact .inl (congrFun (copy_self _) state)
  | sign settings aSettings =>
      have hsame : aSettings.asAlgorithmF = aSettings.asAlgorithm :=
        houtput aSettings (by rw [hstrategy]; rfl)
      simp only [hsame]
      cases async with
      | false => exact .inl rfl
      | true =>
          cases halgorithm : aSettings.asAlgorithm .output with
          | error e => exact .inl rfl
          | ok found =>
              cases found with
              | none => exact .inl rfl
              | some algorithm =>
                  cases hpayload : jsonPayload P decodedToken with
                  | error e => exact .inl rfl
                  | ok jsonToken =>
                      cases hsign : Jwt.sign P jsonToken algorithm aSettings.keyId with
                      | error e =>
                          left
                          simp [copy, hsign]
                      | ok newToken =>
                          right
                          simp [copy, hsign, putTokens]
  | transform settings tSettings aSettings =>
      have hsame : aSettings.asAlgorithmF = aSettings.asAlgorithm :=
        houtput aSettings (by rw [hstrategy]; rfl)
      simp only [hsame]
      exact .inl (congrFun (copy_self _) state)

theorem close_present (hagree : verifier.AlgorithmsAgree) (rawToken : Str) :
    Close
      (copy async (verifier.presentAsync P sendEvent rawToken)
        (verifier.presentSync P sendEvent rawToken) state)
      (verifier.presentSync P sendEvent rawToken state) := by
  have hinput : verifier.algoSettings.asAlgorithmF = verifier.algoSettings.asAlgorithm :=
    hagree.input
  rw [presentAsync, presentSync, hinput]
  cases hheader : tokenHeader P (stripBearer rawToken) with
  | error e => cases async <;> exact .inl rfl
  | ok header =>
      obtain ⟨kid, alg⟩ := header
      cases halgorithm : verifier.algoSettings.asAlgorithm (.input alg kid) with
      | error e => cases async <;> simp [copy, halgorithm, Close]
      | ok found =>
          cases found with
          | none => cases async <;> simp [copy, halgorithm, Close]
          | some algorithm =>
              obtain ⟨result, after, hcached⟩ :=
                cachedVerification_eq_ok P verifier algorithm (stripBearer rawToken) state
              cases result with
              | none =>
                  cases async <;> simp [copy, halgorithm, Stateful.bind_of_ok hcached, Close]
              | some decodedToken =>
                  have haccept := @close_accept Algorithm P async verifier sendEvent after hagree
                    decodedToken
                  cases async <;>
                    simpa [copy, halgorithm, Stateful.bind_of_ok hcached] using haccept

theorem close_internalVerify (hagree : verifier.AlgorithmsAgree) :
    Close
      (copy async (verifier.internalVerifyAsync P request caller sendEvent)
        (verifier.internalVerifySync P request caller sendEvent) state)
      (verifier.internalVerifySync P request caller sendEvent state) := by
  rw [internalVerifyAsync, internalVerifySync]
  cases htoken : verifier.source.token P request with
  | error e => cases async <;> exact .inl rfl
  | ok found =>
      cases found with
      | none =>
          rw [absentAsync_eq_absentSync P caller sendEvent hagree]
          cases async <;> exact .inl rfl
      | some rawToken =>
          have hpresent := @close_present Algorithm P async verifier sendEvent state hagree
            rawToken
          cases async <;> simpa [copy] using hpresent

/-- The copy that is chosen makes the trouble that the synchronous one does not. -/
theorem internalVerify_eq_copy : verifier.internalVerify P request caller sendEvent =
    copy verifier.isAsync (verifier.internalVerifyAsync P request caller sendEvent)
      (verifier.internalVerifySync P request caller sendEvent) := rfl

end JwtVerifier

/-! ## Several verifiers -/

namespace RefJwtVerifier

variable (refs : RefJwtVerifier Algorithm) (request : Credentials.RequestHeader) (requestId : Str)
  (caller : Caller)

/-- Every verifier that is tried makes no trouble. The next one is tried where it refuses. -/
def MeetsAlong : List Str → JwtState Algorithm → Prop
  | [], _ => True
  | ref :: rest, state =>
      match state.verificationCache.lookup (queueKey requestId ref) with
      | some _ => MeetsAlong rest state
      | none =>
          match refs.jwtVerifier ref with
          | some verifier =>
              verifier.Meets P verifier.isAsync request caller state ∧
                ∀ result after, verifier.internalVerifySync P request caller rest.isEmpty state =
                  (.ok (.error result), after) →
                    MeetsAlong rest { after with verificationCache :=
                      after.verificationCache.insert (queueKey requestId ref) result }
          | none =>
              MeetsAlong rest { state with verificationCache :=
                state.verificationCache.insert (queueKey requestId ref) badVerifierId }

variable {refs}

/-- After a refusal, the rest of the list decides. -/
theorem sameOutcome_refused_iff {rest : List Str} {state : JwtState Algorithm}
    {async sync : JwtRun Algorithm Verdict} {meets : Prop} (result : Rejection)
    (hrest : rest.isEmpty = true → meets) (h : SameOutcome (async state) (sync state) ↔ meets) :
    SameOutcome
        ((if rest.isEmpty then return .error result else async : JwtRun Algorithm Verdict) state)
        ((if rest.isEmpty then return .error result else sync : JwtRun Algorithm Verdict) state) ↔
      meets := by
  by_cases hempty : rest.isEmpty = true
  · simp [hempty, SameOutcome, hrest hempty]
  · simpa [hempty] using h

theorem meetsAlong_of_isEmpty {rest : List Str} (h : rest.isEmpty = true)
    (state : JwtState Algorithm) : refs.MeetsAlong P request requestId caller rest state := by
  rw [List.isEmpty_iff.mp h]
  trivial

theorem sameOutcome_dequeueNext_iff
    (hagree : ∀ ref verifier, refs.jwtVerifier ref = some verifier → verifier.AlgorithmsAgree)
    (ids : List Str) (last : Verdict) (state : JwtState Algorithm) :
    SameOutcome (refs.dequeueNext P request requestId caller ids last state)
        (refs.dequeueNextSync P request requestId caller ids last state) ↔
      refs.MeetsAlong P request requestId caller ids state := by
  induction ids generalizing last state with
  | nil => simp [dequeueNext, dequeueNextSync, MeetsAlong, SameOutcome]
  | cons ref rest ih =>
      rw [dequeueNext, dequeueNextSync, MeetsAlong, Stateful.get_bind_apply,
        Stateful.get_bind_apply]
      cases hcached : state.verificationCache.lookup (queueKey requestId ref) with
      | some result => exact ih _ state
      | none =>
          cases hverifier : refs.jwtVerifier ref with
          | none =>
              exact sameOutcome_refused_iff badVerifierId
                (fun hempty => meetsAlong_of_isEmpty P request requestId caller hempty _) (ih _ _)
          | some verifier =>
              have hverify := hagree ref verifier hverifier
              have hiff := @JwtVerifier.sameOutcome_iff Algorithm P verifier.isAsync verifier
                request caller rest.isEmpty state hverify
              have hclose := @JwtVerifier.close_internalVerify Algorithm P verifier.isAsync verifier
                request caller rest.isEmpty state hverify
              rw [← JwtVerifier.internalVerify_eq_copy] at hiff hclose
              rcases hsync : verifier.internalVerifySync P request caller rest.isEmpty state
                with ⟨result, after⟩
              rw [hsync] at hiff hclose
              cases hclose with
              | inl heq =>
                  rw [heq, JwtVerifier.sameOutcome_self_iff] at hiff
                  cases result with
                  | error e =>
                      simp [Stateful.bind_of_error heq, Stateful.bind_of_error hsync, SameOutcome,
                        ← hiff]
                  | ok verdict =>
                      simp only [Stateful.bind_of_ok heq, Stateful.bind_of_ok hsync, ← hiff]
                      cases verdict with
                      | ok injection => simp [SameOutcome, hsync]
                      | error result =>
                          have hrest := @sameOutcome_refused_iff Algorithm rest
                            { after with verificationCache :=
                              after.verificationCache.insert (queueKey requestId ref) result }
                            _ _ _ result
                            (fun hempty =>
                              meetsAlong_of_isEmpty P request requestId caller hempty _)
                            (ih (.error result) _)
                          simpa [hsync, putFailed] using hrest
              | inr hattrs =>
                  obtain ⟨injection, attrs, haccepted, hfirst⟩ := hattrs
                  cases haccepted
                  rw [hfirst] at hiff
                  simp only [Stateful.bind_of_ok hfirst, Stateful.bind_of_ok hsync, ← hiff]
                  simp [hsync]

end RefJwtVerifier

/-- A platform with one token, whose parts are texts that stand for themselves. -/
def tokenPlatform : JwtPlatform Unit where
  toLowerCase s := s.map Char.toLower
  decodeBase64 _ := none
  decodeJwt _ := none
  digit := asciiDigit
  removeAll _ value := some value
  parse text := if text = "payload".toList then some (.object []) else none
  stringify _ := []
  numberText _ := []
  encode text := text
  sha256 text := text
  verify _ _ _ token := if token = "header.payload.old".toList then some "payload".toList else none
  algorithmName _ := "HS256".toList
  signature _ _ _ := .ok "new".toList
  payloadOf _ := "payload".toList
  evaluate _ _ value := value

/-- Settings whose key has to be fetched. -/
def remoteSettings : AlgoSettings Unit where
  isAsync := true
  asAlgorithm _ := .ok (some ())

def tokenRequest : Credentials.RequestHeader where
  method := "GET".toList
  theProtocol := "https".toList
  theHost := "api.oto.tools".toList
  relativeUri := "/".toList
  headers := [("X-JWT-Token".toList, "header.payload.old".toList)]

def tokenCaller : Caller where
  uuid := "uuid".toList
  currentTime := 0

/-- A verifier with remote keys. -/
def remoteVerifier (strategy : VerifierStrategy Unit) : JwtVerifier Unit where
  id := "verifier".toList
  source := .inHeader "X-JWT-Token".toList []
  algoSettings := remoteSettings
  strategy

def remoteRefs (strategy : VerifierStrategy Unit) : RefJwtVerifier Unit where
  ids := ["verifier".toList]
  jwtVerifier _ := some (remoteVerifier strategy)

theorem algorithmsAgree_remoteVerifier {settings : VerificationSettings} :
    (remoteVerifier (.passThrough settings)).AlgorithmsAgree ∧
      (remoteVerifier (.sign settings remoteSettings)).AlgorithmsAgree := by
  constructor
  · exact ⟨rfl, fun _ h => by cases h⟩
  · exact ⟨rfl, fun _ h => by cases h; rfl⟩

end Jwt

end Otoroshi
