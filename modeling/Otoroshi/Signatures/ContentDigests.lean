/-
# Digests of signed bodies

A signature can cover the `Content-Digest` of a request. The plugin then remembers that the
digest is to be checked, and compares the body with every digest of the header before the request
goes on. The header is read like the signatures are, and a header of spaces is read as no digest
at all: `checksBody_iff` says that this is the only header that lets an unchecked body pass.
-/

import Mathlib.Data.List.AList
import Otoroshi.Signatures.Acceptance

namespace Otoroshi

open HttpSigStructuredFields Stateful TextParser

variable {K J : Type} (P : SigEnv K J)

/-- The digests of the platform, for a name and a body. -/
abbrev MessageDigest := Str → List UInt8 → List UInt8

variable (messageDigest : MessageDigest)

namespace HttpSigContentDigest

def sha256 : Str := "sha-256".toList

def sha512 : Str := "sha-512".toList

def supportedAlgs : List Str := [sha256, sha512]

/-- `MessageDigest.getInstance(..).digest(body)` -/
def computed (normalized : Str) (body : List UInt8) : List UInt8 :=
  messageDigest (if normalized = sha256 then "SHA-256".toList else "SHA-512".toList) body

/-- The loop over the entries, with the algorithms that were checked so far. -/
def verifyEntries (body : List UInt8) :
    List (Str × List UInt8) → List Str → Except Str (List Str)
  | [], checked => .ok checked
  | (alg, bs) :: entries, checked =>
      let normalized := P.toLowerCase alg
      if !supportedAlgs.contains normalized then
        .error ("unsupported content-digest algorithm: ".toList ++ alg)
      else if computed messageDigest normalized body ≠ bs then
        .error ("content-digest mismatch for ".toList ++ alg)
      else verifyEntries body entries (checked ++ [normalized])

/-- The algorithms that were checked. -/
def verify (headerValue : Str) (body : List UInt8) : Except Str (List Str) :=
  match parseSignatureDict P.toCharPlatform headerValue with
  | .ok entries => verifyEntries P messageDigest body entries []
  | .error e => .error (e.getMessage P)

/-- The header lists this digest. -/
def Lists (headerValue : Str) (entry : Str × List UInt8) : Prop :=
  ∃ entries, parseSignatureDict P.toCharPlatform headerValue = .ok entries ∧ entry ∈ entries

/-- The body has the digest. -/
def Matches (body : List UInt8) (entry : Str × List UInt8) : Prop :=
  P.toLowerCase entry.1 ∈ supportedAlgs ∧
    computed messageDigest (P.toLowerCase entry.1) body = entry.2

end HttpSigContentDigest

open HttpSigContentDigest

/-- A request on its way to the target. -/
structure NgPluginHttpRequest where
  headers : AList fun _ : Str => Str
  body : List UInt8

def NgPluginHttpRequest.header (request : NgPluginHttpRequest) (name : Str) : Option Str :=
  (request.headers.lookup name).or (request.headers.lookup (P.toLowerCase name))

namespace HttpSignatureVerifyRequest

def contentDigest : Str := "Content-Digest".toList

/-- The request as it goes on, or the status and the details of a refusal. -/
def transformRequest (pending : Bool) (otoroshiRequest : NgPluginHttpRequest) :
    Except (Nat × Str) NgPluginHttpRequest :=
  if !pending then .ok otoroshiRequest
  else
    match otoroshiRequest.header P contentDigest with
    | none =>
        .error (401, "signature covers content-digest but Content-Digest header is missing".toList)
    | some digest =>
        let raw := otoroshiRequest.body
        match verify P messageDigest digest raw with
        | .error err => .error (401, "content-digest verification failed: ".toList ++ err)
        | .ok _ => .ok { otoroshiRequest with body := raw }

variable (config : HttpSignatureVerifyRequestConfig) (now : Long)

/-- What comes of a request that other plugins may change before it goes on. Another instance of
the plugin may have asked for a check already. -/
def forward (asked : Bool) (request : SigRequest) (otoroshiRequest : NgPluginHttpRequest) :
    Option (Except (Nat × Str) NgPluginHttpRequest) :=
  match access P config now request with
  | some (.allowed, pending) =>
      some (transformRequest P messageDigest (asked || pending) otoroshiRequest)
  | some (.denied status details, _) => some (.error (status, details))
  | none => none

/-- A request is accepted with the first of its signatures that holds. -/
def AcceptedWith (request : SigRequest) (candidate : Str × SignatureInputValue) : Prop :=
  ∃ inputs sigs before after covered, Parses P request inputs sigs ∧
    candidatesFor config inputs = before ++ candidate :: after ∧
    (∀ earlier ∈ before, ∃ message,
      verifyOne P config now earlier.1 earlier.2 (.fromRequest request) sigs =
        .error (.left message)) ∧
    verifyOne P config now candidate.1 candidate.2 (.fromRequest request) sigs = .ok covered

/-- A body that goes on has a digest that the header lists, and a header that lists none is
rejected. -/
structure ChecksBody (asked : Bool) (request : SigRequest)
    (otoroshiRequest : NgPluginHttpRequest) : Prop where
  compared : ∀ forwarded,
    forward P messageDigest config now asked request otoroshiRequest = some (.ok forwarded) →
    ∃ value entry, otoroshiRequest.header P contentDigest = some value ∧ Lists P value entry ∧
      Matches P messageDigest forwarded.body entry
  rejected : ∀ value, otoroshiRequest.header P contentDigest = some value →
    (∀ entry, ¬ Lists P value entry) →
    ∃ refusal, forward P messageDigest config now asked request otoroshiRequest =
      some (.error refusal)

end HttpSignatureVerifyRequest

/-! ## Empty headers -/

section Parse

variable {α : Type} {input : Str} {item : TextParser ParseError α} {hitem : TakesAtLeast 0 item}

/-- A loop that returns nothing had nothing to do. -/
theorem TextParser.whileDo_eq_nil_iff {continues : Str → Bool} {parser : TextParser ParseError α}
    {hparser : TakesAtLeast 1 parser} {text : Str} :
    (whileDo continues parser hparser text).1 = .ok [] ↔ continues text = false := by
  constructor
  · intro h
    by_contra hcontinues
    rw [whileDo, if_pos (by simpa using hcontinues)] at h
    split at h
    · split at h
      · exact List.cons_ne_nil _ _ (Except.ok.inj h)
      · cases h
    · cases h
  · intro h
    rw [whileDo_of_not h]

end Parse

namespace HttpSigContentDigest

variable {P} {raw : Str}

/-- A dictionary is empty if there is nothing in it but spaces. -/
theorem parseSignatureDict_eq_nil_iff {P : CharPlatform} :
    parseSignatureDict P raw = .ok [] ↔ ∀ c ∈ raw, isSpace c = true := by
  have hskip : skipSpaces raw = (.ok (), raw.dropWhile isSpace) := rfl
  rw [parseSignatureDict, readDict, bind_of_ok hskip, readEntries, whileDo_eq_nil_iff,
    ← List.dropWhile_eq_nil_iff, Bool.not_eq_false', List.isEmpty_iff]

variable {messageDigest : MessageDigest} {body : List UInt8}

/-- All entries are compared with the body. -/
theorem verifyEntries_eq_ok_iff {entries : List (Str × List UInt8)} {checked : List Str} :
    (∃ algs, verifyEntries P messageDigest body entries checked = .ok algs) ↔
      ∀ entry ∈ entries, Matches P messageDigest body entry := by
  induction entries generalizing checked with
  | nil => simp [verifyEntries]
  | cons entry entries ih =>
    rw [verifyEntries, List.forall_mem_cons, Matches]
    by_cases hsupported : P.toLowerCase entry.1 ∈ supportedAlgs
    · by_cases hsame : computed messageDigest (P.toLowerCase entry.1) body = entry.2
      · simp [hsupported, hsame, ih]
      · simp [hsupported, hsame]
    · simp [hsupported]

theorem verify_eq_ok_iff :
    (∃ algs, verify P messageDigest raw body = .ok algs) ↔
      ∃ entries, parseSignatureDict P.toCharPlatform raw = .ok entries ∧
        ∀ entry ∈ entries, Matches P messageDigest body entry := by
  rw [verify]
  cases parseSignatureDict P.toCharPlatform raw with
  | error e => simp
  | ok entries => simp [verifyEntries_eq_ok_iff]

/-- A body that passes has a digest of the header, unless the header is empty. -/
theorem exists_lists_of_verify {algs : List Str} (h : verify P messageDigest raw body = .ok algs)
    (hraw : ∃ c ∈ raw, isSpace c = false) :
    ∃ entry, Lists P raw entry ∧ Matches P messageDigest body entry := by
  obtain ⟨entries, hparse, hall⟩ := verify_eq_ok_iff.mp ⟨algs, h⟩
  cases entries with
  | nil =>
    obtain ⟨c, hc, hspace⟩ := hraw
    rw [parseSignatureDict_eq_nil_iff.mp hparse c hc] at hspace
    cases hspace
  | cons entry entries =>
    exact ⟨entry, ⟨_, hparse, List.mem_cons_self⟩, hall entry List.mem_cons_self⟩

/-- Where nothing is listed the header cannot be read, or is empty. -/
theorem verify_of_not_lists (h : ∀ entry, ¬ Lists P raw entry)
    (hraw : ∃ c ∈ raw, isSpace c = false) :
    ∃ err, verify P messageDigest raw body = .error err := by
  cases hverify : verify P messageDigest raw body with
  | error err => exact ⟨err, rfl⟩
  | ok algs =>
    obtain ⟨entry, hlists, -⟩ := exists_lists_of_verify hverify hraw
    exact absurd hlists (h entry)

/-- An empty header lets every body pass. -/
theorem verify_of_isSpace (h : ∀ c ∈ raw, isSpace c = true) :
    verify P messageDigest raw body = .ok [] := by
  rw [verify, parseSignatureDict_eq_nil_iff.mpr h]
  rfl

theorem not_lists_of_isSpace (h : ∀ c ∈ raw, isSpace c = true) (entry : Str × List UInt8) :
    ¬ Lists P raw entry := by
  rintro ⟨entries, hparse, hmem⟩
  rw [parseSignatureDict_eq_nil_iff.mpr h] at hparse
  cases hparse
  exact List.not_mem_nil hmem

end HttpSigContentDigest

/-! ## Signed bodies -/

namespace HttpSignatureVerifyRequest

variable {P messageDigest config now} {request : SigRequest}
  {otoroshiRequest : NgPluginHttpRequest} {candidate : Str × SignatureInputValue} {asked : Bool}

/-- The check is asked for by the signature with which the request is accepted. -/
theorem access_of_acceptedWith (h : AcceptedWith P config now request candidate) :
    access P config now request = some (.allowed, coversDigest P candidate.2) := by
  obtain ⟨inputs, sigs, before, after, covered, hparses, hlist, hbefore, hcandidate⟩ := h
  rw [access_eq_allowed_iff hparses, hlist]
  have hcovered : coversDigest P candidate.2 = covered := (verifyOne_eq_ok_iff.mp hcandidate).2
  rw [hcovered]
  refine firstOk_eq_ok_iff.mpr ⟨before, candidate, after, rfl, hcandidate, fun earlier hmem h => ?_⟩
  obtain ⟨message, hmessage⟩ := hbefore earlier hmem
  exact h message hmessage

theorem forward_of_acceptedWith (h : AcceptedWith P config now request candidate)
    (hcovers : coversDigest P candidate.2 = true) :
    forward P messageDigest config now asked request otoroshiRequest =
      some (transformRequest P messageDigest true otoroshiRequest) := by
  rw [forward, access_of_acceptedWith h, hcovers]
  simp only [Bool.or_true]

/-- A body is not checked against an empty header. -/
theorem not_checksBody_of_isSpace (h : AcceptedWith P config now request candidate)
    (hcovers : coversDigest P candidate.2 = true) {value : Str}
    (hvalue : otoroshiRequest.header P contentDigest = some value)
    (hspaces : ∀ c ∈ value, isSpace c = true) :
    ¬ ChecksBody P messageDigest config now asked request otoroshiRequest := by
  intro hchecks
  obtain ⟨refusal, hrefused⟩ := hchecks.rejected value hvalue (not_lists_of_isSpace hspaces)
  rw [forward_of_acceptedWith h hcovers, transformRequest, hvalue] at hrefused
  simp [verify_of_isSpace hspaces] at hrefused

/-- The body of a request that is accepted with a signature that covers its digest is checked if
and only if the header with the digest is not made of spaces only. -/
theorem checksBody_iff (h : AcceptedWith P config now request candidate)
    (hcovers : coversDigest P candidate.2 = true) :
    ChecksBody P messageDigest config now asked request otoroshiRequest ↔
      ∀ value, otoroshiRequest.header P contentDigest = some value →
        ∃ c ∈ value, isSpace c = false := by
  have hforward := @forward_of_acceptedWith _ _ P messageDigest config now request otoroshiRequest
    candidate asked h hcovers
  constructor
  · intro hchecks value hvalue
    by_contra hblank
    have hspaces : ∀ c ∈ value, isSpace c = true := by simpa using hblank
    exact not_checksBody_of_isSpace h hcovers hvalue hspaces hchecks
  · intro hraw
    constructor
    · intro forwarded hforwarded
      rw [hforward, Option.some.injEq, transformRequest] at hforwarded
      cases hvalue : otoroshiRequest.header P contentDigest with
      | none => simp [hvalue] at hforwarded
      | some value =>
        cases hverify : verify P messageDigest value otoroshiRequest.body with
        | error err => simp [hvalue, hverify] at hforwarded
        | ok algs =>
          obtain ⟨entry, hlists, hmatches⟩ := exists_lists_of_verify hverify (hraw value hvalue)
          simp only [hvalue, hverify, Bool.not_true, Bool.false_eq_true, if_false,
            Except.ok.injEq] at hforwarded
          exact ⟨value, entry, rfl, hlists, hforwarded ▸ hmatches⟩
    · intro value hvalue hnone
      obtain ⟨err, herr⟩ := @verify_of_not_lists _ _ P value messageDigest otoroshiRequest.body
        hnone (hraw value hvalue)
      rw [hforward, transformRequest, hvalue]
      simp only [Bool.not_true, Bool.false_eq_true, if_false, herr]
      exact ⟨_, rfl⟩

/-! ## Examples -/

theorem acceptedWith_exampleRequest (digest : Str) :
    AcceptedWith exampleEnv (exampleConfig [goodKey]) exampleNow
      (exampleRequest digest exampleNow) ("sig1".toList, exampleSignature exampleNow) := by
  have hacceptable := @acceptable_exampleSignature [goodKey] digest exampleNow
    (List.mem_singleton_self _) (by decide)
  have hthrough := hacceptable.letThrough
    (inTime_exampleSignature.mpr hacceptable.2.1) readable_goodKey
  exact ⟨_, _, [], [], true, parses_exampleRequest digest exampleNow, rfl,
    List.forall_mem_nil _, verifyOne_eq_ok_iff.mpr ⟨hthrough, rfl⟩⟩

/-- The digest of the empty body. -/
def emptyDigest : MessageDigest := fun _ _ =>
  [0xe3, 0xb0, 0xc4, 0x42, 0x98, 0xfc, 0x1c, 0x14, 0x9a, 0xfb, 0xf4, 0xc8, 0x99, 0x6f, 0xb9, 0x24,
    0x27, 0xae, 0x41, 0xe4, 0x64, 0x9b, 0x93, 0x4c, 0xa4, 0x95, 0x99, 0x1b, 0x78, 0x52, 0xb8, 0x55]

def requestWithDigest (digest : Str) : NgPluginHttpRequest where
  headers := (∅ : AList fun _ : Str => Str).insert contentDigest digest
  body := []

theorem header_requestWithDigest (digest : Str) :
    (requestWithDigest digest).header exampleEnv contentDigest = some digest := by
  rw [NgPluginHttpRequest.header, requestWithDigest, AList.lookup_insert]
  rfl

theorem checksBody_iff_example :
    ChecksBody exampleEnv emptyDigest (exampleConfig [goodKey]) exampleNow false
      (exampleRequest exampleDigest exampleNow) (requestWithDigest exampleDigest) := by
  refine (checksBody_iff (acceptedWith_exampleRequest exampleDigest) rfl).mpr ?_
  intro value hvalue
  rw [header_requestWithDigest, Option.some.injEq] at hvalue
  rw [← hvalue]
  exact ⟨'s', List.mem_cons_self, rfl⟩

/-- A signed request with a space for its digest is let through with any body. -/
theorem exists_not_checksBody :
    ¬ ChecksBody exampleEnv emptyDigest (exampleConfig [goodKey]) exampleNow false
      (exampleRequest [' '] exampleNow) (requestWithDigest [' ']) :=
  not_checksBody_of_isSpace (acceptedWith_exampleRequest [' ']) rfl
    (header_requestWithDigest [' ']) (List.forall_mem_singleton.mpr rfl)

end HttpSignatureVerifyRequest

end Otoroshi
