/-
# Server certificates

A certificate is stored with its chain as a text. What is known about it (its names,
its dates, whether it is an authority) is read from the first certificate of that
chain, and `enrich` copies it into the fields.

A name that starts with `*.` stands for the domains with one more label in front.
-/

import Otoroshi.Foundation.Fallible
import Otoroshi.Foundation.Sorting
import Otoroshi.Foundation.Text
import Mathlib.Logic.Function.Basic

namespace Otoroshi.Tls

/-- The exceptions of the modelled code: `None.get`, `tail` of an empty sequence, and a
sort that finds its comparator to be no order. -/
inductive TlsException
  | noSuchElement
  | unsupportedOperation
  | illegalArgument
  deriving DecidableEq

/-- `CertificateData`: what an X.509 certificate says. Dates are milliseconds. -/
structure CertificateData where
  domain : Str
  selfSigned : Bool := false
  ca : Bool := false
  subjectDN : Str := []
  notBefore : Int
  notAfter : Int
  subAltNames : List Str := []

structure Cert where
  id : Str
  chain : Str
  privateKey : Str := []
  domain : Str := "--".toList
  selfSigned : Bool := false
  ca : Bool := false
  valid : Bool := false
  revoked : Bool := false
  client : Bool := false
  keypair : Bool := false
  subject : Str := "--".toList
  validFrom : Int := 0
  validTo : Int := 0
  sans : List Str := []
  deriving DecidableEq

/-- What comes with the platform: reading the first certificate of a chain, with `none`
where there is none or it cannot be read, and the test of a key store. -/
structure Platform where
  certificateData : Str → Option CertificateData
  isValid : Cert → Bool

/-- A test in the code on certificates. -/
abbrev Test := Except TlsException Bool

namespace Cert

variable (P : Platform) (cert : Cert)

/-- `metadata`. -/
def metadata : Option CertificateData := P.certificateData cert.chain

/-- `enrich`. -/
def enrich : Except TlsException Cert :=
  match cert.metadata P with
  | none => .error .noSuchElement
  | some data => .ok { cert with
      domain := data.domain
      selfSigned := data.selfSigned
      ca := data.ca
      valid := P.isValid cert
      subject := data.subjectDN
      validFrom := data.notBefore
      validTo := data.notAfter
      sans := data.subAltNames }

/-- `allDomains`. -/
def allDomains : List Str :=
  let theDomain := ((cert.metadata P).map (·.domain)).getD cert.domain
  let theSans := ((cert.metadata P).map (·.subAltNames)).getD cert.sans
  (((theDomain :: theSans).filter fun name => !isBlank name).filter (· != "--".toList)).eraseDups

/-- `sanMatchesDomain`. The labels behind the first one are compared as a text, without
the empty labels at the end. -/
def sanMatchesDomain (dom san : Str) : Test :=
  if startsWith san "*.".toList then
    (return endsWith dom (san.drop 1)) <&&>
      match split '.' dom with
      | [] => .error .unsupportedOperation
      | _ :: labels => return List.intercalate ".".toList labels == san.drop 2
  else return dom == san

def notRevoked : Bool := !cert.revoked

def notExpired (now : Int) : Bool := cert.validFrom < now && now < cert.validTo

/-- The filter of `validCertificates`. -/
def isServable (now : Int) : Bool :=
  cert.notRevoked && cert.notExpired now && !cert.ca && !cert.keypair

theorem nodup_allDomains : (cert.allDomains P).Nodup := nodup_eraseDups _

/-- A name without a wildcard in front only stands for itself. -/
theorem sanMatchesDomain_of_not_wildcard {dom san : Str}
    (h : startsWith san "*.".toList = false) : sanMatchesDomain dom san = .ok (dom == san) := by
  rw [sanMatchesDomain, h, if_neg Bool.false_ne_true, pure_eq_ok]

end Cert

/-! ## The certificates of a key manager -/

/-- `validCertificates`: the certificates that can be served, the one that expires last
first. -/
def validCertificates (P : Platform) (now : Int) (allCertificates : List Cert) :
    Except TlsException (List Cert) := do
  let enriched ← allCertificates.mapM (Cert.enrich P)
  return sortWith (fun c1 c2 => decide (c2.validTo < c1.validTo))
    (enriched.filter (·.isServable now))

/-- The candidates of a list: each certificate under each of its names. -/
def candidates (P : Platform) (validCerts : List Cert) : List (Str × Cert) :=
  validCerts.flatMap fun cert => (cert.allDomains P).map fun domain => (domain, cert)

/-- The index of a list of certificates, in which the last write of a name stays. -/
def indexOf (P : Platform) (certs : List Cert) (domain : Str) : Option Cert :=
  (candidates P certs).reverse.lookup domain

/-- `validCertificatesByDomains`: the list and its index. -/
def validCertificatesByDomains (P : Platform) (now : Int) (allCertificates : List Cert) :
    Except TlsException (List Cert × (Str → Option Cert)) := do
  let validCerts ← validCertificates P now allCertificates
  return (validCerts, indexOf P validCerts)

structure TlsSettings where
  defaultDomain : Option Str := none
  randomIfNotFound : Bool := false

/-- The comparator of candidates: names without a star first, then longer names. -/
def comesBefore (first second : Str × Cert) : Bool :=
  if first.1.contains '*' && second.1.contains '*' then second.1.length < first.1.length
  else if first.1.contains '*' && !second.1.contains '*' then false
  else true

/-- How the platform sorts candidates. -/
abbrev CandidateSort :=
  (Str × Cert → Str × Cert → Bool) → List (Str × Cert) → Except TlsException (List (Str × Cert))

section Lookup

variable (P : Platform) (sort : CandidateSort) (validCerts : List Cert)

/-- `filter` with a test that can fail. -/
def filterCandidates (test : Str → Test) :
    List (Str × Cert) → Except TlsException (List (Str × Cert))
  | [] => .ok []
  | candidate :: rest => do
      let keep ← test candidate.1
      let kept ← filterCandidates test rest
      return if keep then candidate :: kept else kept

/-- The first of the candidates for a domain. -/
def firstCandidate (domain : Str) : Except TlsException (Option Cert) := do
  let found ← filterCandidates (Cert.sanMatchesDomain domain) (candidates P validCerts)
  let sorted ← sort comesBefore found
  return (sorted.map Prod.snd).head?

/-- What `getServerCertificateForDomain` finds without its cache. -/
def findServerCertificate (certsByDomains : Str → Option Cert) (tlsSettings : TlsSettings)
    (domain : Str) : Except TlsException (Option Cert) := do
  let maybeCert ← match certsByDomains domain with
    | some cert => pure (some cert)
    | none => do
        match ← firstCandidate P sort validCerts domain with
        | some cert => pure (some cert)
        | none =>
            match tlsSettings.defaultDomain with
            | none => pure none
            | some dd => firstCandidate P sort validCerts dd
  match maybeCert with
  | some cert => return some cert
  | none =>
      if tlsSettings.randomIfNotFound then return (validCerts.filter (!·.client)).head?
      else return none

/-- The cache of the domains that were asked for. -/
abbrev DomainCache := Str → Option Cert

/-- `getServerCertificateForDomain`: what is in the cache, or what is found, which is
put there. -/
def getServerCertificateForDomain (certsByDomains : Str → Option Cert)
    (tlsSettings : TlsSettings) (domain : Str) (cache : DomainCache) :
    Except TlsException (Option Cert × DomainCache) :=
  match cache domain with
  | some cert => .ok (some cert, cache)
  | none => do
      let found ← findServerCertificate P sort validCerts certsByDomains tlsSettings domain
      match found with
      | some cert => return (some cert, Function.update cache domain (some cert))
      | none => return (none, cache)

end Lookup

end Otoroshi.Tls
