/-
# Handshakes of several key managers

A handshake asks its key manager for a certificate chain and for a private key, in two
calls. Both look the domain up in one cache that all key managers share, which keeps a
certificate for some seconds, whoever put it there.

`together_of_meets` says for which runs the two answers of a handshake come from one
certificate of its own manager: those in which no lookup finds the certificate of
another manager, and no entry changes under a handshake whose manager has no
certificate for the domain.
-/

import Otoroshi.Foundation.Run
import Otoroshi.Tls.BestCertificate

namespace Otoroshi.Tls

/-- The settings that a key manager reads. -/
structure GlobalConfig where
  tlsSettings : TlsSettings := {}
  autoCertEnabled : Bool := false
  replyNicely : Bool := false
  autoCertMatches : Str → Bool := fun _ => false

/-- A key manager, with the lists it was built with. -/
structure DynamicKeyManager (P : Platform) where
  client : Bool := false
  now : Int
  allCertificates : List Cert
  validCerts : List Cert
  certsByDomains : Str → Option Cert
  built : validCertificatesByDomains P now allCertificates = .ok (validCerts, certsByDomains)

/-- One handshake of a manager, for one domain. -/
structure Handshake (P : Platform) where
  id : Nat
  manager : DynamicKeyManager P
  domain : Str

/-- What is shared by all managers, with the answers that were given: `none` stands for
the answer of the underlying manager. -/
structure Handshakes (P : Platform) where
  cache : DomainCache := fun _ => none
  generated : List (Str × Cert) := []
  answers : List (Handshake P × Option Cert) := []
  finished : List (Handshake P) := []

/-- What happens: the calls of a handshake, its end, and the end of a cache entry. A
manager without a certificate may have one generated. -/
inductive Event (P : Platform)
  | chooseEngineServerAlias (handshake : Handshake P) (generated : Option Cert)
  | getCertificateChain (handshake : Handshake P)
  | getPrivateKey (handshake : Handshake P)
  | finish (handshake : Handshake P)
  | expire (domain : Str)

variable {P : Platform} (sort : CandidateSort) (config : GlobalConfig)
  (matchesIssuers : Cert → Str → Bool)

namespace DynamicKeyManager

variable (manager : DynamicKeyManager P)

/-- What a client manager finds for the names of some issuers. -/
def findClientCert (domain : Str) : Option Cert :=
  if manager.allCertificates.isEmpty then none
  else if manager.allCertificates.length == 1 then manager.allCertificates.head?
  else (sortWith (fun c1 c2 => decide (c2.validTo < c1.validTo))
    (manager.validCerts.filter fun cert => matchesIssuers cert domain)).head?

/-- `findCertMatching`. -/
def findCertMatching (domain : Str) (cache : DomainCache) :
    Except TlsException (Option Cert × DomainCache) :=
  if manager.client then .ok (manager.findClientCert matchesIssuers domain, cache)
  else getServerCertificateForDomain P sort manager.validCerts manager.certsByDomains
    config.tlsSettings domain cache

/-- What the manager finds by itself. -/
def ownCert (domain : Str) : Except TlsException (Option Cert) :=
  if manager.client then .ok (manager.findClientCert matchesIssuers domain)
  else findServerCertificate P sort manager.validCerts manager.certsByDomains
    config.tlsSettings domain

end DynamicKeyManager

namespace Handshakes

variable (state : Handshakes P)

/-- A call that answers with a certificate, or with the underlying manager. A lookup that
throws answers nothing. -/
def answer (handshake : Handshake P) : Handshakes P :=
  match handshake.manager.findCertMatching sort config matchesIssuers handshake.domain
      state.cache with
  | .ok (found, cache) => { state with cache, answers := (handshake, found) :: state.answers }
  | .error _ => state

/-- `chooseEngineServerAlias`, with the certificate that the datastore generates for the
domain when it is asked for one. -/
def chooseAlias (handshake : Handshake P) (generated : Option Cert) : Handshakes P :=
  match handshake.manager.findCertMatching sort config matchesIssuers handshake.domain
      state.cache with
  | .error _ => state
  | .ok (some _, cache) => { state with cache }
  | .ok (none, cache) =>
      if config.autoCertEnabled && !config.replyNicely &&
          !config.autoCertMatches handshake.domain then { state with cache }
      else if config.autoCertEnabled then
        match generated with
        | some cert => { state with
            cache := Function.update cache handshake.domain (some cert)
            generated := (handshake.domain, cert) :: state.generated }
        | none => { state with cache }
      else { state with cache }

def step : Event P → Handshakes P → Handshakes P
  | .chooseEngineServerAlias handshake generated, state =>
      state.chooseAlias sort config matchesIssuers handshake generated
  | .getCertificateChain handshake, state => state.answer sort config matchesIssuers handshake
  | .getPrivateKey handshake, state => state.answer sort config matchesIssuers handshake
  | .finish handshake, state => { state with finished := handshake :: state.finished }
  | .expire domain, state => { state with cache := Function.update state.cache domain none }

/-- The answers of a handshake come from one certificate, which is one of the valid ones
of its manager or was generated for the domain. -/
structure Together : Prop where
  same : ∀ handshake first second, (handshake, first) ∈ state.answers →
    (handshake, second) ∈ state.answers → first = second
  own : ∀ handshake cert, (handshake, some cert) ∈ state.answers →
    cert ∈ handshake.manager.validCerts ∨ (handshake.domain, cert) ∈ state.generated

/-! ## Steps that keep the answers together -/

/-- What a call of the handshake finds is its manager's: an entry holds the certificate
the manager would find, or one generated for the domain for which the manager has none.
The only certificate of a client manager is valid. -/
structure FindsOwn (handshake : Handshake P) : Prop where
  running : handshake ∉ state.finished
  entry : handshake.manager.client = false → ∀ cert, state.cache handshake.domain = some cert →
    handshake.manager.ownCert sort config matchesIssuers handshake.domain = .ok (some cert) ∨
      (handshake.manager.ownCert sort config matchesIssuers handshake.domain = .ok none ∧
        (handshake.domain, cert) ∈ state.generated)
  single : handshake.manager.client = true → ∀ cert, handshake.manager.allCertificates = [cert] →
    cert ∈ handshake.manager.validCerts

/-- A call of a handshake finds what is its manager's. And the entry of a domain does not
change while a handshake goes on whose manager has no certificate for it. -/
structure Meets (state : Handshakes P) (event : Event P) : Prop where
  finds : ∀ handshake, event = .getCertificateChain handshake ∨
    event = .getPrivateKey handshake → state.FindsOwn sort config matchesIssuers handshake
  keeps : ∀ handshake source, (handshake, source) ∈ state.answers →
    handshake ∉ state.finished → handshake.manager.client = false →
    handshake.manager.ownCert sort config matchesIssuers handshake.domain = .ok none →
    (step sort config matchesIssuers event state).cache handshake.domain =
      state.cache handshake.domain

end Handshakes

/-! ## What a manager finds -/

section Own

variable {sort} {config} {matchesIssuers} {manager : DynamicKeyManager P} {domain : Str}
  {cert : Cert}

theorem DynamicKeyManager.eq_of_built (manager : DynamicKeyManager P) :
    manager.validCerts = ordered (servable P manager.now manager.allCertificates) ∧
      manager.certsByDomains =
        indexOf P (ordered (servable P manager.now manager.allCertificates)) := by
  have hbuilt := manager.built
  by_cases hreadable : ∀ cert ∈ manager.allCertificates, (cert.metadata P).isSome
  · rw [validCertificatesByDomains_of_readable hreadable, Except.ok.injEq, Prod.mk.injEq] at hbuilt
    exact ⟨hbuilt.1.symm, hbuilt.2.symm⟩
  · rw [validCertificatesByDomains_of_not_readable hreadable] at hbuilt
    contradiction

theorem mem_of_filterCandidates {test : Str → Test} {list kept : List (Str × Cert)}
    (h : filterCandidates test list = .ok kept) : ∀ candidate ∈ kept, candidate ∈ list := by
  induction list generalizing kept with
  | nil =>
      rw [filterCandidates, Except.ok.injEq] at h
      simp [← h]
  | cons candidate rest ih =>
      rw [filterCandidates] at h
      cases hkeep : test candidate.1 with
      | error e => simp [hkeep] at h
      | ok keep =>
          cases hrest : filterCandidates test rest with
          | error e => simp [hkeep, hrest] at h
          | ok keptRest =>
              simp only [hkeep, hrest, ok_bind, pure_eq_ok, Except.ok.injEq] at h
              intro found hfound
              rw [← h] at hfound
              cases keep with
              | false => exact List.mem_cons_of_mem _ (ih hrest found (by simpa using hfound))
              | true =>
                  obtain heq | hlater := List.mem_cons.mp (by simpa using hfound)
                  · rw [heq]
                    exact List.mem_cons_self
                  · exact List.mem_cons_of_mem _ (ih hrest found hlater)

theorem mem_of_firstCandidate (hsort : SortPermutes sort) {certs : List Cert}
    (h : firstCandidate P sort certs domain = .ok (some cert)) : cert ∈ certs := by
  rw [firstCandidate] at h
  cases hkept : filterCandidates (Cert.sanMatchesDomain domain) (candidates P certs) with
  | error e => simp [hkept] at h
  | ok kept =>
      rw [hkept, ok_bind] at h
      cases hsorted : sort comesBefore kept with
      | error e => simp [hsorted] at h
      | ok sorted =>
          rw [hsorted, ok_bind, pure_eq_ok, Except.ok.injEq] at h
          obtain ⟨candidate, hcandidate, rfl⟩ := List.mem_map.mp (List.mem_of_head? h)
          have hin := (hsort _ _ _ hsorted).subset hcandidate
          exact (mem_candidates.mp (mem_of_filterCandidates hkept candidate hin)).1

theorem mem_of_orRandom {certs : List Cert} {tlsSettings : TlsSettings} {answer : Option Cert}
    (hanswer : ∀ found ∈ answer, found ∈ certs)
    (h : orRandom certs tlsSettings answer = some cert) : cert ∈ certs := by
  cases answer with
  | some found =>
      rw [orRandom, Option.some.injEq] at h
      exact h ▸ hanswer found rfl
  | none =>
      rw [orRandom] at h
      split at h
      · exact (List.mem_filter.mp (List.mem_of_head? h)).1
      · contradiction

/-- What a manager finds is one of its valid certificates. -/
theorem mem_of_findServerCertificate (hsort : SortPermutes sort)
    (h : findServerCertificate P sort manager.validCerts manager.certsByDomains
      config.tlsSettings domain = .ok (some cert)) : cert ∈ manager.validCerts := by
  obtain ⟨hvalid, hindexed⟩ := manager.eq_of_built
  rw [hvalid, hindexed] at h
  rw [hvalid]
  cases hindex : indexOf P (ordered (servable P manager.now manager.allCertificates)) domain with
  | some found =>
      rw [findServerCertificate_of_indexed hindex, Except.ok.injEq, Option.some.injEq] at h
      rw [← h]
      exact (indexOf_eq_some (pairwise_ordered _) hindex).1
  | none =>
      cases hfirst : firstCandidate P sort
          (ordered (servable P manager.now manager.allCertificates)) domain with
      | error e => simp [findServerCertificate_of_error hindex hfirst] at h
      | ok first =>
          cases first with
          | some found =>
              rw [findServerCertificate_of_candidate hindex hfirst, Except.ok.injEq,
                Option.some.injEq] at h
              rw [← h]
              exact mem_of_firstCandidate hsort hfirst
          | none =>
              rw [findServerCertificate_of_no_candidate hindex hfirst] at h
              cases hdefault : defaultCandidate P sort
                  (ordered (servable P manager.now manager.allCertificates))
                  config.tlsSettings with
              | error e => simp [hdefault] at h
              | ok found =>
                  rw [hdefault, map_ok, Except.ok.injEq] at h
                  apply mem_of_orRandom _ h
                  rintro last rfl
                  rw [defaultCandidate] at hdefault
                  split at hdefault
                  · simp at hdefault
                  · exact mem_of_firstCandidate hsort hdefault

theorem ownCert_of_client (hclient : manager.client = true) :
    manager.ownCert sort config matchesIssuers domain =
      .ok (manager.findClientCert matchesIssuers domain) := by
  rw [DynamicKeyManager.ownCert, if_pos hclient]

theorem findCertMatching_of_client (hclient : manager.client = true) (cache : DomainCache) :
    manager.findCertMatching sort config matchesIssuers domain cache =
      .ok (manager.findClientCert matchesIssuers domain, cache) := by
  rw [DynamicKeyManager.findCertMatching, if_pos hclient]

theorem findCertMatching_of_cached (hclient : manager.client = false) {cache : DomainCache}
    (h : cache domain = some cert) :
    manager.findCertMatching sort config matchesIssuers domain cache = .ok (some cert, cache) := by
  rw [DynamicKeyManager.findCertMatching, if_neg (by simp [hclient]),
    getServerCertificateForDomain, h]

/-- With an empty entry the manager finds what it finds by itself, and puts it there. -/
theorem findCertMatching_of_not_cached (hclient : manager.client = false) {cache : DomainCache}
    (h : cache domain = none) :
    manager.findCertMatching sort config matchesIssuers domain cache =
      (manager.ownCert sort config matchesIssuers domain).map fun found =>
        (found, if found.isSome then Function.update cache domain found else cache) := by
  rw [DynamicKeyManager.findCertMatching, if_neg (by simp [hclient]),
    getServerCertificateForDomain, h, DynamicKeyManager.ownCert, if_neg (by simp [hclient])]
  cases hfound : findServerCertificate P sort manager.validCerts manager.certsByDomains
      config.tlsSettings domain with
  | error e => simp
  | ok found => cases found <;> simp

/-- What a client manager finds is valid, if its only certificate is. -/
theorem mem_of_findClientCert
    (hsingle : ∀ cert, manager.allCertificates = [cert] → cert ∈ manager.validCerts)
    (h : manager.findClientCert matchesIssuers domain = some cert) :
    cert ∈ manager.validCerts := by
  rw [DynamicKeyManager.findClientCert] at h
  split at h
  · contradiction
  · split at h
    case isTrue hlength =>
      obtain ⟨only, honly⟩ := List.length_eq_one_iff.mp (by simpa using hlength)
      rw [honly, List.head?_cons, Option.some.injEq] at h
      exact h ▸ hsingle only honly
    case isFalse =>
      have hmem := List.mem_of_head? h
      rw [sortWith, List.mem_mergeSort] at hmem
      exact (List.mem_filter.mp hmem).1

end Own

/-! ## What a run keeps -/

namespace Handshakes

/-- What the next answer of a handshake will be again: what its manager finds by itself,
or, where that is nothing, what the entry of the domain says. -/
structure Expected (cache : DomainCache) (handshake : Handshake P) (source : Option Cert) :
    Prop where
  client : handshake.manager.client = true →
    handshake.manager.ownCert sort config matchesIssuers handshake.domain = .ok source
  server : handshake.manager.client = false →
    (handshake.manager.ownCert sort config matchesIssuers handshake.domain = .ok source ∧
        source ≠ none) ∨
      (handshake.manager.ownCert sort config matchesIssuers handshake.domain = .ok none ∧
        cache handshake.domain = source)

/-- The answers are together, and those that are still to come are determined. -/
structure Kept (state : Handshakes P) : Prop where
  together : state.Together
  expected : ∀ handshake source, (handshake, source) ∈ state.answers →
    handshake ∉ state.finished → Expected sort config matchesIssuers state.cache handshake source

variable {sort} {config} {matchesIssuers} {state : Handshakes P} {handshake : Handshake P}

theorem Expected.of_entry {cache cache' : DomainCache} {source : Option Cert}
    (h : Expected sort config matchesIssuers cache handshake source)
    (hentry : handshake.manager.client = false →
      handshake.manager.ownCert sort config matchesIssuers handshake.domain = .ok none →
      cache' handshake.domain = cache handshake.domain) :
    Expected sort config matchesIssuers cache' handshake source where
  client := h.client
  server hserver := by
    obtain hown | ⟨hnone, hsource⟩ := h.server hserver
    · exact .inl hown
    · exact .inr ⟨hnone, (hentry hserver hnone).trans hsource⟩

/-- A call that finds what is its manager's gives the expected answer, of a valid or a
generated certificate. -/
theorem found_spec (hsort : SortPermutes sort)
    (hfinds : state.FindsOwn sort config matchesIssuers handshake) {found : Option Cert}
    {cache : DomainCache}
    (h : handshake.manager.findCertMatching sort config matchesIssuers handshake.domain
      state.cache = .ok (found, cache)) :
    Expected sort config matchesIssuers cache handshake found ∧
      (∀ source, Expected sort config matchesIssuers state.cache handshake source →
        source = found) ∧
      ∀ cert ∈ found, cert ∈ handshake.manager.validCerts ∨
        (handshake.domain, cert) ∈ state.generated := by
  cases hclient : handshake.manager.client with
  | true =>
      rw [findCertMatching_of_client hclient, Except.ok.injEq, Prod.mk.injEq] at h
      obtain ⟨rfl, rfl⟩ := h
      have hown := @ownCert_of_client P sort config matchesIssuers handshake.manager
        handshake.domain hclient
      refine ⟨⟨fun _ => hown, by simp [hclient]⟩, ?_, ?_⟩
      · intro source hexpected
        have hsource := hexpected.client hclient
        rw [hown, Except.ok.injEq] at hsource
        exact hsource.symm
      · intro cert hcert
        exact .inl (mem_of_findClientCert (hfinds.single hclient) hcert)
  | false =>
      cases hentry : state.cache handshake.domain with
      | some cert =>
          rw [findCertMatching_of_cached hclient hentry, Except.ok.injEq, Prod.mk.injEq] at h
          obtain ⟨rfl, rfl⟩ := h
          obtain hown | ⟨hnone, hgenerated⟩ := hfinds.entry hclient cert hentry
          · refine ⟨⟨by simp [hclient], fun _ => .inl ⟨hown, by simp⟩⟩, ?_, ?_⟩
            · intro source hexpected
              obtain ⟨hsource, -⟩ | ⟨hnone, -⟩ := hexpected.server hclient
              · rw [hown, Except.ok.injEq] at hsource
                exact hsource.symm
              · simp [hown] at hnone
            · rintro _ ⟨⟩
              rw [DynamicKeyManager.ownCert, if_neg (by simp [hclient])] at hown
              exact .inl (mem_of_findServerCertificate hsort hown)
          · refine ⟨⟨by simp [hclient], fun _ => .inr ⟨hnone, hentry⟩⟩, ?_, ?_⟩
            · intro source hexpected
              obtain ⟨hsource, hne⟩ | ⟨-, hsource⟩ := hexpected.server hclient
              · rw [hnone, Except.ok.injEq] at hsource
                exact absurd hsource.symm hne
              · rw [← hsource, hentry]
            · rintro _ ⟨⟩
              exact .inr hgenerated
      | none =>
          rw [findCertMatching_of_not_cached hclient hentry] at h
          cases hown : handshake.manager.ownCert sort config matchesIssuers handshake.domain with
          | error e => simp [hown] at h
          | ok own =>
              rw [hown, map_ok, Except.ok.injEq, Prod.mk.injEq] at h
              obtain ⟨rfl, hcache⟩ := h
              cases own with
              | none =>
                  have hsame : cache = state.cache := by simpa using hcache.symm
                  subst hsame
                  refine ⟨⟨by simp [hclient], fun _ => .inr ⟨hown, hentry⟩⟩, ?_, by simp⟩
                  intro source hexpected
                  obtain ⟨hsource, hne⟩ | ⟨-, hsource⟩ := hexpected.server hclient
                  · rw [hown, Except.ok.injEq] at hsource
                    exact absurd hsource.symm hne
                  · rw [← hsource, hentry]
              | some cert =>
                  refine ⟨⟨by simp [hclient], fun _ => .inl ⟨hown, by simp⟩⟩, ?_, ?_⟩
                  · intro source hexpected
                    obtain ⟨hsource, -⟩ | ⟨hnone, -⟩ := hexpected.server hclient
                    · rw [hown, Except.ok.injEq] at hsource
                      exact hsource.symm
                    · simp [hown] at hnone
                  · rintro _ ⟨⟩
                    rw [DynamicKeyManager.ownCert, if_neg (by simp [hclient])] at hown
                    exact .inl (mem_of_findServerCertificate hsort hown)

/-- An event that answers nothing keeps what the entries of the handshakes that go on
keep. -/
theorem Kept.of_frame {state' : Handshakes P} (h : state.Kept sort config matchesIssuers)
    (hanswers : state'.answers = state.answers)
    (hfinished : ∀ handshake ∈ state.finished, handshake ∈ state'.finished)
    (hgenerated : ∀ entry ∈ state.generated, entry ∈ state'.generated)
    (hentries : ∀ handshake source, (handshake, source) ∈ state.answers →
      handshake ∉ state.finished → handshake.manager.client = false →
      handshake.manager.ownCert sort config matchesIssuers handshake.domain = .ok none →
      state'.cache handshake.domain = state.cache handshake.domain) :
    state'.Kept sort config matchesIssuers where
  together := {
    same := by
      rw [hanswers]
      exact h.together.same
    own := by
      rw [hanswers]
      intro handshake cert hmem
      obtain hvalid | hin := h.together.own handshake cert hmem
      · exact .inl hvalid
      · exact .inr (hgenerated _ hin) }
  expected handshake source hmem hrunning := by
    rw [hanswers] at hmem
    have hgoes : handshake ∉ state.finished := fun hdone => hrunning (hfinished _ hdone)
    exact (h.expected handshake source hmem hgoes).of_entry
      (hentries handshake source hmem hgoes)

theorem chooseAlias_frame (generated : Option Cert) :
    (state.chooseAlias sort config matchesIssuers handshake generated).answers = state.answers ∧
      (state.chooseAlias sort config matchesIssuers handshake generated).finished =
        state.finished ∧
      ∀ entry ∈ state.generated,
        entry ∈ (state.chooseAlias sort config matchesIssuers handshake generated).generated := by
  rw [chooseAlias]
  split
  · exact ⟨rfl, rfl, fun _ hin => hin⟩
  · exact ⟨rfl, rfl, fun _ hin => hin⟩
  · split
    · exact ⟨rfl, rfl, fun _ hin => hin⟩
    · split
      · cases generated with
        | some cert => exact ⟨rfl, rfl, fun _ hin => List.mem_cons_of_mem _ hin⟩
        | none => exact ⟨rfl, rfl, fun _ hin => hin⟩
      · exact ⟨rfl, rfl, fun _ hin => hin⟩

/-- A call that finds what is its manager's keeps the answers together. -/
theorem Kept.answer (hsort : SortPermutes sort) (h : state.Kept sort config matchesIssuers)
    (hfinds : state.FindsOwn sort config matchesIssuers handshake)
    (hentries : ∀ other source, (other, source) ∈ state.answers → other ∉ state.finished →
      other.manager.client = false →
      other.manager.ownCert sort config matchesIssuers other.domain = .ok none →
      (state.answer sort config matchesIssuers handshake).cache other.domain =
        state.cache other.domain) :
    (state.answer sort config matchesIssuers handshake).Kept sort config matchesIssuers := by
  cases hmatching : handshake.manager.findCertMatching sort config matchesIssuers
      handshake.domain state.cache with
  | error e =>
      have hstate : state.answer sort config matchesIssuers handshake = state := by
        rw [Handshakes.answer, hmatching]
      rw [hstate]
      exact h
  | ok result =>
      obtain ⟨found, cache⟩ := result
      have hstate : state.answer sort config matchesIssuers handshake =
          { state with cache, answers := (handshake, found) :: state.answers } := by
        rw [Handshakes.answer, hmatching]
      rw [hstate] at hentries ⊢
      obtain ⟨hexpected, hsame, hown⟩ := found_spec hsort hfinds hmatching
      have hearlier : ∀ source, (handshake, source) ∈ state.answers → source = found := by
        intro source hmem
        exact hsame source (h.expected handshake source hmem hfinds.running)
      refine ⟨⟨?_, ?_⟩, ?_⟩
      · intro other first second hfirst hsecond
        obtain heq | hold := List.mem_cons.mp hfirst
        · obtain ⟨rfl, rfl⟩ := Prod.mk.inj heq
          obtain heq' | hold' := List.mem_cons.mp hsecond
          · exact (Prod.mk.inj heq').2.symm
          · exact (hearlier second hold').symm
        · obtain heq' | hold' := List.mem_cons.mp hsecond
          · obtain ⟨rfl, rfl⟩ := Prod.mk.inj heq'
            exact hearlier first hold
          · exact h.together.same other first second hold hold'
      · intro other cert hmem
        obtain heq | hmem := List.mem_cons.mp hmem
        · obtain ⟨rfl, rfl⟩ := Prod.mk.inj heq
          exact hown cert rfl
        · exact h.together.own other cert hmem
      · intro other source hmem hrunning
        obtain heq | hmem := List.mem_cons.mp hmem
        · obtain ⟨rfl, rfl⟩ := Prod.mk.inj heq
          exact hexpected
        · exact (h.expected other source hmem hrunning).of_entry
            (hentries other source hmem hrunning)

/-- Every event keeps the answers together, if it meets the conditions. -/
theorem Kept.step (hsort : SortPermutes sort) {event : Event P}
    (h : state.Kept sort config matchesIssuers)
    (hmeets : state.Meets sort config matchesIssuers event) :
    (step sort config matchesIssuers event state).Kept sort config matchesIssuers := by
  cases event with
  | chooseEngineServerAlias handshake generated =>
      obtain ⟨hanswers, hfinished, hgenerated⟩ := @chooseAlias_frame P sort config
        matchesIssuers state handshake generated
      apply h.of_frame hanswers _ hgenerated hmeets.keeps
      intro other hother
      exact hfinished.symm ▸ hother
  | getCertificateChain handshake =>
      exact h.answer hsort (hmeets.finds handshake (.inl rfl)) hmeets.keeps
  | getPrivateKey handshake =>
      exact h.answer hsort (hmeets.finds handshake (.inr rfl)) hmeets.keeps
  | finish handshake =>
      exact h.of_frame rfl (fun _ hin => List.mem_cons_of_mem _ hin) (fun _ hin => hin)
        hmeets.keeps
  | expire domain => exact h.of_frame rfl (fun _ hin => hin) (fun _ hin => hin) hmeets.keeps

/-- In a run whose events all meet the conditions, every handshake is answered from one
certificate of its own. -/
theorem together_of_meets (hsort : SortPermutes sort) (events : List (Event P))
    (hrun : Along (step sort config matchesIssuers)
      (fun state event _ => state.Meets sort config matchesIssuers event) {} events) :
    (runAll (step sort config matchesIssuers) {} events).Together := by
  have hkept : (runAll (step sort config matchesIssuers) {} events).Kept sort config
      matchesIssuers := by
    apply runAll_invariant _ hrun
    · exact ⟨⟨by simp, by simp⟩, by simp⟩
    · intro state event _ h hmeets
      exact h.step hsort hmeets
  exact hkept.together

/-! ## Two managers of one domain -/

/-- The manager of one certificate of `renewedPlatform`. -/
def managerOf (cert : Cert) (h : (cert.metadata renewedPlatform).isSome) :
    DynamicKeyManager renewedPlatform where
  now := 50
  allCertificates := [cert]
  validCerts := ordered (servable renewedPlatform 50 [cert])
  certsByDomains := indexOf renewedPlatform (ordered (servable renewedPlatform 50 [cert]))
  built := validCertificatesByDomains_of_readable (by simpa using h)

def oldHandshake : Handshake renewedPlatform where
  id := 1
  manager := managerOf oldCert rfl
  domain := "www.oto.tools".toList

def newHandshake : Handshake renewedPlatform where
  id := 2
  manager := managerOf newCert rfl
  domain := "www.oto.tools".toList

/-- The two certificates, as they are read. -/
def oldRead : Cert :=
  { oldCert with
    domain := "www.oto.tools".toList, valid := true, subject := [], validTo := 100 }

def newRead : Cert :=
  { newCert with
    domain := "www.oto.tools".toList, valid := true, subject := [], validTo := 200 }

theorem ownCert_of_single {cert read : Cert} {h : (cert.metadata renewedPlatform).isSome}
    (hread : servable renewedPlatform 50 [cert] = [read])
    (hindex : indexOf renewedPlatform [read] "www.oto.tools".toList = some read) :
    (managerOf cert h).ownCert sort config matchesIssuers "www.oto.tools".toList =
      .ok (some read) := by
  have hordered : ordered (servable renewedPlatform 50 [cert]) = [read] := by
    rw [hread, ordered, sortWith, List.mergeSort_singleton]
  apply findServerCertificate_of_indexed
  change indexOf renewedPlatform (ordered (servable renewedPlatform 50 [cert])) _ = _
  rw [hordered, hindex]

theorem ownCert_old : oldHandshake.manager.ownCert sort config matchesIssuers
    oldHandshake.domain = .ok (some oldRead) :=
  ownCert_of_single (h := rfl) (by decide) (by decide)

theorem ownCert_new : newHandshake.manager.ownCert sort config matchesIssuers
    newHandshake.domain = .ok (some newRead) :=
  ownCert_of_single (h := rfl) (by decide) (by decide)

/-- The first answer, out of an empty entry. -/
theorem answer_of_empty {own : Cert} (hclient : handshake.manager.client = false)
    (hentry : state.cache handshake.domain = none)
    (hown : handshake.manager.ownCert sort config matchesIssuers handshake.domain =
      .ok (some own)) :
    state.answer sort config matchesIssuers handshake =
      { state with
        cache := Function.update state.cache handshake.domain (some own)
        answers := (handshake, some own) :: state.answers } := by
  rw [Handshakes.answer, findCertMatching_of_not_cached hclient hentry, hown]
  rfl

/-- The answer out of an entry. -/
theorem answer_of_entry {cert : Cert} (hclient : handshake.manager.client = false)
    (hentry : state.cache handshake.domain = some cert) :
    state.answer sort config matchesIssuers handshake =
      { state with answers := (handshake, some cert) :: state.answers } := by
  rw [Handshakes.answer, findCertMatching_of_cached hclient hentry]

theorem together_of_meets_example :
    (runAll (step (strictSort .illegalArgument) {} fun _ _ => false) {}
      [.getCertificateChain oldHandshake, .getPrivateKey oldHandshake]).Together := by
  apply together_of_meets (sortPermutes_strictSort _)
  have hfirst := @answer_of_empty renewedPlatform (strictSort .illegalArgument) {}
    (fun _ _ => false) {} oldHandshake oldRead rfl rfl ownCert_old
  refine ⟨⟨?_, by simp⟩, ⟨?_, ?_⟩, trivial⟩
  · rintro handshake (⟨⟨⟩⟩ | h)
    · exact ⟨by simp, by simp, by simp [oldHandshake, managerOf]⟩
    · contradiction
  · rintro handshake (h | ⟨⟨⟩⟩)
    · contradiction
    · simp only [step, hfirst]
      refine ⟨by simp, ?_, by simp [oldHandshake, managerOf]⟩
      intro _ cert hentry
      have hold : oldRead = cert := by simpa using hentry
      exact .inl (hold ▸ ownCert_old)
  · simp only [step, hfirst]
    intro handshake source hmem _ _ hnone
    obtain ⟨rfl, -⟩ := Prod.mk.inj (List.mem_singleton.mp hmem)
    simp [ownCert_old] at hnone

/-- The state after the first manager answered its chain, its entry expired, and the
second manager answered. -/
def betweenAnswers : Handshakes renewedPlatform where
  cache := Function.update (Function.update (Function.update (fun _ => none)
    oldHandshake.domain (some oldRead)) oldHandshake.domain none) newHandshake.domain
    (some newRead)
  answers := [(newHandshake, some newRead), (oldHandshake, some oldRead)]

theorem runAll_betweenAnswers :
    runAll (step sort config matchesIssuers) {}
      [.getCertificateChain oldHandshake, .expire oldHandshake.domain,
        .getCertificateChain newHandshake] = betweenAnswers := by
  have hold := @answer_of_empty renewedPlatform sort config matchesIssuers {} oldHandshake
    oldRead rfl rfl ownCert_old
  simp only [runAll, List.foldl_cons, List.foldl_nil, step, hold]
  have hempty : Function.update (Function.update (fun _ : Str => (none : Option Cert))
      oldHandshake.domain (some oldRead)) oldHandshake.domain none newHandshake.domain = none :=
    Function.update_self ..
  exact @answer_of_empty renewedPlatform sort config matchesIssuers _ newHandshake newRead rfl
    hempty ownCert_new

/-- The chain of one certificate and the key of another one. -/
theorem exists_handshake_apart :
    ¬ ∀ (P : Platform) (sort : CandidateSort) (config : GlobalConfig)
        (matchesIssuers : Cert → Str → Bool) (events : List (Event P)), SortPermutes sort →
        (runAll (step sort config matchesIssuers) {} events).Together := by
  intro h
  have htogether := h renewedPlatform (strictSort .illegalArgument) {} (fun _ _ => false)
    ([.getCertificateChain oldHandshake, .expire oldHandshake.domain,
      .getCertificateChain newHandshake] ++ [.getPrivateKey oldHandshake])
    (sortPermutes_strictSort _)
  have hentry : betweenAnswers.cache oldHandshake.domain = some newRead := by
    have hdomain : oldHandshake.domain = newHandshake.domain := rfl
    simp only [betweenAnswers, hdomain, Function.update_self]
  rw [runAll_append, runAll_betweenAnswers] at htogether
  simp only [runAll, List.foldl_cons, List.foldl_nil, step, answer_of_entry rfl hentry]
    at htogether
  have hsame := htogether.same oldHandshake (some newRead) (some oldRead)
    List.mem_cons_self (by simp [betweenAnswers])
  revert hsame
  decide

end Handshakes

end Otoroshi.Tls
