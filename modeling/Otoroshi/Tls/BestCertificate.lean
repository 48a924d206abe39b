/-
# Which certificate is served

For a requested domain there are certificates that name it, certificates with a
wildcard for it, certificates for the default domain, and any others. The best one to
serve is of the first of these ranks that has some, and among those under one name the
one that expires last.

`best_iff` says for which certificates and settings the best one is served. The list is
sorted with the certificate that expires last in front, but the index keeps the last
write of a name. The candidates for the default domain are sorted by a comparator that
is no order on two names without a star.
-/

import Mathlib
import Otoroshi.Foundation.Maps
import Otoroshi.Tls.Certificates

namespace Otoroshi.Tls

variable (P : Platform)

/-! ## What the best certificate is -/

/-- The certificates of a list that can be served, as they are read. -/
def servable (now : Int) (allCertificates : List Cert) : List Cert :=
  (allCertificates.filterMap fun cert => (cert.enrich P).toOption).filter (·.isServable now)

/-- The certificate has the name, and none with this name expires later. -/
structure LatestUnder (certs : List Cert) (name : Str) (cert : Cert) : Prop where
  mem : cert ∈ certs
  names : name ∈ cert.allDomains P
  latest : ∀ other ∈ certs, name ∈ other.allDomains P → other.validTo ≤ cert.validTo

/-- Some certificate has a name that stands for the domain. -/
def HasNameFor (certs : List Cert) (domain : Str) : Prop :=
  ∃ cert ∈ certs, ∃ name ∈ cert.allDomains P, Cert.sanMatchesDomain domain name = .ok true

/-- Some certificate names the domain, or has a name that stands for it. -/
def Covered (certs : List Cert) (domain : Str) : Prop :=
  (∃ cert ∈ certs, domain ∈ cert.allDomains P) ∨ HasNameFor P certs domain

/-- The answer is a certificate with a name that stands for the domain, and none with
this name expires later. -/
def IsLatestFor (certs : List Cert) (domain : Str) (answer : Option Cert) : Prop :=
  ∃ cert name, answer = some cert ∧ Cert.sanMatchesDomain domain name = .ok true ∧
    LatestUnder P certs name cert

/-- The answer is of the first rank that has a certificate, and the latest there. -/
structure IsBest (certs : List Cert) (tlsSettings : TlsSettings) (domain : Str)
    (answer : Option Cert) : Prop where
  exact : (∃ cert ∈ certs, domain ∈ cert.allDomains P) →
    ∃ cert, answer = some cert ∧ LatestUnder P certs domain cert
  wildcard : (∀ cert ∈ certs, domain ∉ cert.allDomains P) → HasNameFor P certs domain →
    IsLatestFor P certs domain answer
  default : ¬ Covered P certs domain → ∀ dd ∈ tlsSettings.defaultDomain,
    HasNameFor P certs dd → IsLatestFor P certs dd answer
  random : ¬ Covered P certs domain →
    (∀ dd ∈ tlsSettings.defaultDomain, ¬ HasNameFor P certs dd) →
    if tlsSettings.randomIfNotFound ∧ ∃ cert ∈ certs, cert.client = false then
      ∃ cert ∈ certs, answer = some cert ∧ cert.client = false ∧
        ∀ other ∈ certs, other.client = false → other.validTo ≤ cert.validTo
    else answer = none

/-- What a key manager with these certificates answers to a domain, with an empty
cache. -/
def serve (sort : CandidateSort) (now : Int) (allCertificates : List Cert)
    (tlsSettings : TlsSettings) (domain : Str) : Except TlsException (Option Cert) := do
  let certs ← validCertificatesByDomains P now allCertificates
  let answer ← getServerCertificateForDomain P sort certs.1 certs.2 tlsSettings domain
    fun _ => none
  return answer.1

/-! ## When it is served -/

/-- Every name in the list can be compared with the domain. -/
def Comparable (certs : List Cert) (domain : Str) : Prop :=
  ∀ cert ∈ certs, ∀ name ∈ cert.allDomains P, Answers (Cert.sanMatchesDomain domain name)

/-- All certificates can be read. Those that name the domain expire together; if there
are none, the names can be compared with it. If no name stands for the domain, the same
holds for the default domain, which at most one certificate names unless it has a
star. -/
structure ServesBest (now : Int) (allCertificates : List Cert) (tlsSettings : TlsSettings)
    (domain : Str) : Prop where
  readable : ∀ cert ∈ allCertificates, (cert.metadata P).isSome
  exact : ∀ first ∈ servable P now allCertificates, ∀ second ∈ servable P now allCertificates,
    domain ∈ first.allDomains P → domain ∈ second.allDomains P → first.validTo = second.validTo
  wildcard : (∀ cert ∈ servable P now allCertificates, domain ∉ cert.allDomains P) →
    Comparable P (servable P now allCertificates) domain
  default : ¬ Covered P (servable P now allCertificates) domain →
    ∀ dd ∈ tlsSettings.defaultDomain, Comparable P (servable P now allCertificates) dd ∧
      ('*' ∉ dd → (servable P now allCertificates).Pairwise fun first second =>
        ¬ (dd ∈ first.allDomains P ∧ dd ∈ second.allDomains P))

variable {P}

/-! ## The list of certificates -/

section List

variable {now : Int} {allCertificates : List Cert}

theorem mapM_enrich_of_readable (h : ∀ cert ∈ allCertificates, (cert.metadata P).isSome) :
    allCertificates.mapM (Cert.enrich P) =
      .ok (allCertificates.filterMap fun cert => (cert.enrich P).toOption) := by
  induction allCertificates with
  | nil => rfl
  | cons cert rest ih =>
      rw [List.forall_mem_cons] at h
      obtain ⟨data, hdata⟩ := Option.isSome_iff_exists.mp h.1
      rw [List.mapM_cons, ih h.2, Cert.enrich, hdata, List.filterMap_cons, Cert.enrich, hdata]
      rfl

theorem mapM_enrich_of_not_readable (h : ¬ ∀ cert ∈ allCertificates, (cert.metadata P).isSome) :
    allCertificates.mapM (Cert.enrich P) = .error .noSuchElement := by
  induction allCertificates with
  | nil => simp at h
  | cons cert rest ih =>
      rw [List.mapM_cons, Cert.enrich]
      cases hdata : cert.metadata P with
      | none => rfl
      | some data =>
          have hrest : ¬ ∀ later ∈ rest, (later.metadata P).isSome := by
            simpa [List.forall_mem_cons, hdata] using h
          simp only [ok_bind, ih hrest]
          rfl

/-- The certificates of the manager: latest first. -/
def ordered (certs : List Cert) : List Cert :=
  sortWith (fun c1 c2 => decide (c2.validTo < c1.validTo)) certs

theorem ordered_eq_sortBy (certs : List Cert) :
    ordered certs = sortBy (fun cert => -cert.validTo) certs := by
  simp only [ordered, sortBy, Int.neg_lt_neg_iff]

@[simp]
theorem mem_ordered {certs : List Cert} {cert : Cert} : cert ∈ ordered certs ↔ cert ∈ certs := by
  rw [ordered_eq_sortBy, mem_sortBy]

theorem perm_ordered (certs : List Cert) : (ordered certs).Perm certs :=
  List.mergeSort_perm _ _

/-- Earlier in the list is not earlier expired. -/
def NotBefore (first second : Cert) : Prop := second.validTo ≤ first.validTo

theorem pairwise_ordered (certs : List Cert) : (ordered certs).Pairwise NotBefore := by
  have hsorted := @pairwise_sortBy Cert Int _ (fun cert => -cert.validTo) _ certs
    (List.pairwise_of_forall (l := certs) (R := fun _ _ => True) fun _ _ => trivial)
  rw [ordered_eq_sortBy]
  apply hsorted.imp
  rintro first second (hlt | ⟨heq, -⟩)
  · exact (Int.neg_lt_neg_iff.mp hlt).le
  · exact (Int.neg_inj.mp heq).ge

theorem validCertificatesByDomains_of_readable
    (h : ∀ cert ∈ allCertificates, (cert.metadata P).isSome) :
    validCertificatesByDomains P now allCertificates =
      .ok (ordered (servable P now allCertificates),
        indexOf P (ordered (servable P now allCertificates))) := by
  rw [validCertificatesByDomains, validCertificates, mapM_enrich_of_readable h]
  rfl

theorem validCertificatesByDomains_of_not_readable
    (h : ¬ ∀ cert ∈ allCertificates, (cert.metadata P).isSome) :
    validCertificatesByDomains P now allCertificates = .error .noSuchElement := by
  rw [validCertificatesByDomains, validCertificates, mapM_enrich_of_not_readable h]
  rfl

end List

/-! ## The index -/

section Index

variable {certs : List Cert} {domain : Str}

theorem mem_candidates {certs : List Cert} {candidate : Str × Cert} :
    candidate ∈ candidates P certs ↔
      candidate.2 ∈ certs ∧ candidate.1 ∈ candidate.2.allDomains P := by
  obtain ⟨name, cert⟩ := candidate
  simp only [candidates, List.mem_flatMap, List.mem_map, Prod.mk.injEq]
  constructor
  · rintro ⟨cert', hcert, name', hname, rfl, rfl⟩
    exact ⟨hcert, hname⟩
  · rintro ⟨hcert, hname⟩
    exact ⟨cert, hcert, name, hname, rfl, rfl⟩

/-- The candidates of a list in order are in order. -/
theorem pairwise_candidates (h : certs.Pairwise NotBefore) :
    (candidates P certs).Pairwise fun first second => NotBefore first.2 second.2 := by
  rw [candidates, List.pairwise_flatMap]
  constructor
  · intro cert _
    rw [List.pairwise_map]
    exact List.pairwise_of_forall fun _ _ => le_refl _
  · apply h.imp
    intro first second hle x hx y hy
    obtain ⟨-, -, rfl⟩ := List.mem_map.mp hx
    obtain ⟨-, -, rfl⟩ := List.mem_map.mp hy
    exact hle

theorem indexOf_eq_none :
    indexOf P certs domain = none ↔ ∀ cert ∈ certs, domain ∉ cert.allDomains P := by
  rw [indexOf, List.lookup_eq_none_iff]
  simp only [List.mem_reverse]
  constructor
  · intro h cert hcert hname
    have hne := h (domain, cert) (mem_candidates.mpr ⟨hcert, hname⟩)
    simp at hne
  · intro h candidate hcandidate
    obtain ⟨hcert, hname⟩ := mem_candidates.mp hcandidate
    rw [bne_iff_ne]
    rintro rfl
    exact h _ hcert hname

/-- The index keeps, of the certificates under a name, the one that expires first. -/
theorem indexOf_eq_some {cert : Cert} (horder : certs.Pairwise NotBefore)
    (h : indexOf P certs domain = some cert) :
    cert ∈ certs ∧ domain ∈ cert.allDomains P ∧
      ∀ other ∈ certs, domain ∈ other.allDomains P → cert.validTo ≤ other.validTo := by
  have hrefl : ∀ candidate : Str × Cert, NotBefore candidate.2 candidate.2 :=
    fun candidate => le_refl candidate.2.validTo
  obtain ⟨hmem, hothers⟩ := lookup_reverse_eq_some hrefl (pairwise_candidates horder) h
  obtain ⟨hcert, hname⟩ := mem_candidates.mp hmem
  exact ⟨hcert, hname, fun other hother hnames =>
    hothers other (mem_candidates.mpr ⟨hother, hnames⟩)⟩

end Index

/-! ## The candidates for a domain -/

section Candidates

variable {certs : List Cert} {domain : Str} {sort : CandidateSort}

/-- The test, where it answers. -/
def isMatch (domain name : Str) : Bool :=
  match Cert.sanMatchesDomain domain name with
  | .ok answer => answer
  | .error _ => false

theorem isMatch_iff {name : Str} :
    isMatch domain name = true ↔ Cert.sanMatchesDomain domain name = .ok true := by
  rw [isMatch]
  cases Cert.sanMatchesDomain domain name <;> simp

theorem filterCandidates_of_answers {list : List (Str × Cert)}
    (h : ∀ candidate ∈ list, Answers (Cert.sanMatchesDomain domain candidate.1)) :
    filterCandidates (Cert.sanMatchesDomain domain) list =
      .ok (list.filter fun candidate => isMatch domain candidate.1) := by
  induction list with
  | nil => rfl
  | cons candidate rest ih =>
      rw [List.forall_mem_cons] at h
      obtain ⟨answer, hanswer⟩ := h.1
      have hmatch : isMatch domain candidate.1 = answer := by rw [isMatch, hanswer]
      rw [filterCandidates, hanswer, ih h.2, List.filter_cons, hmatch]
      rfl

theorem filterCandidates_of_not_answers {list : List (Str × Cert)}
    (h : ¬ ∀ candidate ∈ list, Answers (Cert.sanMatchesDomain domain candidate.1)) :
    ∃ e, filterCandidates (Cert.sanMatchesDomain domain) list = .error e := by
  induction list with
  | nil => simp at h
  | cons candidate rest ih =>
      rw [filterCandidates]
      cases hanswer : Cert.sanMatchesDomain domain candidate.1 with
      | error e => exact ⟨e, rfl⟩
      | ok answer =>
          have hrest : ¬ ∀ later ∈ rest, Answers (Cert.sanMatchesDomain domain later.1) := by
            intro hall
            apply h
            rw [List.forall_mem_cons]
            exact ⟨⟨answer, hanswer⟩, hall⟩
          obtain ⟨e, he⟩ := ih hrest
          use e
          rw [ok_bind, he]
          rfl

theorem comparable_iff : Comparable P certs domain ↔
    ∀ candidate ∈ candidates P certs, Answers (Cert.sanMatchesDomain domain candidate.1) := by
  constructor
  · intro h candidate hcandidate
    obtain ⟨hcert, hname⟩ := mem_candidates.mp hcandidate
    exact h _ hcert _ hname
  · intro h cert hcert name hname
    exact h (name, cert) (mem_candidates.mpr ⟨hcert, hname⟩)

/-- The candidates with a name for the domain. -/
def found (P : Platform) (certs : List Cert) (domain : Str) : List (Str × Cert) :=
  (candidates P certs).filter fun candidate => isMatch domain candidate.1

theorem mem_found {candidate : Str × Cert} :
    candidate ∈ found P certs domain ↔ candidate.2 ∈ certs ∧
      candidate.1 ∈ candidate.2.allDomains P ∧
      Cert.sanMatchesDomain domain candidate.1 = .ok true := by
  rw [found, List.mem_filter, mem_candidates, isMatch_iff, and_assoc]

theorem hasNameFor_iff : HasNameFor P certs domain ↔ found P certs domain ≠ [] := by
  constructor
  · rintro ⟨cert, hcert, name, hname, hmatch⟩
    exact List.ne_nil_of_mem (a := (name, cert)) (mem_found.mpr ⟨hcert, hname, hmatch⟩)
  · intro hne
    obtain ⟨candidate, hcandidate⟩ := List.exists_mem_of_ne_nil _ hne
    obtain ⟨hcert, hname, hmatch⟩ := mem_found.mp hcandidate
    exact ⟨candidate.2, hcert, candidate.1, hname, hmatch⟩

theorem firstCandidate_of_comparable (h : Comparable P certs domain) :
    firstCandidate P sort certs domain =
      (sort comesBefore (found P certs domain)).map fun sorted => (sorted.map Prod.snd).head? := by
  rw [firstCandidate, filterCandidates_of_answers (comparable_iff.mp h)]
  rfl

theorem firstCandidate_of_not_comparable (h : ¬ Comparable P certs domain) :
    ∃ e, firstCandidate P sort certs domain = .error e := by
  obtain ⟨e, he⟩ := filterCandidates_of_not_answers (mt comparable_iff.mpr h)
  use e
  rw [firstCandidate, he]
  rfl

/-! ## The order of the candidates -/

/-- A name without a star. -/
def Starless (candidate : Str × Cert) : Prop := '*' ∉ candidate.1

/-- Names without a star first, then longer names. -/
def rank (candidate : Str × Cert) : WithBot Int :=
  if '*' ∈ candidate.1 then ((-candidate.1.length : Int) : WithBot Int) else ⊥

/-- Apart from two names without a star, the comparator goes by the rank. -/
theorem comesBefore_eq {first second : Str × Cert} (h : ¬ (Starless first ∧ Starless second)) :
    comesBefore first second = decide (rank first < rank second) := by
  have hcontains : ∀ candidate : Str × Cert,
      candidate.1.contains '*' = decide ('*' ∈ candidate.1) := by
    intro candidate
    simp
  rw [comesBefore, rank, rank, hcontains, hcontains]
  by_cases hfirst : '*' ∈ first.1
  · by_cases hsecond : '*' ∈ second.1
    · simp only [hfirst, hsecond, decide_true, Bool.and_true, if_true, WithBot.coe_lt_coe]
      grind
    · simp [hfirst, hsecond]
  · have hsecond : '*' ∈ second.1 := by
      by_contra hsecond
      exact h ⟨hfirst, hsecond⟩
    simp [hfirst, hsecond]

/-- Two names without a star each come before the other. -/
theorem comesBefore_both_iff {first second : Str × Cert} :
    (comesBefore first second = true ∧ comesBefore second first = true) ↔
      Starless first ∧ Starless second := by
  simp only [comesBefore, Starless, List.contains_eq_mem]
  by_cases hfirst : '*' ∈ first.1 <;> by_cases hsecond : '*' ∈ second.1 <;>
    simp [hfirst, hsecond]
  omega

/-- At most one candidate of the list has a name without a star. -/
def OneStarless (list : List (Str × Cert)) : Prop :=
  list.Pairwise fun first second => ¬ (Starless first ∧ Starless second)

theorem OneStarless.comparesBy {list : List (Str × Cert)} (h : OneStarless list) :
    ComparesBy rank comesBefore list := by
  apply h.imp
  intro first second hboth
  exact ⟨comesBefore_eq hboth, comesBefore_eq fun hflip => hboth ⟨hflip.2, hflip.1⟩⟩

/-- The first of the sorted candidates has a name under which none expires later. -/
theorem firstCandidate_of_oneStarless (hsort : SortsOrders sort)
    (horder : certs.Pairwise NotBefore) (hcomparable : Comparable P certs domain)
    (hstarless : OneStarless (found P certs domain)) :
    ∃ answer, firstCandidate P sort certs domain = .ok answer ∧
      (HasNameFor P certs domain → IsLatestFor P certs domain answer) ∧
      (¬ HasNameFor P certs domain → answer = none) := by
  have hsorted := hsort (WithBot Int) rank comesBefore _ hstarless.comparesBy
  have hfound : (found P certs domain).Pairwise fun first second =>
      NotBefore first.2 second.2 := (pairwise_candidates horder).filter _
  have hpairs := @pairwise_sortBy _ _ _ rank _ _ hfound
  rw [firstCandidate_of_comparable hcomparable, hsorted]
  refine ⟨_, rfl, ?_, ?_⟩
  · intro hname
    obtain ⟨candidate, rest, hlist⟩ : ∃ candidate rest,
        sortBy rank (found P certs domain) = candidate :: rest := by
      apply List.exists_cons_of_ne_nil
      intro hnil
      have hperm : (sortBy rank (found P certs domain)).Perm (found P certs domain) :=
        List.mergeSort_perm _ _
      rw [hnil] at hperm
      exact hasNameFor_iff.mp hname hperm.symm.eq_nil
    have hmem : candidate ∈ found P certs domain := by
      rw [← @mem_sortBy _ _ _ rank, hlist]
      exact List.mem_cons_self
    obtain ⟨hcert, hnames, hmatch⟩ := mem_found.mp hmem
    refine ⟨candidate.2, candidate.1, ?_, hmatch, hcert, hnames, ?_⟩
    · rw [hlist]
      rfl
    · intro other hother hothers
      have hin : (candidate.1, other) ∈ candidate :: rest := by
        rw [← hlist, mem_sortBy]
        exact mem_found.mpr ⟨hother, hothers, hmatch⟩
      rw [hlist, List.pairwise_cons] at hpairs
      obtain heq | hrest := List.mem_cons.mp hin
      · rw [← heq]
      · obtain hlt | ⟨-, hbefore⟩ := hpairs.1 _ hrest
        · exact absurd hlt (lt_irrefl _)
        · exact hbefore
  · intro hname
    have hnil : found P certs domain = [] := by
      by_contra hne
      exact hname (hasNameFor_iff.mpr hne)
    simp [hnil, sortBy, sortWith]

/-- Where two candidates have a name without a star, a sort may refuse them. -/
theorem firstCandidate_of_not_oneStarless
    (hcomparable : Comparable P certs domain)
    (hstarless : ¬ OneStarless (found P certs domain)) :
    firstCandidate P (strictSort .illegalArgument) certs domain = .error .illegalArgument := by
  have hnot : ¬ (found P certs domain).Pairwise fun first second =>
      ¬ (comesBefore first second = true ∧ comesBefore second first = true) := by
    simp only [comesBefore_both_iff]
    exact hstarless
  rw [firstCandidate_of_comparable hcomparable, strictSort_of_not_asymm _ hnot]
  rfl

/-- A name that stands for a domain has a star in front, or is the domain. -/
theorem eq_of_starless {name : Str} (hmatch : Cert.sanMatchesDomain domain name = .ok true)
    (hstar : '*' ∉ name) : name = domain := by
  have hwildcard : startsWith name "*.".toList = false := by
    by_contra hstarts
    rw [Bool.not_eq_false, startsWith, List.isPrefixOf_iff_prefix] at hstarts
    exact hstar (hstarts.subset (by decide))
  rw [Cert.sanMatchesDomain_of_not_wildcard hwildcard, Except.ok.injEq, beq_iff_eq] at hmatch
  exact hmatch.symm

/-- Where no certificate names the domain, the candidates for it all have a star. -/
theorem oneStarless_of_not_named (h : ∀ cert ∈ certs, domain ∉ cert.allDomains P) :
    OneStarless (found P certs domain) := by
  rw [OneStarless, List.pairwise_iff_forall_sublist]
  rintro first second hsublist ⟨hfirst, -⟩
  obtain ⟨hcert, hname, hmatch⟩ := mem_found.mp (hsublist.subset List.mem_cons_self)
  have heq := eq_of_starless hmatch hfirst
  rw [heq] at hname
  exact h _ hcert hname

/-- At most one candidate has a name without a star if no two certificates have the
domain for a name, or the domain has a star. -/
theorem oneStarless_iff : OneStarless (found P certs domain) ↔
    ('*' ∉ domain → certs.Pairwise fun first second =>
      ¬ (domain ∈ first.allDomains P ∧ domain ∈ second.allDomains P)) := by
  rw [OneStarless, found, List.pairwise_filter, candidates, List.pairwise_flatMap]
  simp only [isMatch_iff]
  constructor
  · rintro ⟨-, hcerts⟩ hstar
    have hself : Cert.sanMatchesDomain domain domain = .ok true := by
      rw [Cert.sanMatchesDomain_of_not_wildcard, beq_self_eq_true]
      by_contra hstarts
      rw [Bool.not_eq_false, startsWith, List.isPrefixOf_iff_prefix] at hstarts
      exact hstar (hstarts.subset (by decide))
    apply hcerts.imp
    rintro first second hpair ⟨hfirst, hsecond⟩
    exact hpair (domain, first) (List.mem_map_of_mem hfirst) (domain, second)
      (List.mem_map_of_mem hsecond) hself hself ⟨hstar, hstar⟩
  · intro h
    constructor
    · intro cert _
      rw [List.pairwise_map]
      apply (cert.nodup_allDomains P).imp
      rintro name name' hne hmatch hmatch' ⟨hstar, hstar'⟩
      exact hne ((eq_of_starless hmatch hstar).trans (eq_of_starless hmatch' hstar').symm)
    · by_cases hdomain : '*' ∈ domain
      · apply List.pairwise_of_forall
        intro first second x _ y _ hmatch _ hboth
        have heq := eq_of_starless hmatch hboth.1
        exact hboth.1 (heq ▸ hdomain)
      · apply (h hdomain).imp
        intro first second hpair x hx y hy hmatch hmatch' hboth
        obtain ⟨name, hname, rfl⟩ := List.mem_map.mp hx
        obtain ⟨name', hname', rfl⟩ := List.mem_map.mp hy
        have heq : name = domain := eq_of_starless hmatch hboth.1
        have heq' : name' = domain := eq_of_starless hmatch' hboth.2
        exact hpair ⟨heq ▸ hname, heq' ▸ hname'⟩

end Candidates

/-! ## The order of the list does not matter to what is best -/

section Ordered

variable {certs : List Cert} {domain name : Str} {cert : Cert} {answer : Option Cert}

@[simp]
theorem hasNameFor_ordered : HasNameFor P (ordered certs) domain ↔ HasNameFor P certs domain := by
  simp only [HasNameFor, mem_ordered]

@[simp]
theorem comparable_ordered : Comparable P (ordered certs) domain ↔ Comparable P certs domain := by
  simp only [Comparable, mem_ordered]

theorem latestUnder_ordered :
    LatestUnder P (ordered certs) name cert ↔ LatestUnder P certs name cert := by
  constructor
  · intro h
    exact ⟨mem_ordered.mp h.mem, h.names, fun other hother =>
      h.latest other (mem_ordered.mpr hother)⟩
  · intro h
    exact ⟨mem_ordered.mpr h.mem, h.names, fun other hother =>
      h.latest other (mem_ordered.mp hother)⟩

@[simp]
theorem isLatestFor_ordered :
    IsLatestFor P (ordered certs) domain answer ↔ IsLatestFor P certs domain answer := by
  simp only [IsLatestFor, latestUnder_ordered]

/-- At most one certificate of the list has the name, in any order. -/
theorem pairwise_ordered_iff :
    ((ordered certs).Pairwise fun first second =>
        ¬ (name ∈ first.allDomains P ∧ name ∈ second.allDomains P)) ↔
      certs.Pairwise fun first second =>
        ¬ (name ∈ first.allDomains P ∧ name ∈ second.allDomains P) :=
  (perm_ordered certs).pairwise_iff fun h hflip => h ⟨hflip.2, hflip.1⟩

theorem oneStarless_ordered_iff : OneStarless (found P (ordered certs) domain) ↔
    ('*' ∉ domain → certs.Pairwise fun first second =>
      ¬ (domain ∈ first.allDomains P ∧ domain ∈ second.allDomains P)) := by
  rw [oneStarless_iff, pairwise_ordered_iff]

end Ordered

/-! ## What is found -/

section Found

variable {sort : CandidateSort} {certs : List Cert} {domain : Str} {tlsSettings : TlsSettings}

theorem serve_of_readable {now : Int} {allCertificates : List Cert}
    (h : ∀ cert ∈ allCertificates, (cert.metadata P).isSome) :
    serve P sort now allCertificates tlsSettings domain =
      findServerCertificate P sort (ordered (servable P now allCertificates))
        (indexOf P (ordered (servable P now allCertificates))) tlsSettings domain := by
  rw [serve, validCertificatesByDomains_of_readable h, ok_bind, getServerCertificateForDomain]
  simp only
  cases findServerCertificate P sort (ordered (servable P now allCertificates))
    (indexOf P (ordered (servable P now allCertificates))) tlsSettings domain with
  | error e => rfl
  | ok found => cases found <;> rfl

theorem findServerCertificate_of_indexed {cert : Cert} {index : Str → Option Cert}
    (h : index domain = some cert) :
    findServerCertificate P sort certs index tlsSettings domain = .ok (some cert) := by
  rw [findServerCertificate, h]
  rfl

theorem findServerCertificate_of_candidate {cert : Cert} {index : Str → Option Cert}
    (hindex : index domain = none)
    (h : firstCandidate P sort certs domain = .ok (some cert)) :
    findServerCertificate P sort certs index tlsSettings domain = .ok (some cert) := by
  rw [findServerCertificate, hindex]
  simp only [h, ok_bind, pure_eq_ok]

/-- The search for the default domain. -/
def defaultCandidate (P : Platform) (sort : CandidateSort) (certs : List Cert)
    (tlsSettings : TlsSettings) : Except TlsException (Option Cert) :=
  match tlsSettings.defaultDomain with
  | none => .ok none
  | some dd => firstCandidate P sort certs dd

/-- The last resort, where it is allowed. -/
def orRandom (certs : List Cert) (tlsSettings : TlsSettings) : Option Cert → Option Cert
  | some cert => some cert
  | none => if tlsSettings.randomIfNotFound then (certs.filter (!·.client)).head? else none

theorem findServerCertificate_of_no_candidate {index : Str → Option Cert}
    (hindex : index domain = none) (h : firstCandidate P sort certs domain = .ok none) :
    findServerCertificate P sort certs index tlsSettings domain =
      (defaultCandidate P sort certs tlsSettings).map (orRandom certs tlsSettings) := by
  rw [findServerCertificate, hindex]
  cases hdefault : tlsSettings.defaultDomain with
  | none =>
      simp only [h, ok_bind, pure_eq_ok, defaultCandidate, hdefault, map_ok, orRandom]
      cases tlsSettings.randomIfNotFound <;> rfl
  | some dd =>
      cases hfirst : firstCandidate P sort certs dd with
      | error e =>
          simp only [h, ok_bind, defaultCandidate, hdefault, hfirst, error_bind, map_error]
      | ok found =>
          simp only [h, ok_bind, pure_eq_ok, defaultCandidate, hdefault, hfirst, map_ok]
          cases found with
          | some cert => rfl
          | none => cases hrandom : tlsSettings.randomIfNotFound <;> simp [orRandom, hrandom]

theorem findServerCertificate_of_error {index : Str → Option Cert} {e : TlsException}
    (hindex : index domain = none) (h : firstCandidate P sort certs domain = .error e) :
    findServerCertificate P sort certs index tlsSettings domain = .error e := by
  rw [findServerCertificate, hindex]
  simp only [h, error_bind]

/-- The last resort takes the certificate for no client that expires last. -/
theorem orRandom_none_spec (horder : certs.Pairwise NotBefore) :
    if tlsSettings.randomIfNotFound ∧ ∃ cert ∈ certs, cert.client = false then
      ∃ cert ∈ certs, orRandom certs tlsSettings none = some cert ∧ cert.client = false ∧
        ∀ other ∈ certs, other.client = false → other.validTo ≤ cert.validTo
    else orRandom certs tlsSettings none = none := by
  have hfiltered : (certs.filter (!·.client)).Pairwise NotBefore := horder.filter _
  have hmem : ∀ cert, cert ∈ certs.filter (!·.client) ↔ cert ∈ certs ∧ cert.client = false := by
    intro cert
    simp [List.mem_filter]
  rw [orRandom]
  split
  case isTrue h =>
    obtain ⟨hrandom, other, hother, hclient⟩ := h
    obtain ⟨cert, rest, hlist⟩ := List.exists_cons_of_ne_nil
      (List.ne_nil_of_mem ((hmem other).mpr ⟨hother, hclient⟩))
    rw [hlist, List.pairwise_cons] at hfiltered
    obtain ⟨hcert, hcertClient⟩ := (hmem cert).mp (by rw [hlist]; exact List.mem_cons_self)
    refine ⟨cert, hcert, by rw [if_pos hrandom, hlist]; rfl, hcertClient, ?_⟩
    intro later hlater hlaterClient
    have hin := (hmem later).mpr ⟨hlater, hlaterClient⟩
    rw [hlist] at hin
    obtain rfl | hrest := List.mem_cons.mp hin
    · exact le_refl _
    · exact hfiltered.1 later hrest
  case isFalse h =>
    split
    case isTrue hrandom =>
      rw [List.head?_eq_none_iff, List.eq_nil_iff_forall_not_mem]
      intro cert hcert
      obtain ⟨hin, hclient⟩ := (hmem cert).mp hcert
      exact h ⟨hrandom, cert, hin, hclient⟩
    case isFalse => rfl

end Found

/-! ## When the best certificate is served -/

section Main

variable {sort : CandidateSort} {now : Int} {allCertificates : List Cert} {domain : Str}
  {tlsSettings : TlsSettings}

/-- What is found through the index is the best one, if it expires last. -/
theorem isBest_of_latestUnder {certs : List Cert} {cert : Cert}
    (h : LatestUnder P certs domain cert) : IsBest P certs tlsSettings domain (some cert) where
  exact _ := ⟨cert, rfl, h⟩
  wildcard hnames _ := absurd h.names (hnames cert h.mem)
  default hcovered := absurd (.inl ⟨cert, h.mem, h.names⟩) hcovered
  random hcovered := absurd (.inl ⟨cert, h.mem, h.names⟩) hcovered

theorem isBest_of_hasNameFor {certs : List Cert} {answer : Option Cert}
    (hnames : ∀ cert ∈ certs, domain ∉ cert.allDomains P) (hname : HasNameFor P certs domain)
    (h : IsLatestFor P certs domain answer) : IsBest P certs tlsSettings domain answer where
  exact hexact := by
    obtain ⟨cert, hcert, hdomain⟩ := hexact
    exact absurd hdomain (hnames cert hcert)
  wildcard _ _ := h
  default hcovered := absurd (.inr hname) hcovered
  random hcovered := absurd (.inr hname) hcovered

/-- What is found for the default domain, or as the last resort, is the best one where
nothing stands for the domain. -/
theorem isBest_of_not_covered {certs : List Cert} {answer : Option Cert}
    (horder : (ordered certs).Pairwise NotBefore) (hcovered : ¬ Covered P certs domain)
    (hlatest : ∀ dd ∈ tlsSettings.defaultDomain, HasNameFor P certs dd →
      IsLatestFor P certs dd answer)
    (hnone : (∀ dd ∈ tlsSettings.defaultDomain, ¬ HasNameFor P certs dd) → answer = none) :
    IsBest P certs tlsSettings domain (orRandom (ordered certs) tlsSettings answer) where
  exact hexact := absurd (.inl hexact) hcovered
  wildcard _ hname := absurd (.inr hname) hcovered
  default _ dd hdd hname := by
    obtain ⟨cert, name, rfl, hmatch, hunder⟩ := hlatest dd hdd hname
    exact ⟨cert, name, rfl, hmatch, hunder⟩
  random _ hdefault := by
    rw [hnone hdefault]
    simpa only [mem_ordered] using @orRandom_none_spec _ tlsSettings horder

/-- What is found for the default domain. -/
theorem defaultCandidate_spec {certs : List Cert} (hsort : SortsOrders sort)
    (h : ∀ dd ∈ tlsSettings.defaultDomain, Comparable P certs dd ∧
      ('*' ∉ dd → certs.Pairwise fun first second =>
        ¬ (dd ∈ first.allDomains P ∧ dd ∈ second.allDomains P))) :
    ∃ answer, defaultCandidate P sort (ordered certs) tlsSettings = .ok answer ∧
      (∀ dd ∈ tlsSettings.defaultDomain, HasNameFor P certs dd →
        IsLatestFor P certs dd answer) ∧
      ((∀ dd ∈ tlsSettings.defaultDomain, ¬ HasNameFor P certs dd) → answer = none) := by
  rw [defaultCandidate]
  cases hdefault : tlsSettings.defaultDomain with
  | none => exact ⟨none, rfl, by simp, fun _ => rfl⟩
  | some dd =>
      obtain ⟨hcomparable, hpairwise⟩ := h dd hdefault
      obtain ⟨answer, hanswer, hlatest, hnone⟩ := firstCandidate_of_oneStarless hsort
        (pairwise_ordered certs) (comparable_ordered.mpr hcomparable)
        (oneStarless_ordered_iff.mpr hpairwise)
      simp only [hasNameFor_ordered, isLatestFor_ordered] at hlatest hnone
      refine ⟨answer, hanswer, ?_, ?_⟩
      · rintro _ ⟨⟩
        exact hlatest
      · intro hname
        exact hnone (hname dd rfl)

theorem best_of_servesBest (hsort : SortsOrders sort)
    (h : ServesBest P now allCertificates tlsSettings domain) :
    ∃ answer, serve P sort now allCertificates tlsSettings domain = .ok answer ∧
      IsBest P (servable P now allCertificates) tlsSettings domain answer := by
  have horder := pairwise_ordered (servable P now allCertificates)
  rw [serve_of_readable h.readable]
  cases hindex : indexOf P (ordered (servable P now allCertificates)) domain with
  | some cert =>
      obtain ⟨hcert, hname, hfirst⟩ := indexOf_eq_some horder hindex
      rw [mem_ordered] at hcert
      refine ⟨_, findServerCertificate_of_indexed hindex, isBest_of_latestUnder ⟨hcert, hname, ?_⟩⟩
      intro other hother hothers
      exact (h.exact other hother cert hcert hothers hname).le
  | none =>
      have hnames := indexOf_eq_none.mp hindex
      have hcomparable := comparable_ordered.mpr
        (h.wildcard fun cert hcert => hnames cert (mem_ordered.mpr hcert))
      obtain ⟨answer, hanswer, hlatest, hnone⟩ := firstCandidate_of_oneStarless hsort horder
        hcomparable (oneStarless_of_not_named hnames)
      simp only [hasNameFor_ordered, isLatestFor_ordered, mem_ordered] at hlatest hnone hnames
      by_cases hname : HasNameFor P (servable P now allCertificates) domain
      · obtain ⟨cert, name, rfl, hmatch, hunder⟩ := hlatest hname
        exact ⟨_, findServerCertificate_of_candidate hindex hanswer,
          isBest_of_hasNameFor hnames hname ⟨cert, name, rfl, hmatch, hunder⟩⟩
      · have hcovered : ¬ Covered P (servable P now allCertificates) domain := by
          rintro (⟨cert, hcert, hdomain⟩ | hmatch)
          · exact hnames cert hcert hdomain
          · exact hname hmatch
        obtain ⟨found, hfound, hfoundLatest, hfoundNone⟩ :=
          defaultCandidate_spec hsort (h.default hcovered)
        rw [hnone hname] at hanswer
        rw [findServerCertificate_of_no_candidate hindex hanswer, hfound]
        exact ⟨_, rfl, isBest_of_not_covered horder hcovered hfoundLatest hfoundNone⟩

/-- Where the best certificate is served by every sort that keeps its promise, the
conditions for it hold. -/
theorem servesBest_of_best
    (h : ∃ answer, serve P (strictSort .illegalArgument) now allCertificates tlsSettings domain =
      .ok answer ∧ IsBest P (servable P now allCertificates) tlsSettings domain answer) :
    ServesBest P now allCertificates tlsSettings domain := by
  have horder := pairwise_ordered (servable P now allCertificates)
  obtain ⟨answer, hanswer, hbest⟩ := h
  have hreadable : ∀ cert ∈ allCertificates, (cert.metadata P).isSome := by
    by_contra hnot
    rw [serve, validCertificatesByDomains_of_not_readable hnot, error_bind] at hanswer
    contradiction
  rw [serve_of_readable hreadable] at hanswer
  cases hindex : indexOf P (ordered (servable P now allCertificates)) domain with
  | some cert =>
      -- the index has the certificate that expires first, and the best one expires last
      obtain ⟨hcert, hname, hfirst⟩ := indexOf_eq_some horder hindex
      rw [mem_ordered] at hcert
      simp only [mem_ordered] at hfirst
      rw [findServerCertificate_of_indexed hindex, Except.ok.injEq] at hanswer
      obtain ⟨best, hsome, hunder⟩ := hbest.exact ⟨cert, hcert, hname⟩
      rw [← hanswer, Option.some.injEq] at hsome
      subst hsome
      have hall : ∀ other ∈ servable P now allCertificates, domain ∈ other.allDomains P →
          other.validTo = cert.validTo := by
        intro other hother hothers
        exact le_antisymm (hunder.latest other hother hothers) (hfirst other hother hothers)
      refine ⟨hreadable, ?_, ?_, ?_⟩
      · intro first hfirst second hsecond hfirstName hsecondName
        rw [hall first hfirst hfirstName, hall second hsecond hsecondName]
      · intro hnames
        exact absurd hname (hnames cert hcert)
      · intro hcovered
        exact absurd (.inl ⟨cert, hcert, hname⟩) hcovered
  | none =>
      have hnames := indexOf_eq_none.mp hindex
      have hcomparable : Comparable P (ordered (servable P now allCertificates)) domain := by
        by_contra hnot
        obtain ⟨e, he⟩ := @firstCandidate_of_not_comparable P
          (ordered (servable P now allCertificates)) domain (strictSort .illegalArgument) hnot
        rw [findServerCertificate_of_error hindex he] at hanswer
        contradiction
      simp only [mem_ordered] at hnames
      refine ⟨hreadable, ?_, ?_, ?_⟩
      · intro first hfirst second hsecond hfirstName
        exact absurd hfirstName (hnames first hfirst)
      · intro _
        exact comparable_ordered.mp hcomparable
      · intro hcovered dd hdd
        obtain ⟨found, hfound, -, hnone⟩ := firstCandidate_of_oneStarless
          (sortsOrders_strictSort TlsException.illegalArgument) horder hcomparable
          (oneStarless_of_not_named fun cert hcert => hnames cert (mem_ordered.mp hcert))
        rw [hnone fun hname => hcovered (.inr (hasNameFor_ordered.mp hname))] at hfound
        rw [findServerCertificate_of_no_candidate hindex hfound, defaultCandidate, hdd] at hanswer
        have hdefault : Comparable P (ordered (servable P now allCertificates)) dd := by
          by_contra hnot
          obtain ⟨e, he⟩ := @firstCandidate_of_not_comparable P
            (ordered (servable P now allCertificates)) dd (strictSort .illegalArgument) hnot
          simp [he] at hanswer
        refine ⟨comparable_ordered.mp hdefault, oneStarless_ordered_iff.mp ?_⟩
        by_contra hnot
        simp [firstCandidate_of_not_oneStarless hdefault hnot] at hanswer

variable (P)

/-- A key manager serves the best certificate for a domain, however the platform sorts
what is no order, if and only if its certificates and settings allow it. -/
theorem best_iff (now : Int) (allCertificates : List Cert) (tlsSettings : TlsSettings)
    (domain : Str) :
    (∀ sort : CandidateSort, SortsOrders sort →
      ∃ answer, serve P sort now allCertificates tlsSettings domain = .ok answer ∧
        IsBest P (servable P now allCertificates) tlsSettings domain answer) ↔
      ServesBest P now allCertificates tlsSettings domain := by
  constructor
  · intro h
    exact servesBest_of_best (h _ (sortsOrders_strictSort _))
  · intro h sort hsort
    exact best_of_servesBest hsort h

end Main

/-! ## A renewed certificate -/

/-- Two chains: a certificate, and the one it was renewed with. -/
def renewedPlatform : Platform where
  certificateData chain :=
    if chain = "old".toList then
      some { domain := "www.oto.tools".toList, notBefore := 0, notAfter := 100 }
    else if chain = "new".toList then
      some { domain := "www.oto.tools".toList, notBefore := 0, notAfter := 200 }
    else none
  isValid _ := true

def oldCert : Cert := { id := "cert-old".toList, chain := "old".toList }

def newCert : Cert := { id := "cert-new".toList, chain := "new".toList }

/-- The old certificate is served, not the renewed one. -/
theorem exists_best_not_served :
    ¬ ∀ (P : Platform) (sort : CandidateSort) (now : Int) (allCertificates : List Cert)
        (tlsSettings : TlsSettings) (domain : Str), SortsOrders sort →
        ∃ answer, serve P sort now allCertificates tlsSettings domain = .ok answer ∧
          IsBest P (servable P now allCertificates) tlsSettings domain answer := by
  intro h
  have hserves := servesBest_of_best (h renewedPlatform (strictSort .illegalArgument) 50
    [oldCert, newCert] {} "www.oto.tools".toList (sortsOrders_strictSort _))
  have hlist : servable renewedPlatform 50 [oldCert, newCert] =
      [{ oldCert with
          domain := "www.oto.tools".toList, valid := true, subject := [], validTo := 100 },
        { newCert with
          domain := "www.oto.tools".toList, valid := true, subject := [], validTo := 200 }] := by
    decide
  have hsame := hserves.exact
  rw [hlist] at hsame
  have hdates := hsame _ List.mem_cons_self _ (List.mem_cons_of_mem _ List.mem_cons_self)
    (by decide) (by decide)
  revert hdates
  decide

end Otoroshi.Tls
