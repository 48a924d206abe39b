/-
# Which signatures are accepted

A signature is acceptable if it meets the configuration, is in time, and holds for one of the
keys that can be meant. The plugin computes with numbers of 64 bits, and it stops where something
throws. `accepts_iff` says what becomes of it: a request with an acceptable signature is let
through unless a sum leaves the range or something that throws comes first.
-/

import Mathlib.Algebra.Order.Ring.Int
import Otoroshi.Signatures.RoundTrip
import Otoroshi.Signatures.Verification

namespace Otoroshi

open HttpSigStructuredFields

namespace HttpSignatureVerifyRequest

variable {K J : Type} (P : SigEnv K J) (config : HttpSignatureVerifyRequestConfig) (now : Long)

/-! ## The policy -/

/-- The times of a signature, where sums are taken with `wrap`. A time before 1970 is none, and
a negative age is zero. -/
structure InTime (wrap : Int → Int) (input : SignatureInputValue) : Prop where
  created : ∀ c, input.created = some c → 0 ≤ c.1 ∧
    wrap (c.1 - config.clockSkewSeconds.1) ≤ now.1 ∧
    ∀ maxAge, config.maxAgeSeconds = some maxAge →
      wrap (now.1 - c.1) ≤ wrap (max 0 maxAge.1 + config.clockSkewSeconds.1)
  dated : config.maxAgeSeconds.isSome → input.created.isSome
  expires : ∀ e, input.expires = some e → now.1 ≤ wrap (e.1 + config.clockSkewSeconds.1)

/-- What a signature says meets the configuration. -/
structure Fulfils (input : SignatureInputValue) : Prop where
  covers : ∀ rc ∈ config.requiredComponents, P.toLowerCase rc ∈ coveredNames P input
  declares : ∀ a, declaredAlg P input = some a → a ∈ config.allowedAlgorithms
  identified : config.requireKeyid = true → input.keyid.isSome

/-- A key that can be meant: one with the id of the signature, or one without an id if no key has
that id. -/
def Selected (keyid : Option Str) (key : HttpSigKeySource) : Prop :=
  key ∈ config.keys ∧ ∀ k, keyid = some k →
    key.keyid = some k ∨ (key.keyid = none ∧ ∀ other ∈ config.keys, other.keyid ≠ some k)

/-- The algorithm of a key, which the one of the signature must not contradict, or else the one
of the signature. -/
def Consistent (input : SignatureInputValue) (key : HttpSigKeySource) (alg : Str) : Prop :=
  match key.alg with
  | some keyAlg =>
      alg = keyAlg ∧ ∀ d, declaredAlg P input = some d → P.equalsIgnoreCase keyAlg d = true
  | none => declaredAlg P input = some alg

/-- The signature holds for a key. -/
def VerifiesWith (input : SignatureInputValue) (base : Str) (sigBytes : List UInt8)
    (key : HttpSigKeySource) : Prop :=
  ∃ alg material, Consistent P input key alg ∧ alg ∈ config.allowedAlgorithms ∧
    HttpSigKeyResolver.publicKey P key alg input.keyid = .ok material ∧
    P.verify alg (HttpSigBase.utf8 base) sigBytes material = .ok ()

/-- The key cannot even be read, for instance a secret that is not well encoded. -/
def Unreadable (input : SignatureInputValue) (key : HttpSigKeySource) : Prop :=
  ∃ alg, Consistent P input key alg ∧ alg ∈ config.allowedAlgorithms ∧
    HttpSigKeyResolver.publicKey P key alg input.keyid = .error .thrown

section Candidates

variable (msg : HttpSigMessage) (sigs : List (Str × List UInt8))
  (candidate : Str × SignatureInputValue)

def baseOf : Except HttpSigBase.BuildError Str :=
  HttpSigBase.build P.toSigPlatform msg candidate.2 none

/-- Several signatures can have one label, and the last of them is meant. -/
def bytesOf : Option (List UInt8) := sigs.reverse.lookup candidate.1

/-- A signature as the configuration wants it. -/
def Acceptable : Prop :=
  Fulfils P config candidate.2 ∧ InTime config now id candidate.2 ∧
    ∃ sigBytes base key, bytesOf sigs candidate = some sigBytes ∧
      baseOf P msg candidate = .ok base ∧ Selected config candidate.2.keyid key ∧
      VerifiesWith P config candidate.2 base sigBytes key

/-- A signature that is in time in 64 bits, and holds for a key that is not behind one that
cannot be read. -/
def LetThrough : Prop :=
  Fulfils P config candidate.2 ∧ InTime config now wrapLong candidate.2 ∧
    ∃ sigBytes base, bytesOf sigs candidate = some sigBytes ∧
      baseOf P msg candidate = .ok base ∧
      ComesTo (Unreadable P config candidate.2) (VerifiesWith P config candidate.2 base sigBytes)
        (keysForKid config candidate.2.keyid)

/-- A signature that leads to a key that cannot be read, or covers a query that cannot be
decoded. -/
def Hinders : Prop :=
  Fulfils P config candidate.2 ∧ InTime config now wrapLong candidate.2 ∧
    ∃ sigBytes, bytesOf sigs candidate = some sigBytes ∧
      keysForKid config candidate.2.keyid ≠ [] ∧
      ((∃ text, baseOf P msg candidate = .error (.undecodable text)) ∨
        ∃ base, baseOf P msg candidate = .ok base ∧
          ComesTo (VerifiesWith P config candidate.2 base sigBytes)
            (Unreadable P config candidate.2) (keysForKid config candidate.2.keyid))

end Candidates

/-! ## The checks -/

section Checks

variable {P config now} {label : Str} {input : SignatureInputValue}

@[simp]
theorem about_ne_ok {α : Type} {what : Str} {value : α} :
    (about label what : Except (Refusal Str) α) ≠ .ok value := nofun

@[simp]
theorem about_ne_thrown {α : Type} {what : Str} :
    (about label what : Except (Refusal Str) α) ≠ .error .thrown := nofun

@[simp]
theorem pure_ne_thrown {α : Type} {value : α} :
    (pure value : Except (Refusal Str) α) ≠ .error .thrown := nofun

theorem ite_ne_thrown {α : Type} {p : Prop} [Decidable p] {first second : Except (Refusal Str) α}
    (hfirst : first ≠ .error .thrown) (hsecond : second ≠ .error .thrown) :
    (if p then first else second) ≠ .error .thrown := by
  split
  · exact hfirst
  · exact hsecond

theorem checkCovered_eq_ok_iff :
    checkCovered P config label input = .ok () ↔
      ∀ rc ∈ config.requiredComponents, P.toLowerCase rc ∈ coveredNames P input := by
  rw [checkCovered]
  simp only [List.isEmpty_iff, List.filter_eq_nil_iff, List.mem_map, Bool.not_eq_true,
    Bool.not_eq_false', List.contains_iff_mem, forall_exists_index, and_imp,
    forall_apply_eq_imp_iff₂]
  split
  · next h => exact iff_of_true rfl h
  · next h => exact iff_of_false about_ne_ok h

theorem checkCovered_ne_thrown : checkCovered P config label input ≠ .error .thrown := by
  rw [checkCovered]
  exact ite_ne_thrown pure_ne_thrown about_ne_thrown

theorem checkDeclared_eq_ok_iff :
    checkDeclared P config label input = .ok () ↔
      ∀ a, declaredAlg P input = some a → a ∈ config.allowedAlgorithms := by
  rw [checkDeclared]
  cases declaredAlg P input with
  | none => simp
  | some a =>
    by_cases h : a ∈ config.allowedAlgorithms <;> simp [h]

theorem checkDeclared_ne_thrown : checkDeclared P config label input ≠ .error .thrown := by
  rw [checkDeclared]
  split
  · exact ite_ne_thrown pure_ne_thrown about_ne_thrown
  · exact pure_ne_thrown

theorem checkCreated_eq_ok_iff :
    checkCreated config now label input = .ok () ↔
      (∀ c, input.created = some c → 0 ≤ c.1 ∧
        wrapLong (c.1 - config.clockSkewSeconds.1) ≤ now.1 ∧
        ∀ maxAge, config.maxAgeSeconds = some maxAge →
          wrapLong (now.1 - c.1) ≤ wrapLong (max 0 maxAge.1 + config.clockSkewSeconds.1)) ∧
      (config.maxAgeSeconds.isSome → input.created.isSome) := by
  rw [checkCreated]
  cases input.created with
  | none => cases config.maxAgeSeconds <;> simp
  | some c =>
    simp only [Option.some.injEq, forall_eq', Option.isSome_some, implies_true, and_true,
      gt_iff_lt]
    by_cases hnegative : c.1 < 0
    · rw [if_pos hnegative]
      exact iff_of_false about_ne_ok fun h => absurd h.1 (not_le.mpr hnegative)
    rw [if_neg hnegative]
    by_cases hfuture : now.1 < wrapLong (c.1 - config.clockSkewSeconds.1)
    · rw [if_pos hfuture]
      exact iff_of_false about_ne_ok fun h => absurd h.2.1 (not_le.mpr hfuture)
    rw [if_neg hfuture]
    simp only [not_lt.mp hnegative, not_lt.mp hfuture, true_and]
    cases config.maxAgeSeconds with
    | none => simp
    | some maxAge =>
      simp only [Option.some.injEq, forall_eq']
      split
      · next h => exact iff_of_false about_ne_ok (not_le.mpr h)
      · next h => exact iff_of_true rfl (not_lt.mp h)

theorem checkCreated_ne_thrown : checkCreated config now label input ≠ .error .thrown := by
  rw [checkCreated]
  split
  · split
    · exact about_ne_thrown
    split
    · exact about_ne_thrown
    split
    · exact ite_ne_thrown about_ne_thrown pure_ne_thrown
    · exact pure_ne_thrown
  · exact ite_ne_thrown about_ne_thrown pure_ne_thrown

theorem checkExpires_eq_ok_iff :
    checkExpires config now label input = .ok () ↔
      ∀ e, input.expires = some e → now.1 ≤ wrapLong (e.1 + config.clockSkewSeconds.1) := by
  rw [checkExpires]
  cases input.expires with
  | none => simp
  | some e =>
    simp only [Option.some.injEq, forall_eq', gt_iff_lt]
    split
    · next h => exact iff_of_false about_ne_ok (not_le.mpr h)
    · next h => exact iff_of_true rfl (not_lt.mp h)

theorem checkExpires_ne_thrown : checkExpires config now label input ≠ .error .thrown := by
  rw [checkExpires]
  split
  · exact ite_ne_thrown about_ne_thrown pure_ne_thrown
  · exact pure_ne_thrown

theorem checkKeyid_eq_ok_iff :
    checkKeyid config label input = .ok () ↔
      (config.requireKeyid = true → input.keyid.isSome) := by
  rw [checkKeyid]
  cases input.keyid <;> cases config.requireKeyid <;> simp

theorem checkKeyid_ne_thrown : checkKeyid config label input ≠ .error .thrown := by
  rw [checkKeyid]
  exact ite_ne_thrown about_ne_thrown pure_ne_thrown

theorem signatureBytes_eq_ok_iff {sigs : List (Str × List UInt8)} {sigBytes : List UInt8} :
    signatureBytes label sigs = .ok sigBytes ↔ sigs.reverse.lookup label = some sigBytes := by
  rw [signatureBytes]
  cases sigs.reverse.lookup label <;> simp

theorem signatureBytes_ne_thrown {sigs : List (Str × List UInt8)} :
    signatureBytes label sigs ≠ .error .thrown := by
  rw [signatureBytes]
  split <;> simp

theorem selectKeys_eq_ok_iff {keys : List HttpSigKeySource} :
    selectKeys config input = .ok keys ↔
      keysForKid config input.keyid ≠ [] ∧ keysForKid config input.keyid = keys := by
  rw [selectKeys]
  split
  · next h => simp [List.isEmpty_iff.mp h]
  · next h =>
    rw [pure_eq_ok, Except.ok.injEq]
    exact (and_iff_right (mt List.isEmpty_iff.mpr h)).symm

theorem selectKeys_ne_thrown : selectKeys config input ≠ .error .thrown := by
  rw [selectKeys]
  split <;> simp

theorem buildBase_eq_ok_iff {msg : HttpSigMessage} {base : Str} :
    buildBase P label input msg = .ok base ↔ baseOf P msg (label, input) = .ok base := by
  rw [buildBase, baseOf]
  split
  · next h => rw [h, pure_eq_ok, Except.ok.injEq, Except.ok.injEq]
  · next h => simp [h]
  · next h => simp [h]

theorem buildBase_eq_thrown_iff {msg : HttpSigMessage} :
    buildBase P label input msg = .error .thrown ↔
      ∃ text, baseOf P msg (label, input) = .error (.undecodable text) := by
  rw [buildBase, baseOf]
  split
  · next h => simp [h]
  · next h => simp [h]
  · next h => simp [h]

/-! ## The keys -/

theorem resolvedAlg_eq_ok_iff {head : HttpSigKeySource} {alg : Str} :
    resolvedAlg P label input head = .ok alg ↔ Consistent P input head alg := by
  rw [resolvedAlg, Consistent]
  cases head.alg with
  | none =>
    cases declaredAlg P input with
    | none => exact iff_of_false about_ne_ok nofun
    | some sigAlg => simp only [pure_eq_ok, Except.ok.injEq, Option.some.injEq]
  | some keyAlg =>
    cases declaredAlg P input with
    | none =>
      simp only [pure_eq_ok, Except.ok.injEq, reduceCtorEq, false_implies, implies_true, and_true]
      exact eq_comm
    | some sigAlg =>
      simp only [Option.some.injEq, forall_eq']
      split
      · next h =>
        rw [pure_eq_ok, Except.ok.injEq, and_iff_left h]
        exact eq_comm
      · next h => exact iff_of_false about_ne_ok fun hboth => h hboth.2

theorem resolvedAlg_ne_thrown {head : HttpSigKeySource} :
    resolvedAlg P label input head ≠ .error .thrown := by
  rw [resolvedAlg]
  split
  · exact ite_ne_thrown pure_ne_thrown about_ne_thrown
  · exact pure_ne_thrown
  · exact pure_ne_thrown
  · exact about_ne_thrown

theorem ofEither_eq_ok_iff {α : Type} {result : Except Str α} {value : α} :
    Refusal.ofEither result = .ok value ↔ result = .ok value := by
  cases result <;> simp [Refusal.ofEither]

theorem ofEither_ne_thrown {α : Type} {result : Except Str α} :
    Refusal.ofEither result ≠ .error .thrown := by
  cases result <;> simp [Refusal.ofEither]

section Keys

variable {base : Str} {sigBytes : List UInt8} {head : HttpSigKeySource} {covered : Bool}

/-- Whether the signature covers the digest of the body. -/
def coversDigest (P : SigEnv K J) (input : SignatureInputValue) : Bool :=
  (coveredNames P input).contains "content-digest".toList

theorem tryKey_eq_ok_iff :
    tryKey P config label input (HttpSigBase.utf8 base) sigBytes head = .ok covered ↔
      VerifiesWith P config input base sigBytes head ∧ coversDigest P input = covered := by
  rw [tryKey, bind_eq_ok_iff]
  constructor
  · rintro ⟨alg, halg, hrun⟩
    split at hrun
    · next hallowed =>
      obtain ⟨material, hmaterial, hrun⟩ := bind_eq_ok_iff.mp hrun
      obtain ⟨_, hverify, hrun⟩ := bind_eq_ok_iff.mp hrun
      refine ⟨⟨alg, material, resolvedAlg_eq_ok_iff.mp halg, List.contains_iff_mem.mp hallowed,
        hmaterial, ofEither_eq_ok_iff.mp hverify⟩, ?_⟩
      exact Except.ok.inj hrun
    · cases hrun
  · rintro ⟨⟨alg, material, halg, hallowed, hmaterial, hverify⟩, hcovered⟩
    refine ⟨alg, resolvedAlg_eq_ok_iff.mpr halg, ?_⟩
    rw [if_pos (List.contains_iff_mem.mpr hallowed), hmaterial, ok_bind,
      ofEither_eq_ok_iff.mpr hverify, ok_bind]
    exact congrArg Except.ok hcovered

theorem tryKey_eq_thrown_iff :
    tryKey P config label input (HttpSigBase.utf8 base) sigBytes head = .error .thrown ↔
      Unreadable P config input head := by
  rw [tryKey, bind_eq_thrown_iff, or_iff_right resolvedAlg_ne_thrown]
  refine exists_congr fun alg => ?_
  rw [resolvedAlg_eq_ok_iff]
  refine and_congr_right fun _ => ?_
  split
  · next hallowed =>
    rw [and_iff_right (List.contains_iff_mem.mp hallowed), bind_eq_thrown_iff]
    refine or_iff_left ?_
    rintro ⟨material, -, hrest⟩
    rcases bind_eq_thrown_iff.mp hrest with hverify | ⟨_, -, hdone⟩
    · exact ofEither_ne_thrown hverify
    · exact pure_ne_thrown hdone
  · next hallowed =>
    rw [List.contains_iff_mem] at hallowed
    exact iff_of_false nofun fun h => hallowed h.1

theorem exists_tryKey_eq_ok_iff :
    (∃ covered, tryKey P config label input (HttpSigBase.utf8 base) sigBytes head =
      .ok covered) ↔ VerifiesWith P config input base sigBytes head := by
  simp only [tryKey_eq_ok_iff, exists_and_left, exists_eq', and_true]

variable {keys : List HttpSigKeySource} {lastErr : Str}

theorem firstKey_eq_ok_iff :
    firstOk (tryKey P config label input (HttpSigBase.utf8 base) sigBytes) keys lastErr =
        .ok covered ↔
      ComesTo (Unreadable P config input) (VerifiesWith P config input base sigBytes) keys ∧
        coversDigest P input = covered := by
  have hsame : ∀ value, firstOk (tryKey P config label input (HttpSigBase.utf8 base) sigBytes)
      keys lastErr = .ok value → coversDigest P input = value := by
    intro value hvalue
    obtain ⟨key, -, hkey⟩ := (firstOk_eq_ok_iff.mp hvalue).exists_mem
    exact (tryKey_eq_ok_iff.mp hkey).2
  have hreaches : (∃ value, firstOk (tryKey P config label input (HttpSigBase.utf8 base) sigBytes)
      keys lastErr = .ok value) ↔
      ComesTo (Unreadable P config input) (VerifiesWith P config input base sigBytes) keys := by
    rw [exists_firstOk_eq_ok_iff]
    simp only [tryKey_eq_thrown_iff, exists_tryKey_eq_ok_iff]
  constructor
  · intro h
    exact ⟨hreaches.mp ⟨covered, h⟩, hsame covered h⟩
  · rintro ⟨hkeys, rfl⟩
    obtain ⟨value, hvalue⟩ := hreaches.mpr hkeys
    rw [hsame value hvalue, hvalue]

theorem firstKey_eq_thrown_iff :
    firstOk (tryKey P config label input (HttpSigBase.utf8 base) sigBytes) keys lastErr =
        .error .thrown ↔
      ComesTo (VerifiesWith P config input base sigBytes) (Unreadable P config input) keys := by
  rw [firstOk_eq_thrown_iff]
  simp only [tryKey_eq_thrown_iff, exists_tryKey_eq_ok_iff]

end Keys

/-- The keys that are tried are the ones that can be meant. -/
theorem mem_keysForKid_iff {keyid : Option Str} {key : HttpSigKeySource} :
    key ∈ keysForKid config keyid ↔ Selected config keyid key := by
  rw [Selected]
  cases keyid with
  | none => simp [keysForKid]
  | some k =>
    simp only [keysForKid, Option.some.injEq, forall_eq', List.isEmpty_iff, List.filter_eq_nil_iff,
      beq_iff_eq]
    split
    · next hnone =>
      simp only [List.mem_filter, Option.isNone_iff_eq_none]
      refine and_congr_right fun hmem => ?_
      rw [or_iff_right (hnone key hmem)]
      exact (and_iff_left hnone).symm
    · next hsome =>
      simp only [List.mem_filter, beq_iff_eq]
      refine and_congr_right fun _ => ?_
      exact (or_iff_left fun h => hsome h.2).symm

/-! ## One signature -/

section One

variable {msg : HttpSigMessage} {sigs : List (Str × List UInt8)} {covered : Bool}

/-- The checks before the keys. -/
theorem checks_eq_ok_iff :
    (checkCovered P config label input = .ok () ∧ checkDeclared P config label input = .ok () ∧
      checkCreated config now label input = .ok () ∧
      checkExpires config now label input = .ok () ∧ checkKeyid config label input = .ok ()) ↔
    Fulfils P config input ∧ InTime config now wrapLong input := by
  rw [checkCovered_eq_ok_iff, checkDeclared_eq_ok_iff, checkCreated_eq_ok_iff,
    checkExpires_eq_ok_iff, checkKeyid_eq_ok_iff]
  constructor
  · rintro ⟨hcovers, hdeclares, ⟨hcreated, hdated⟩, hexpires, hkeyid⟩
    exact ⟨⟨hcovers, hdeclares, hkeyid⟩, ⟨hcreated, hdated, hexpires⟩⟩
  · rintro ⟨hfulfils, htime⟩
    exact ⟨hfulfils.covers, hfulfils.declares, ⟨htime.created, htime.dated⟩, htime.expires,
      hfulfils.identified⟩

/-- What is left to do after the checks. -/
theorem verifyOne_of_checks (hfulfils : Fulfils P config input)
    (htime : InTime config now wrapLong input) :
    verifyOne P config now label input msg sigs = (do
      let sigBytes ← signatureBytes label sigs
      let keys ← selectKeys config input
      let base ← buildBase P label input msg
      firstOk (tryKey P config label input (HttpSigBase.utf8 base) sigBytes) keys
        "no matching key verified signature".toList) := by
  obtain ⟨hcovered, hdeclared, hcreated, hexpires, hkeyid⟩ := checks_eq_ok_iff.mpr
    ⟨hfulfils, htime⟩
  rw [verifyOne, hcovered, ok_bind, hdeclared, ok_bind, hcreated, ok_bind, hexpires, ok_bind,
    hkeyid, ok_bind]

/-- Nothing but a refusal comes of a signature that fails a check. -/
theorem exists_verifyOne_eq_left (h : ¬ (Fulfils P config input ∧
    InTime config now wrapLong input)) :
    ∃ message, verifyOne P config now label input msg sigs = .error (.left message) := by
  rw [verifyOne]
  refine exists_bind_eq_left checkCovered_ne_thrown fun _ hcovered => ?_
  refine exists_bind_eq_left checkDeclared_ne_thrown fun _ hdeclared => ?_
  refine exists_bind_eq_left checkCreated_ne_thrown fun _ hcreated => ?_
  refine exists_bind_eq_left checkExpires_ne_thrown fun _ hexpires => ?_
  refine exists_bind_eq_left checkKeyid_ne_thrown fun _ hkeyid => ?_
  exact absurd (checks_eq_ok_iff.mp ⟨hcovered, hdeclared, hcreated, hexpires, hkeyid⟩) h

theorem verifyOne_eq_ok_iff :
    verifyOne P config now label input msg sigs = .ok covered ↔
      LetThrough P config now msg sigs (label, input) ∧ coversDigest P input = covered := by
  by_cases hchecks : Fulfils P config input ∧ InTime config now wrapLong input
  · obtain ⟨hfulfils, htime⟩ := hchecks
    rw [verifyOne_of_checks hfulfils htime]
    simp only [bind_eq_ok_iff, signatureBytes_eq_ok_iff, selectKeys_eq_ok_iff, buildBase_eq_ok_iff,
      firstKey_eq_ok_iff]
    constructor
    · rintro ⟨sigBytes, hbytes, keys, ⟨-, rfl⟩, base, hbase, hreaches, hcovered⟩
      exact ⟨⟨hfulfils, htime, sigBytes, base, hbytes, hbase, hreaches⟩, hcovered⟩
    · rintro ⟨⟨-, -, sigBytes, base, hbytes, hbase, hreaches⟩, hcovered⟩
      obtain ⟨key, hkey, -⟩ := hreaches.exists_mem
      exact ⟨sigBytes, hbytes, _, ⟨List.ne_nil_of_mem hkey, rfl⟩, base, hbase, hreaches, hcovered⟩
  · obtain ⟨message, hmessage⟩ := @exists_verifyOne_eq_left _ _ P config now label input msg sigs
      hchecks
    rw [hmessage]
    exact iff_of_false nofun fun h => hchecks ⟨h.1.1, h.1.2.1⟩

theorem verifyOne_eq_thrown_iff :
    verifyOne P config now label input msg sigs = .error .thrown ↔
      Hinders P config now msg sigs (label, input) := by
  by_cases hchecks : Fulfils P config input ∧ InTime config now wrapLong input
  · obtain ⟨hfulfils, htime⟩ := hchecks
    rw [verifyOne_of_checks hfulfils htime]
    simp only [bind_eq_thrown_iff, signatureBytes_ne_thrown, selectKeys_ne_thrown, false_or,
      signatureBytes_eq_ok_iff, selectKeys_eq_ok_iff, buildBase_eq_ok_iff, buildBase_eq_thrown_iff,
      firstKey_eq_thrown_iff]
    constructor
    · rintro ⟨sigBytes, hbytes, keys, ⟨hne, rfl⟩, hlast⟩
      exact ⟨hfulfils, htime, sigBytes, hbytes, hne, hlast⟩
    · rintro ⟨-, -, sigBytes, hbytes, hne, hlast⟩
      exact ⟨sigBytes, hbytes, _, ⟨hne, rfl⟩, hlast⟩
  · obtain ⟨message, hmessage⟩ := @exists_verifyOne_eq_left _ _ P config now label input msg sigs
      hchecks
    rw [hmessage]
    exact iff_of_false (by simp) fun h => hchecks ⟨h.1, h.2.1⟩

/-- What is let through in 64 bits is acceptable if it is in time. -/
theorem LetThrough.acceptable {candidate : Str × SignatureInputValue}
    (h : LetThrough P config now msg sigs candidate) (htime : InTime config now id candidate.2) :
    Acceptable P config now msg sigs candidate := by
  obtain ⟨hfulfils, -, sigBytes, base, hbytes, hbase, hreaches⟩ := h
  obtain ⟨key, hkey, hverifies⟩ := hreaches.exists_mem
  exact ⟨hfulfils, htime, sigBytes, base, key, hbytes, hbase, mem_keysForKid_iff.mp hkey,
    hverifies⟩

/-- Conversely, where every key can be read. -/
theorem Acceptable.letThrough {candidate : Str × SignatureInputValue}
    (h : Acceptable P config now msg sigs candidate)
    (htime : InTime config now wrapLong candidate.2)
    (hreadable : ∀ key ∈ config.keys, ¬ Unreadable P config candidate.2 key) :
    LetThrough P config now msg sigs candidate := by
  obtain ⟨hfulfils, -, sigBytes, base, key, hbytes, hbase, hselected, hverifies⟩ := h
  refine ⟨hfulfils, htime, sigBytes, base, hbytes, hbase, ?_⟩
  exact comesTo_of_mem (mem_keysForKid_iff.mpr hselected) hverifies fun other hother =>
    hreadable other (mem_keysForKid_iff.mp hother).1

end One

/-- In 64 bits nothing changes where no sum leaves the range. -/
theorem inTime_wrapLong_iff
    (hcreated : ∀ c, input.created = some c →
      isLong (c.1 - config.clockSkewSeconds.1) = true ∧ isLong (now.1 - c.1) = true)
    (hage : ∀ maxAge, config.maxAgeSeconds = some maxAge →
      isLong (max 0 maxAge.1 + config.clockSkewSeconds.1) = true)
    (hexpires : ∀ e, input.expires = some e →
      isLong (e.1 + config.clockSkewSeconds.1) = true) :
    InTime config now wrapLong input ↔ InTime config now id input := by
  constructor
  · intro h
    refine ⟨fun c hc => ?_, h.dated, fun e he => ?_⟩
    · obtain ⟨hpositive, hskew, hold⟩ := h.created c hc
      rw [wrapLong_of_isLong (hcreated c hc).1] at hskew
      refine ⟨hpositive, hskew, fun maxAge hmax => ?_⟩
      have hle := hold maxAge hmax
      rwa [wrapLong_of_isLong (hcreated c hc).2, wrapLong_of_isLong (hage maxAge hmax)] at hle
    · have hle := h.expires e he
      rwa [wrapLong_of_isLong (hexpires e he)] at hle
  · intro h
    refine ⟨fun c hc => ?_, h.dated, fun e he => ?_⟩
    · obtain ⟨hpositive, hskew, hold⟩ := h.created c hc
      rw [wrapLong_of_isLong (hcreated c hc).1]
      refine ⟨hpositive, hskew, fun maxAge hmax => ?_⟩
      rw [wrapLong_of_isLong (hcreated c hc).2, wrapLong_of_isLong (hage maxAge hmax)]
      exact hold maxAge hmax
    · rw [wrapLong_of_isLong (hexpires e he)]
      exact h.expires e he

end Checks

/-! ## Requests -/

section Requests

variable (request : SigRequest) (inputs : List (Str × SignatureInputValue))
  (sigs : List (Str × List UInt8))

/-- Both headers are there and can be read. -/
def Parses : Prop :=
  ∃ sigInputRaw sigRaw, joinHeader (getAll P request "Signature-Input".toList) = some sigInputRaw ∧
    joinHeader (getAll P request "Signature".toList) = some sigRaw ∧
    parsed P sigInputRaw sigRaw = .ok (inputs, sigs)

/-- A request is let through exactly if it has an acceptable signature. -/
def Decides : Prop :=
  (∃ pending, access P config now request = some (.allowed, pending)) ↔
    ∃ candidate ∈ candidatesFor config inputs,
      Acceptable P config now (.fromRequest request) sigs candidate

/-- An acceptable signature is not behind one that throws, nor late because of a sum, and none
is in time because of a sum. -/
structure Undisturbed : Prop where
  notMasked : (∃ candidate ∈ candidatesFor config inputs,
      Acceptable P config now (.fromRequest request) sigs candidate) →
    ComesTo (Hinders P config now (.fromRequest request) sigs)
      (LetThrough P config now (.fromRequest request) sigs) (candidatesFor config inputs)
  notWrapped : ComesTo (Hinders P config now (.fromRequest request) sigs)
      (fun candidate => LetThrough P config now (.fromRequest request) sigs candidate ∧
        ¬ InTime config now id candidate.2) (candidatesFor config inputs) →
    ∃ candidate ∈ candidatesFor config inputs,
      Acceptable P config now (.fromRequest request) sigs candidate

variable {P config now request inputs sigs}

theorem exists_tryVerifyOne_eq_ok_iff {msg : HttpSigMessage}
    {candidates : List (Str × SignatureInputValue)} :
    (∃ covered, tryVerifyOne P config now msg candidates sigs = .ok covered) ↔
      ComesTo (Hinders P config now msg sigs) (LetThrough P config now msg sigs) candidates := by
  rw [show tryVerifyOne P config now msg candidates sigs = firstOk (fun candidate =>
    verifyOne P config now candidate.1 candidate.2 msg sigs) candidates
    "no candidate signature verified".toList from rfl, exists_firstOk_eq_ok_iff]
  simp only [verifyOne_eq_thrown_iff, verifyOne_eq_ok_iff, exists_and_left, exists_eq', and_true]

/-- The request is let through with the first signature that holds, and the digest is to be
checked if that one covers it. -/
theorem access_eq_allowed_iff (h : Parses P request inputs sigs) {pending : Bool} :
    access P config now request = some (.allowed, pending) ↔
      tryVerifyOne P config now (.fromRequest request) (candidatesFor config inputs) sigs =
        .ok pending := by
  obtain ⟨sigInputRaw, sigRaw, hinput, hsig, hparsed⟩ := h
  rw [access, hinput, hsig]
  simp only [hparsed]
  split
  · next hempty =>
    rw [List.isEmpty_iff.mp hempty]
    exact iff_of_false (by simp) nofun
  · split
    · next heq => simp [heq]
    · next heq => simp [heq]
    · next heq => simp [heq]

theorem exists_access_eq_allowed_iff (h : Parses P request inputs sigs) :
    (∃ pending, access P config now request = some (.allowed, pending)) ↔
      ComesTo (Hinders P config now (.fromRequest request) sigs)
        (LetThrough P config now (.fromRequest request) sigs) (candidatesFor config inputs) := by
  simp only [access_eq_allowed_iff h]
  exact exists_tryVerifyOne_eq_ok_iff

/-- Where nothing throws and no sum leaves the range, nothing disturbs. -/
theorem undisturbed_of_regular
    (htime : ∀ candidate ∈ candidatesFor config inputs,
      InTime config now wrapLong candidate.2 ↔ InTime config now id candidate.2)
    (hreadable : ∀ candidate ∈ candidatesFor config inputs, ∀ key ∈ config.keys,
      ¬ Unreadable P config candidate.2 key)
    (hdecodable : ∀ candidate ∈ candidatesFor config inputs, ∀ text,
      baseOf P (.fromRequest request) candidate ≠ .error (.undecodable text)) :
    Undisturbed P config now request inputs sigs := by
  have hhinders : ∀ candidate ∈ candidatesFor config inputs,
      ¬ Hinders P config now (.fromRequest request) sigs candidate := by
    rintro candidate hmem ⟨-, -, sigBytes, -, -, ⟨text, htext⟩ | ⟨base, -, hreaches⟩⟩
    · exact hdecodable candidate hmem text htext
    · obtain ⟨key, hkey, hunreadable⟩ := hreaches.exists_mem
      exact hreadable candidate hmem key (mem_keysForKid_iff.mp hkey).1 hunreadable
  constructor
  · rintro ⟨candidate, hmem, hacceptable⟩
    exact comesTo_of_mem hmem (hacceptable.letThrough ((htime candidate hmem).mpr hacceptable.2.1)
      (hreadable candidate hmem)) hhinders
  · intro hreaches
    obtain ⟨candidate, hmem, hthrough, hlate⟩ := hreaches.exists_mem
    exact absurd ((htime candidate hmem).mp hthrough.2.1) hlate

/-- The plugin lets exactly the requests with an acceptable signature through, if and only if
nothing that throws and no sum out of range comes between. -/
theorem decides_iff_undisturbed (h : Parses P request inputs sigs) :
    Decides P config now request inputs sigs ↔
      Undisturbed P config now request inputs sigs := by
  rw [Decides, exists_access_eq_allowed_iff h]
  constructor
  · intro hdecides
    refine ⟨hdecides.mpr, fun hreaches => hdecides.mp ?_⟩
    exact hreaches.mono fun candidate => And.left
  · intro hundisturbed
    refine ⟨fun hreaches => ?_, hundisturbed.notMasked⟩
    by_cases hwrapped : ComesTo (Hinders P config now (.fromRequest request) sigs)
      (fun candidate => LetThrough P config now (.fromRequest request) sigs candidate ∧
        ¬ InTime config now id candidate.2) (candidatesFor config inputs)
    · exact hundisturbed.notWrapped hwrapped
    · obtain ⟨before, candidate, after, hlist, hthrough, hbefore⟩ := hreaches
      have htime : InTime config now id candidate.2 := by
        by_contra hlate
        exact hwrapped ⟨before, candidate, after, hlist, ⟨hthrough, hlate⟩, hbefore⟩
      exact ⟨candidate, hlist ▸ List.mem_append_right _ List.mem_cons_self,
        hthrough.acceptable htime⟩

end Requests

/-! ## Examples -/

/-- Signatures hold with the secret `secret`. -/
def exampleEnv : SigEnv Unit Unit where
  toSigPlatform := asciiPlatform
  equalsIgnoreCase a b := a.map Char.toLower == b.map Char.toLower
  isWhitespace := Char.isWhitespace
  parseHex _ := none
  decodeUrl _ := none
  messageOf _ := []
  certificate _ := none
  parsePemPublic _ := .error "invalid PEM public key".toList
  fetchJwks url := .error (.left url)
  jwkToPublicKey _ alg := .error alg
  verify _ _ _ key :=
    match key with
    | .inl secret => if secret = HttpSigBase.utf8 "secret".toList then .ok () else .error []
    | .inr _ => .error []

def goodKey : HttpSigKeySource := .inline "secret".toList none none

/-- A secret that is not well encoded. -/
def badKey : HttpSigKeySource := .inline "base64:!".toList none none

def exampleConfig (keys : List HttpSigKeySource) : HttpSignatureVerifyRequestConfig where
  keys := keys
  requiredComponents := []
  requireKeyid := false

theorem isLong_exampleNow : isLong 1700000000 = true := rfl

def exampleNow : Long := ⟨1700000000, isLong_exampleNow⟩

/-- A signature of the digest of the body that was just made, and that expires at some time. -/
def exampleSignature (expires : Long) : SignatureInputValue where
  components := [⟨"content-digest".toList, []⟩]
  params := [("created".toList, .int exampleNow), ("expires".toList, .int expires),
    ("alg".toList, .string HttpSigAlgorithms.hmac256)]

def exampleRequest (digest : Str) (expires : Long) : SigRequest where
  method := "GET".toList
  theProtocol := "https".toList
  theHost := "otoroshi.oto.tools".toList
  relativeUri := "/".toList
  headers := [
    ("Content-Digest".toList, digest),
    ("Signature-Input".toList, serializeSignatureInputDict asciiPlatform.toCharPlatform
      [("sig1".toList, exampleSignature expires)]),
    ("Signature".toList, serializeSignatureDict [("sig1".toList, [1])])]

theorem isInput_exampleSignature (expires : Long) : IsInput (exampleSignature expires) := by
  refine ⟨List.forall_mem_singleton.mpr ⟨unquoted_of_all rfl, List.forall_mem_nil _⟩, ?_⟩
  intro param hparam
  obtain rfl | rfl | rfl : param = ("created".toList, .int exampleNow) ∨
      param = ("expires".toList, .int expires) ∨
        param = ("alg".toList, .string HttpSigAlgorithms.hmac256) := by
    simpa [exampleSignature] using hparam
  · exact isParam_of_ne_token (isKey_of_all rfl rfl) (by simp)
  · exact isParam_of_ne_token (isKey_of_all rfl rfl) (by simp)
  · exact isParam_of_ne_token (isKey_of_all rfl rfl) (by simp)

theorem joinHeader_singleton (value : Str) : joinHeader [value] = some value := by
  simp [joinHeader]

/-- The digest of an empty body. -/
def exampleDigest : Str := "sha-256=:47DEQpj8HBSa+/TImW+5JCeuQeRkm5NMpJWZG3hSuFU=:".toList

theorem parses_exampleRequest (digest : Str) (expires : Long) :
    Parses exampleEnv (exampleRequest digest expires) [("sig1".toList, exampleSignature expires)]
      [("sig1".toList, [1])] := by
  refine ⟨serializeSignatureInputDict asciiPlatform.toCharPlatform
    [("sig1".toList, exampleSignature expires)], serializeSignatureDict [("sig1".toList, [1])],
    joinHeader_singleton _, joinHeader_singleton _, ?_⟩
  have hinput := @parse_serializeSignatureInputDict asciiPlatform.toCharPlatform
    standard_asciiPlatform [("sig1".toList, exampleSignature expires)]
    (List.forall_mem_singleton.mpr isKey_label)
    (List.forall_mem_singleton.mpr (isInput_exampleSignature expires))
  have hsigs := @parse_serializeSignatureDict asciiPlatform.toCharPlatform
    standard_asciiPlatform [("sig1".toList, [1])] (List.forall_mem_singleton.mpr isKey_label)
  have hinput' : parseSignatureInputDict exampleEnv.toCharPlatform
      (serializeSignatureInputDict asciiPlatform.toCharPlatform
        [("sig1".toList, exampleSignature expires)]) =
      .ok [("sig1".toList, exampleSignature expires)] := hinput
  have hsigs' : parseSignatureDict exampleEnv.toCharPlatform
      (serializeSignatureDict [("sig1".toList, [1])]) = .ok [("sig1".toList, [1])] := hsigs
  rw [parsed, hinput', ok_bind, hsigs', ok_bind]
  rfl

/-- An inline secret is decoded, if it has no dash and so is no pem key. -/
theorem publicKey_inline {secret : Str} (hdash : '-' ∉ secret) :
    HttpSigKeyResolver.publicKey exampleEnv (.inline secret none none) HttpSigAlgorithms.hmac256
        none =
      ((HttpSigKeyResolver.decodeSecret exampleEnv secret).map fun bytes => .ok (.inl bytes)).getD
        (.error .thrown) := by
  have hpem : ¬ "-----BEGIN".toList <:+: secret := fun h => hdash (h.subset List.mem_cons_self)
  have hmac : HttpSigAlgorithms.isHmac HttpSigAlgorithms.hmac256 = true := rfl
  rw [HttpSigKeyResolver.publicKey, if_neg fun h => hpem h.2, if_pos hmac]
  cases HttpSigKeyResolver.decodeSecret exampleEnv secret <;> rfl

theorem publicKey_goodKey :
    HttpSigKeyResolver.publicKey exampleEnv goodKey HttpSigAlgorithms.hmac256 none =
      .ok (.inl (HttpSigBase.utf8 "secret".toList)) :=
  publicKey_inline (by decide)

/-- The secret that is not well encoded throws. -/
theorem publicKey_badKey :
    HttpSigKeyResolver.publicKey exampleEnv badKey HttpSigAlgorithms.hmac256 none =
      .error .thrown :=
  publicKey_inline (by decide)

/-- The signature is acceptable wherever the good key is, if it has not expired. -/
theorem acceptable_exampleSignature {keys : List HttpSigKeySource} {digest : Str}
    {expires : Long} (hkey : goodKey ∈ keys) (hexpires : exampleNow.1 ≤ expires.1 + 30) :
    Acceptable exampleEnv (exampleConfig keys) exampleNow
      (.fromRequest (exampleRequest digest expires)) [("sig1".toList, [1])]
      ("sig1".toList, exampleSignature expires) := by
  have hcreated : (exampleSignature expires).created = some exampleNow := rfl
  have hexpiresParam : (exampleSignature expires).expires = some expires := rfl
  have hdeclared : declaredAlg exampleEnv (exampleSignature expires) =
      some HttpSigAlgorithms.hmac256 := rfl
  have hallowed : HttpSigAlgorithms.hmac256 ∈ (exampleConfig keys).allowedAlgorithms :=
    List.mem_cons_self
  refine ⟨⟨List.forall_mem_nil _, ?_, nofun⟩, ⟨?_, fun _ => rfl, ?_⟩, [1], _, goodKey, rfl, rfl,
    ⟨hkey, nofun⟩, HttpSigAlgorithms.hmac256, .inl (HttpSigBase.utf8 "secret".toList), hdeclared,
    hallowed, publicKey_goodKey, rfl⟩
  · intro a ha
    rw [hdeclared, Option.some.injEq] at ha
    exact ha ▸ hallowed
  · intro c hc
    rw [hcreated, Option.some.injEq] at hc
    rw [← hc]
    have hskew : exampleNow.1 - 30 ≤ exampleNow.1 := by decide
    have hage : exampleNow.1 - exampleNow.1 ≤ max 0 300 + 30 := by decide
    refine ⟨by decide, hskew, ?_⟩
    intro maxAge hmax
    cases hmax
    exact hage
  · intro e he
    rw [hexpiresParam, Option.some.injEq] at he
    rw [← he]
    exact hexpires

theorem inTime_exampleSignature :
    InTime (exampleConfig [goodKey]) exampleNow wrapLong (exampleSignature exampleNow) ↔
      InTime (exampleConfig [goodKey]) exampleNow id (exampleSignature exampleNow) := by
  apply inTime_wrapLong_iff
  · intro c hc
    cases hc
    decide
  · intro maxAge hmax
    cases hmax
    decide
  · intro e he
    cases he
    decide

theorem readable_goodKey : ∀ key ∈ (exampleConfig [goodKey]).keys,
    ¬ Unreadable exampleEnv (exampleConfig [goodKey]) (exampleSignature exampleNow) key := by
  refine List.forall_mem_singleton.mpr ?_
  rintro ⟨alg, hconsistent, -, hthrown⟩
  have halg : alg = HttpSigAlgorithms.hmac256 := (Option.some.inj hconsistent).symm
  rw [halg] at hthrown
  exact absurd (hthrown.symm.trans publicKey_goodKey) nofun

/-- The key and the time of the example are as they should be. -/
theorem undisturbed_example :
    Undisturbed exampleEnv (exampleConfig [goodKey]) exampleNow
      (exampleRequest exampleDigest exampleNow)
      [("sig1".toList, exampleSignature exampleNow)] [("sig1".toList, [1])] := by
  apply undisturbed_of_regular
  · exact List.forall_mem_singleton.mpr inTime_exampleSignature
  · exact List.forall_mem_singleton.mpr readable_goodKey
  · exact List.forall_mem_singleton.mpr fun text htext => absurd htext nofun

theorem decides_iff_undisturbed_example :
    Decides exampleEnv (exampleConfig [goodKey]) exampleNow
      (exampleRequest exampleDigest exampleNow)
      [("sig1".toList, exampleSignature exampleNow)] [("sig1".toList, [1])] :=
  (decides_iff_undisturbed (parses_exampleRequest exampleDigest exampleNow)).mpr undisturbed_example

/-- No signature is let through if the first key cannot be read. -/
theorem not_letThrough_badKey {expires : Long} {msg : HttpSigMessage} :
    ¬ LetThrough exampleEnv (exampleConfig [badKey, goodKey]) exampleNow msg
      [("sig1".toList, [1])] ("sig1".toList, exampleSignature expires) := by
  rintro ⟨-, -, sigBytes, base, -, -, hreaches⟩
  have halg : ∀ alg, Consistent exampleEnv (exampleSignature expires) badKey alg →
      alg = HttpSigAlgorithms.hmac256 := fun alg h => (Option.some.inj h).symm
  rcases comesTo_cons.mp hreaches with ⟨alg, material, hconsistent, -, hmaterial, -⟩ | ⟨hread, -⟩
  · rw [halg alg hconsistent] at hmaterial
    exact absurd (hmaterial.symm.trans publicKey_badKey) nofun
  · exact hread ⟨HttpSigAlgorithms.hmac256, rfl, List.mem_cons_self, publicKey_badKey⟩

/-- The end of time. -/
def lastSecond : Long := ⟨2 ^ 63 - 1, rfl⟩

/-- To wait until the end of time takes more than 64 bits. -/
theorem not_letThrough_lastSecond {keys : List HttpSigKeySource} {msg : HttpSigMessage} :
    ¬ LetThrough exampleEnv (exampleConfig keys) exampleNow msg
      [("sig1".toList, [1])] ("sig1".toList, exampleSignature lastSecond) := by
  rintro ⟨-, htime, -⟩
  have hexpired : ¬ exampleNow.1 ≤ wrapLong (lastSecond.1 + 30) := by decide
  exact hexpired (htime.expires lastSecond rfl)

theorem not_decides_of_not_letThrough {keys : List HttpSigKeySource} {digest : Str}
    {expires : Long} (hkey : goodKey ∈ keys) (hexpires : exampleNow.1 ≤ expires.1 + 30)
    (h : ¬ LetThrough exampleEnv (exampleConfig keys) exampleNow
      (.fromRequest (exampleRequest digest expires)) [("sig1".toList, [1])]
      ("sig1".toList, exampleSignature expires)) :
    ¬ Decides exampleEnv (exampleConfig keys) exampleNow (exampleRequest digest expires)
      [("sig1".toList, exampleSignature expires)] [("sig1".toList, [1])] := by
  intro hdecides
  have hallowed := hdecides.mpr ⟨_, List.mem_singleton_self _,
    acceptable_exampleSignature hkey hexpires⟩
  rw [exists_access_eq_allowed_iff (parses_exampleRequest digest expires)] at hallowed
  obtain ⟨candidate, hmem, hthrough⟩ := hallowed.exists_mem
  rw [List.mem_singleton.mp hmem] at hthrough
  exact h hthrough

/-- A signature that holds with the second key is not accepted because the first one cannot be
decoded, and one that never expires is taken for expired. -/
theorem exists_not_decides :
    ¬ Decides exampleEnv (exampleConfig [badKey, goodKey]) exampleNow
        (exampleRequest exampleDigest exampleNow) [("sig1".toList, exampleSignature exampleNow)]
        [("sig1".toList, [1])] ∧
      ¬ Decides exampleEnv (exampleConfig [goodKey]) exampleNow
        (exampleRequest exampleDigest lastSecond) [("sig1".toList, exampleSignature lastSecond)]
        [("sig1".toList, [1])] :=
  ⟨not_decides_of_not_letThrough (List.mem_cons_of_mem _ (List.mem_singleton_self _)) (by decide)
      not_letThrough_badKey,
    not_decides_of_not_letThrough (List.mem_singleton_self _) (by decide)
      not_letThrough_lastSecond⟩

end HttpSignatureVerifyRequest

end Otoroshi
