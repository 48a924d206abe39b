/-
# Plugins that add headers

Four plugins add the headers of their configuration to a request or to a response. Two of them
add every header, and two only those that are missing. The headers of a message are a map from
names to values, and such a map tells names apart that differ in nothing but their case, while a
header has one name whatever its case.

So a configured header is the only one of its name exactly when the message spells the name in a
way the plugin looks for. `additional_iff` and `missing_iff` say which spellings these are.
-/

import Otoroshi.Foundation.Maps
import Otoroshi.Foundation.Text

namespace Otoroshi

/-- The headers of a message, or of a configuration. -/
abbrev Headers := AList fun _ : Str => Str

/-- `toLowerCase`, on the characters that a header name is made of. -/
def lowerName (name : Str) : Str := name.map Char.toLower

/-- Names of one header. -/
def SameName (name other : Str) : Prop := lowerName name = lowerName other

instance (name other : Str) : Decidable (SameName name other) :=
  inferInstanceAs (Decidable (lowerName name = lowerName other))

namespace Headers

/-- `++`, with the configured values evaluated. -/
def addAll (evaluate : Str → Str) (config headers : Headers) : Headers :=
  Maps.insertAll (config.entries.map fun entry => (entry.1, evaluate entry.2)) headers

/-- The configured headers that the message has neither as they are nor in lower case. -/
def missing (config headers : Headers) : Headers :=
  Maps.filterKeys (fun key => key ∉ headers && lowerName key ∉ headers) config

end Headers

/-- A value of the configuration is an expression over the request. -/
structure HeaderContext where
  headersExpressionLanguage : Str → Str
  config : Headers

def AdditionalHeadersOut.transformResponseSync (ctx : HeaderContext) (headers : Headers) :
    Headers :=
  Headers.addAll ctx.headersExpressionLanguage ctx.config headers

def AdditionalHeadersIn.transformRequestSync (ctx : HeaderContext) (headers : Headers) :
    Headers :=
  Headers.addAll ctx.headersExpressionLanguage ctx.config headers

def MissingHeadersIn.transformRequestSync (ctx : HeaderContext) (headers : Headers) : Headers :=
  Headers.addAll ctx.headersExpressionLanguage (Headers.missing ctx.config headers) headers

def MissingHeadersOut.transformResponseSync (ctx : HeaderContext) (headers : Headers) : Headers :=
  Headers.addAll ctx.headersExpressionLanguage (Headers.missing ctx.config headers) headers

/-! ## One header per name -/

/-- The header is there under one spelling of its name, with the value. -/
def OccursOnce (headers : Headers) (name value : Str) : Prop :=
  ∃ key, SameName key name ∧ headers.lookup key = some value ∧
    ∀ other ∈ headers, SameName other name → other = key

/-- The headers of other names are as they were. -/
def KeepsOthers (config headers result : Headers) : Prop :=
  ∀ key, (∀ name ∈ config, ¬ SameName key name) → result.lookup key = headers.lookup key

structure AddsOne (ctx : HeaderContext) (headers result : Headers) : Prop where
  configured : ∀ name value, ctx.config.lookup name = some value →
    OccursOnce result name (ctx.headersExpressionLanguage value)
  others : KeepsOthers ctx.config headers result

structure CompletesOne (ctx : HeaderContext) (headers result : Headers) : Prop where
  incoming : ∀ name ∈ ctx.config, ∀ key value, SameName key name →
    headers.lookup key = some value → OccursOnce result name value
  configured : ∀ name value, ctx.config.lookup name = some value →
    (∀ key ∈ headers, ¬ SameName key name) →
    OccursOnce result name (ctx.headersExpressionLanguage value)
  others : KeepsOthers ctx.config headers result

/-- The configuration spells no name twice, and the message spells each configured name as the
configuration does. -/
def SpelledAlike (config headers : Headers) : Prop :=
  ∀ name ∈ config, (∀ other ∈ config, SameName other name → other = name) ∧
    ∀ key ∈ headers, SameName key name → key = name

/-- The message spells each configured name once, as the configuration does or in lower case, and
the configuration spells a name once that the message does not have. -/
def SpelledOnce (config headers : Headers) : Prop :=
  ∀ name ∈ config,
    (∀ key ∈ headers, SameName key name →
      (key = name ∨ key = lowerName name) ∧ ∀ other ∈ headers, SameName other name → other = key) ∧
    ((∀ key ∈ headers, ¬ SameName key name) →
      ∀ other ∈ config, SameName other name → other = name)

variable {ctx : HeaderContext} {evaluate : Str → Str} {config headers result : Headers}
  {name key value : Str}

theorem SameName.refl (name : Str) : SameName name name := rfl

theorem lowerName_lowerName (name : Str) : lowerName (lowerName name) = lowerName name := by
  rw [lowerName, lowerName, List.map_map]
  refine List.map_congr_left fun c _ => ?_
  exact toLower_toLower c

theorem sameName_lowerName (name : Str) : SameName (lowerName name) name :=
  lowerName_lowerName name

namespace Headers

theorem mem_iff : key ∈ headers ↔ ∃ value, headers.lookup key = some value := by
  rw [← AList.lookup_isSome, Option.isSome_iff_exists]

theorem lookup_addAll (evaluate : Str → Str) (config headers : Headers) (key : Str) :
    (addAll evaluate config headers).lookup key =
      ((config.lookup key).map evaluate).or (headers.lookup key) := by
  have hkeys : (config.entries.map fun entry => (entry.1, evaluate entry.2)).map Prod.fst =
      config.keys := by
    rw [List.map_map]
    rfl
  rw [addAll, Maps.lookup_insertAll (hkeys ▸ config.keys_nodup), Maps.lookup_map_entries]

theorem mem_addAll : key ∈ addAll evaluate config headers ↔ key ∈ config ∨ key ∈ headers := by
  rw [← AList.lookup_isSome, ← AList.lookup_isSome, ← AList.lookup_isSome, lookup_addAll,
    Option.isSome_or, Option.isSome_map, Bool.or_eq_true]

theorem keepsOthers_addAll {added : Headers} (h : ∀ key ∈ added, key ∈ config) :
    KeepsOthers config headers (addAll evaluate added headers) := by
  intro key hother
  have hnone : added.lookup key = none :=
    AList.lookup_eq_none.mpr fun hkey => hother key (h key hkey) (SameName.refl key)
  rw [lookup_addAll, hnone, Option.map_none, Option.none_or]

theorem lookup_missing (config headers : Headers) (key : Str) :
    (missing config headers).lookup key =
      if key ∉ headers ∧ lowerName key ∉ headers then config.lookup key else none := by
  rw [missing, Maps.lookup_filterKeys]
  simp only [Bool.and_eq_true, decide_eq_true_eq]

theorem mem_missing : key ∈ missing config headers ↔
    (key ∉ headers ∧ lowerName key ∉ headers) ∧ key ∈ config := by
  rw [← AList.lookup_isSome, lookup_missing]
  split_ifs with hmissing
  · rw [AList.lookup_isSome]
    exact (and_iff_right hmissing).symm
  · exact iff_of_false Bool.false_ne_true fun h => hmissing h.1

end Headers

open Headers

/-! ## Headers that are added -/

/-- A name that the result has is the one it occurs under. -/
theorem OccursOnce.unique {other : Str} (h : OccursOnce result name value) (hkey : key ∈ result)
    (hsame : SameName key name) (hother : other ∈ result) (hsameOther : SameName other name) :
    other = key := by
  obtain ⟨found, -, -, honly⟩ := h
  rw [honly key hkey hsame, honly other hother hsameOther]

theorem OccursOnce.of_forall (hlookup : result.lookup key = some value) (hsame : SameName key name)
    (honly : ∀ other ∈ result, SameName other name → other = key) :
    OccursOnce result name value :=
  ⟨key, hsame, hlookup, honly⟩

/-- An added header is the only one of its name exactly when the message spells the name as the
configuration does. -/
theorem addsOne_iff (ctx : HeaderContext) (headers : Headers) :
    AddsOne ctx headers (addAll ctx.headersExpressionLanguage ctx.config headers) ↔
      SpelledAlike ctx.config headers := by
  constructor
  · intro h name hname
    obtain ⟨value, hvalue⟩ := Headers.mem_iff.mp hname
    have honce := h.configured name value hvalue
    have hresult : name ∈ addAll ctx.headersExpressionLanguage ctx.config headers :=
      mem_addAll.mpr (.inl hname)
    constructor
    · intro other hother hsame
      exact honce.unique hresult (SameName.refl name) (mem_addAll.mpr (.inl hother)) hsame
    · intro key hkey hsame
      exact honce.unique hresult (SameName.refl name) (mem_addAll.mpr (.inr hkey)) hsame
  · intro h
    refine ⟨fun name value hvalue => ?_, keepsOthers_addAll fun key hkey => hkey⟩
    have hname := Headers.mem_iff.mpr ⟨value, hvalue⟩
    refine OccursOnce.of_forall ?_ (SameName.refl name) fun other hother hsame => ?_
    · rw [lookup_addAll, hvalue, Option.map_some, Option.some_or]
    · rcases mem_addAll.mp hother with hconfig | hheaders
      · exact (h name hname).1 other hconfig hsame
      · exact (h name hname).2 other hheaders hsame

/-! ## Headers that are missing -/

/-- A header of the message is never replaced by one that is missing. -/
theorem lookup_addAll_missing (h : headers.lookup key = some value) :
    (addAll evaluate (missing config headers) headers).lookup key = some value := by
  have hkey := Headers.mem_iff.mpr ⟨value, h⟩
  rw [lookup_addAll, lookup_missing, if_neg fun hmissing => hmissing.1 hkey, h]
  rfl

theorem mem_addAll_missing_of_config (hname : name ∈ config)
    (hnone : ∀ key ∈ headers, ¬ SameName key name) :
    name ∈ addAll evaluate (missing config headers) headers := by
  refine mem_addAll.mpr (.inl (mem_missing.mpr ⟨⟨fun hkey => ?_, fun hkey => ?_⟩, hname⟩))
  · exact hnone name hkey (SameName.refl name)
  · exact hnone (lowerName name) hkey (sameName_lowerName name)

/-- A completed header is the only one of its name exactly when the message spells the name once
and in a way that is looked for, or not at all. -/
theorem completesOne_iff (ctx : HeaderContext) (headers : Headers) :
    CompletesOne ctx headers
        (addAll ctx.headersExpressionLanguage (missing ctx.config headers) headers) ↔
      SpelledOnce ctx.config headers := by
  constructor
  · intro h name hname
    constructor
    · intro key hkey hsame
      obtain ⟨value, hvalue⟩ := Headers.mem_iff.mp hkey
      have honce := h.incoming name hname key value hsame hvalue
      have hresult : key ∈ addAll ctx.headersExpressionLanguage (missing ctx.config headers)
          headers := mem_addAll.mpr (.inr hkey)
      constructor
      · by_contra hspelled
        rw [not_or] at hspelled
        have hadded : name ∈ missing ctx.config headers := by
          refine mem_missing.mpr ⟨⟨fun hhas => ?_, fun hhas => ?_⟩, hname⟩
          · exact hspelled.1 (honce.unique (mem_addAll.mpr (.inr hhas)) (SameName.refl name)
              hresult hsame)
          · exact hspelled.2 (honce.unique (mem_addAll.mpr (.inr hhas)) (sameName_lowerName name)
              hresult hsame)
        exact hspelled.1 (honce.unique (mem_addAll.mpr (.inl hadded)) (SameName.refl name)
          hresult hsame)
      · intro other hother hsameOther
        exact honce.unique hresult hsame (mem_addAll.mpr (.inr hother)) hsameOther
    · intro hnone other hother hsame
      obtain ⟨value, hvalue⟩ := Headers.mem_iff.mp hname
      have honce := h.configured name value hvalue hnone
      refine honce.unique (mem_addAll_missing_of_config hname hnone) (SameName.refl name)
        (mem_addAll_missing_of_config hother fun key hkey hsameKey => ?_) hsame
      exact hnone key hkey (hsameKey.trans hsame)
  · intro h
    refine ⟨fun name hname key value hsame hvalue => ?_, fun name value hvalue hnone => ?_, ?_⟩
    · have hkey := Headers.mem_iff.mpr ⟨value, hvalue⟩
      refine OccursOnce.of_forall (lookup_addAll_missing hvalue) hsame fun other hother hother' => ?_
      rcases mem_addAll.mp hother with hadded | hheaders
      · obtain ⟨⟨hnot, hnotLower⟩, hconfig⟩ := mem_missing.mp hadded
        -- the message has the name, so a spelling that is looked for
        rcases ((h other hconfig).1 key hkey (hsame.trans hother'.symm)).1 with rfl | rfl
        · rfl
        · exact absurd hkey hnotLower
      · exact ((h name hname).1 key hkey hsame).2 other hheaders hother'
    · have hname := Headers.mem_iff.mpr ⟨value, hvalue⟩
      have hmissing : name ∉ headers ∧ lowerName name ∉ headers :=
        ⟨fun hkey => hnone name hkey (SameName.refl name),
          fun hkey => hnone _ hkey (sameName_lowerName name)⟩
      refine OccursOnce.of_forall ?_ (SameName.refl name) fun other hother hsame => ?_
      · rw [lookup_addAll, lookup_missing, if_pos hmissing, hvalue, Option.map_some,
          Option.some_or]
      · rcases mem_addAll.mp hother with hadded | hheaders
        · exact (h name hname).2 hnone other (mem_missing.mp hadded).2 hsame
        · exact absurd hsame (hnone other hheaders)
    · exact keepsOthers_addAll fun key hkey => (mem_missing.mp hkey).2

/-- Each of the four plugins leaves one header per configured name exactly when the message and
the configuration spell the names in the way the plugin compares them. -/
theorem oneHeaderPerName_iff (ctx : HeaderContext) (headers : Headers) :
    (AddsOne ctx headers (AdditionalHeadersIn.transformRequestSync ctx headers) ↔
        SpelledAlike ctx.config headers) ∧
      (AddsOne ctx headers (AdditionalHeadersOut.transformResponseSync ctx headers) ↔
        SpelledAlike ctx.config headers) ∧
      (CompletesOne ctx headers (MissingHeadersIn.transformRequestSync ctx headers) ↔
        SpelledOnce ctx.config headers) ∧
      (CompletesOne ctx headers (MissingHeadersOut.transformResponseSync ctx headers) ↔
        SpelledOnce ctx.config headers) :=
  ⟨addsOne_iff ctx headers, addsOne_iff ctx headers, completesOne_iff ctx headers,
    completesOne_iff ctx headers⟩

/-- A client that spells the name in another case keeps its own value of a header that the route
sets, and of one that the route completes. -/
theorem exists_two_headers :
    (¬ ∀ ctx headers, AddsOne ctx headers (AdditionalHeadersIn.transformRequestSync ctx headers)) ∧
      ¬ ∀ ctx headers,
        CompletesOne ctx headers (MissingHeadersIn.transformRequestSync ctx headers) := by
  have hmem : "X-USER".toList ∈ AList.insert "X-USER".toList "client".toList (∅ : Headers) := by
    decide
  have hsame : SameName "X-USER".toList "X-User".toList := by decide
  have hname : "X-User".toList ∈ AList.insert "X-User".toList "route".toList (∅ : Headers) := by
    decide
  constructor
  · intro hall
    have hspelled := (addsOne_iff ⟨id, AList.insert "X-User".toList "route".toList ∅⟩
      (AList.insert "X-USER".toList "client".toList ∅)).mp (hall _ _)
    exact absurd ((hspelled _ hname).2 _ hmem hsame) (by decide)
  · intro hall
    have hspelled := (completesOne_iff ⟨id, AList.insert "X-User".toList "route".toList ∅⟩
      (AList.insert "X-USER".toList "client".toList ∅)).mp (hall _ _)
    exact absurd ((hspelled _ hname).1 _ hmem hsame).1 (by decide)

end Otoroshi
