/-
# Looking for keys

`keys` takes a glob and lists keys. Both stores compile the glob as a regular expression, with
the dot before its stars and nothing else changed, and look for it anywhere in a key. So a glob
of plain characters lists every key with a part that matches on one line, and what another glob
lists is up to the engine. Keys whose expiry has passed are listed until the sweeper comes.

`listsExactly_iff` says when the keys listed are the live ones that match, and
`forall_listsExactly_iff` which plain globs are good for every store.
-/

import Otoroshi.Foundation.Globs
import Otoroshi.Storage.Expiration

namespace Otoroshi

open Memory RedisLike Glob

/-- On a text of literal characters, dots and stars the engine looks for a part that matches,
and a dot does not stand for the end of a line. -/
def StorePlatform.SearchesStars (P : StorePlatform) : Prop :=
  ∀ text items, starEngine.compile text = some items →
    ∃ compiled, P.compile text = some compiled ∧ ∀ s, P.finds compiled s = Glob.finds items s

theorem starStorePlatform_searchesStars : starStorePlatform.SearchesStars :=
  fun _ items h => ⟨items, h, fun _ => rfl⟩

/-- The key has a value, and its expiry has not passed. -/
def Memory.Live (memory : Memory) (now : Int) (key : Str) : Prop :=
  (memory.value? key).isSome = true ∧ ¬ memory.ExpiredBy now key

namespace KeyPatterns

variable {P : StorePlatform} {memory : Memory} {now : Int} {pattern key : Str}

/-- The keys listed are the live ones that match the whole glob. -/
def ListsExactly (P : StorePlatform) (memory : Memory) (now : Int) (pattern : Str) : Prop :=
  ∃ found, (keys P pattern memory).1 = .ok found ∧
    ∀ key, key ∈ found ↔ memory.Live now key ∧ Matches anything pattern key

/-- The glob is found in the key: a part matches on one line, or, for a glob with characters
that an engine reads in its own way, the engine finds it. -/
def FoundIn (P : StorePlatform) (pattern key : Str) : Prop :=
  if Glob.isPlain pattern then Found pattern key
  else ∃ compiled, P.compile (source pattern) = some compiled ∧ P.finds compiled key = true

/-- Finding the glob in the keys of the store is as good as matching the live ones. -/
structure Separates (P : StorePlatform) (memory : Memory) (now : Int) (pattern : Str) : Prop where
  compiles : Glob.isPlain pattern = false → (P.compile (source pattern)).isSome = true
  whole : ∀ key, (memory.value? key).isSome = true → FoundIn P pattern key →
    ¬ memory.ExpiredBy now key ∧ Matches anything pattern key
  found : ∀ key, memory.Live now key → Matches anything pattern key → FoundIn P pattern key

theorem keys_of_compiles {compiled : P.Pattern} (h : P.compile (source pattern) = some compiled) :
    (keys P pattern memory).1 =
      .ok (memory.store.keys.filter (P.finds compiled)).toFinset := by
  rw [source] at h
  rw [keys, h]
  rfl

theorem keys_of_not_compiles (h : P.compile (source pattern) = none) :
    (keys P pattern memory).1 = .error (.patternSyntax (source pattern)) := by
  rw [source] at h
  rw [keys, h]
  rfl

theorem mem_listed_iff {compiled : P.Pattern} :
    key ∈ (memory.store.keys.filter (P.finds compiled)).toFinset ↔
      (memory.value? key).isSome = true ∧ P.finds compiled key = true := by
  rw [List.mem_toFinset, List.mem_filter, ← AList.mem_keys, ← AList.lookup_isSome]
  rfl

/-- A text that compiles is found as `FoundIn` says. -/
theorem foundIn_iff (hP : P.SearchesStars) {compiled : P.Pattern}
    (h : P.compile (source pattern) = some compiled) (key : Str) :
    FoundIn P pattern key ↔ P.finds compiled key = true := by
  rw [FoundIn]
  split
  case isTrue hplain =>
    obtain ⟨compiled', hcompiled', hfinds⟩ := hP _ _ (compile_source hplain)
    rw [h, Option.some.injEq] at hcompiled'
    rw [hcompiled', hfinds, finds_items_iff]
  case isFalse => simp [h]

theorem compiles_of_isPlain (hP : P.SearchesStars) (h : Glob.isPlain pattern = true) :
    (P.compile (source pattern)).isSome = true := by
  obtain ⟨compiled, hcompiled, -⟩ := hP _ _ (compile_source h)
  rw [hcompiled, Option.isSome_some]

theorem listsExactly_iff_of_compiles (hP : P.SearchesStars) {compiled : P.Pattern}
    (h : P.compile (source pattern) = some compiled) :
    ListsExactly P memory now pattern ↔
      ∀ key, (memory.value? key).isSome = true ∧ FoundIn P pattern key ↔
        memory.Live now key ∧ Matches anything pattern key := by
  simp only [ListsExactly, keys_of_compiles h, Except.ok.injEq, exists_eq_left', mem_listed_iff,
    foundIn_iff hP h]

theorem not_listsExactly_of_not_compiles (h : P.compile (source pattern) = none) :
    ¬ ListsExactly P memory now pattern := by
  rintro ⟨found, hfound, -⟩
  rw [keys_of_not_compiles h] at hfound
  cases hfound

/-- A glob lists exactly the live keys that match, if and only if it is a text the engine reads,
is found in no key that is not live or does not match, and is found in every live key that
matches. -/
theorem listsExactly_iff (P : StorePlatform) (hP : P.SearchesStars) (memory : Memory) (now : Int)
    (pattern : Str) : ListsExactly P memory now pattern ↔ Separates P memory now pattern := by
  cases hcompiled : P.compile (source pattern) with
  | none =>
      refine iff_of_false (not_listsExactly_of_not_compiles hcompiled) fun h => ?_
      cases hplain : Glob.isPlain pattern with
      | false => simpa [hcompiled] using h.compiles hplain
      | true => simpa [hcompiled] using compiles_of_isPlain hP hplain
  | some compiled =>
      rw [listsExactly_iff_of_compiles hP hcompiled]
      refine ⟨fun h => ⟨fun _ => by rw [hcompiled, Option.isSome_some], ?_, ?_⟩, fun h key => ?_⟩
      · intro key hvalue hfound
        obtain ⟨hlive, hmatches⟩ := (h key).mp ⟨hvalue, hfound⟩
        exact ⟨hlive.2, hmatches⟩
      · intro key hlive hmatches
        exact ((h key).mpr ⟨hlive, hmatches⟩).2
      · refine ⟨fun hfound => ?_, fun hlive => ⟨hlive.1.1, h.found key hlive.1 hlive.2⟩⟩
        obtain ⟨hunexpired, hmatches⟩ := h.whole key hfound.1 hfound.2
        exact ⟨⟨hfound.1, hunexpired⟩, hmatches⟩

/-- The store with one key. -/
def singleKey (key : Str) : Memory := ⟨AList.insert key (.bytes []) ∅, ∅⟩

theorem value?_singleKey (key other : Str) :
    ((singleKey key).value? other).isSome = true ↔ other = key := by
  have hlookup : (singleKey key).value? other = if other = key then some (.bytes []) else none :=
    @value?_insert Memory.empty other key (.bytes []) ∅
  rw [hlookup]
  by_cases h : other = key
  · simp [h]
  · simp [h]

theorem not_expiredBy_singleKey (key other : Str) : ¬ (singleKey key).ExpiredBy now other := by
  rintro ⟨expiration, hlookup, -⟩
  cases hlookup

theorem listsExactly_of_example :
    ListsExactly starStorePlatform (singleKey "ab".toList) 0 "*b*".toList := by
  refine (listsExactly_iff starStorePlatform starStorePlatform_searchesStars _ _ _).mpr
    ⟨fun h => absurd h (by decide), fun key hvalue _ => ?_, fun key hlive _ => ?_⟩
  · rw [(value?_singleKey _ _).mp hvalue]
    exact ⟨not_expiredBy_singleKey _ _, by decide⟩
  · rw [(value?_singleKey _ _).mp hlive.1, FoundIn, if_pos (by decide)]
    exact ⟨"b".toList, ⟨"a".toList, [], rfl⟩, by decide⟩

/-- A key is listed for a glob that only its end matches. -/
theorem not_forall_listsExactly :
    ¬ ∀ P : StorePlatform, P.SearchesStars → ∀ (memory : Memory) (now : Int) (pattern : Str),
      ListsExactly P memory now pattern := by
  intro h
  obtain ⟨compiled, hcompiled, -⟩ :=
    starStorePlatform_searchesStars _ _ (@compile_source "a*".toList (by decide))
  have hexact := (listsExactly_iff_of_compiles starStorePlatform_searchesStars hcompiled).mp
    (h starStorePlatform starStorePlatform_searchesStars (singleKey "ba".toList) 0 "a*".toList)
  have hfound : FoundIn starStorePlatform "a*".toList "ba".toList := by
    rw [FoundIn, if_pos (by decide)]
    exact ⟨"a".toList, ⟨"b".toList, [], rfl⟩, by decide⟩
  exact absurd ((hexact _).mp ⟨(value?_singleKey _ _).mpr rfl, hfound⟩).2 (by decide)

/-! ## Good globs -/

/-- A plain glob is good for every store, if and only if it starts and ends with a star and has
no star between its other characters. -/
theorem forall_listsExactly_iff (hP : P.SearchesStars) (hplain : Glob.isPlain pattern = true)
    (hline : '\n' ∉ pattern) :
    (∀ (memory : Memory) (now : Int), (∀ key, ¬ memory.ExpiredBy now key) →
      ListsExactly P memory now pattern) ↔ IsSearch pattern := by
  have hfound : ∀ key, FoundIn P pattern key ↔ Found pattern key := by
    intro key
    rw [FoundIn, if_pos hplain]
  obtain ⟨compiled, hcompiled⟩ := Option.isSome_iff_exists.mp (compiles_of_isPlain hP hplain)
  refine ⟨fun h => (found_iff_matches_iff hline).mp fun s => ?_, fun h memory now hexpired => ?_⟩
  · have hexact := (listsExactly_iff_of_compiles hP hcompiled).mp
      (h (singleKey s) 0 fun key => not_expiredBy_singleKey s key) s
    rw [hfound, value?_singleKey] at hexact
    exact ⟨fun hs => (hexact.mp ⟨rfl, hs⟩).2, fun hs =>
      (hexact.mpr ⟨⟨(value?_singleKey s s).mpr rfl, not_expiredBy_singleKey s s⟩, hs⟩).2⟩
  · refine (listsExactly_iff_of_compiles hP hcompiled).mpr fun key => ?_
    rw [hfound, h.found_iff, Live, and_iff_left (hexpired key)]

theorem forall_listsExactly_iff_of_example :
    (∀ (memory : Memory) (now : Int), (∀ key, ¬ memory.ExpiredBy now key) →
      ListsExactly starStorePlatform memory now "*a*".toList) ↔ IsSearch "*a*".toList :=
  forall_listsExactly_iff starStorePlatform_searchesStars (by decide) (by decide)

end KeyPatterns

end Otoroshi
