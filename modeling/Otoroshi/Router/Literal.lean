/-
# Tables of literal paths

Without stars, named parameters and regexes in the declared paths, a key takes a
segment only by being equal to it, and the walk follows the request through the
declared segments. `LiteralMatch` is what a match then has to be, said in terms
of the declarations alone: the longest declared path that the request starts
with, or the routes one segment further down whose key is a string prefix of the
next segment of the request.

`find_ofList_of_literal` is the induction, over the request and for every list
of declarations at once, and `find_literalMatch` is its reading for a running
router.
-/

import Otoroshi.Router.History

namespace Otoroshi

/-- A plain literal: no star, no named parameter, no regex parameter. -/
def isLiteralKey (key : Str) : Bool := !isWildcardKey key && !isNamedKey key && !isRegexKey key

/-- The matched path of some segments. -/
def pathOf (segments : List Str) : Str := segments.flatMap fun segment => '/' :: segment

/-- What a match is, in a table of literal paths. -/
inductive LiteralMatch (declared : List (List Str × NgRoute)) (exactSegments : Bool) (path : Str)
    (pathParams : PathParams) (segments : List Str) : NgMatchedRoutes → Prop
  /-- The routes of the longest declared path the request starts with. -/
  | longest {walk : List Str} (hwalk : walk <+: segments)
      (hroutes : Trie.listedAt walk declared ≠ [])
      (hlongest : ∀ entry ∈ declared, entry.1 <+: segments → entry.1.length ≤ walk.length) :
      LiteralMatch declared exactSegments path pathParams segments
        { routes := Trie.listedAt walk declared
          path := path ++ pathOf walk
          pathParams
          noMoreSegments := decide (segments = walk) }
  /-- The walk stops before `head`, and routes are declared one segment further
  under the longest key that `head` properly starts with. -/
  | stringPrefix {walk : List Str} {head : Str} {tail : List Str} {key : Str}
      {routes : List NgRoute} (hsegments : segments = walk ++ head :: tail)
      (hstop : ∀ entry ∈ declared, ¬ walk ++ [head] <+: entry.1)
      (hkey : key <+: head) (hproper : key ≠ head)
      (hlongest : ∀ entry ∈ declared, ∀ other, walk ++ [other] <+: entry.1 → other <+: head →
        other.length ≤ key.length)
      (hroutes : routes = (Trie.listedAt (walk ++ [key]) declared).filter
        fun route => !(exactSegments && NgTreeNodePath.needsExactSegment head route))
      (hsome : routes ≠ []) :
      LiteralMatch declared exactSegments path pathParams segments
        { routes
          path := path ++ pathOf (walk ++ [head])
          pathParams
          noMoreSegments := false }

/-- A match below one segment is a match of the whole request. -/
theorem LiteralMatch.cons {declared : List (List Str × NgRoute)} {exactSegments : Bool}
    {path : Str} {pathParams : PathParams} {head : Str} {tail : List Str}
    {matched : NgMatchedRoutes}
    (h : LiteralMatch (Trie.strip head declared) exactSegments (path ++ '/' :: head) pathParams
      tail matched) :
    LiteralMatch declared exactSegments path pathParams (head :: tail) matched := by
  have hpath : ∀ segments, path ++ '/' :: head ++ pathOf segments =
      path ++ pathOf (head :: segments) := by
    intro segments
    simp [pathOf]
  cases h with
  | longest hwalk hroutes hlongest =>
      rename_i walk
      rw [hpath, ← Trie.listedAt_cons]
      have hwhole : decide (tail = walk) = decide (head :: tail = head :: walk) := by simp
      rw [hwhole]
      refine .longest (List.cons_prefix_cons.mpr ⟨rfl, hwalk⟩) ?_ ?_
      · rwa [Trie.listedAt_cons]
      · intro entry hentry hstarts
        obtain ⟨segments, route⟩ := entry
        cases segments with
        | nil => simp
        | cons first rest =>
            obtain ⟨rfl, hrest⟩ := List.cons_prefix_cons.mp hstarts
            simpa using hlongest (rest, route) (Trie.mem_strip.mpr hentry) hrest
  | stringPrefix hsegments hstop hkey hproper hlongest hroutes hsome =>
      rename_i walk next rest key routes
      rw [hpath]
      have hbelow : ∀ entry ∈ declared, ∀ other, head :: walk ++ [other] <+: entry.1 →
          ∃ below ∈ Trie.strip head declared, walk ++ [other] <+: below.1 := by
        intro entry hentry other hstarts
        obtain ⟨segments, route⟩ := entry
        cases segments with
        | nil => simp at hstarts
        | cons first rest =>
            obtain ⟨rfl, hrest⟩ := List.cons_prefix_cons.mp hstarts
            exact ⟨(rest, route), Trie.mem_strip.mpr hentry, hrest⟩
      have hsegments' : head :: tail = head :: walk ++ next :: rest := by
        rw [hsegments, List.cons_append]
      refine .stringPrefix hsegments' ?_ hkey hproper ?_ ?_ hsome
      · intro entry hentry hstarts
        obtain ⟨below, hmem, hrest⟩ := hbelow entry hentry next hstarts
        exact hstop below hmem hrest
      · intro entry hentry other hstarts
        obtain ⟨below, hmem, hrest⟩ := hbelow entry hentry other hstarts
        exact hlongest below hmem other hrest
      · rw [hroutes, List.cons_append, Trie.listedAt_cons]

namespace NgTreeNodePath

variable {P : Platform} {M : Matchers}

theorem entryAt_of_literal {node : NgTreeNodePath}
    (hliteral : ∀ key ∈ KeyedList.keys node.children, isLiteralKey key = true) (head : Str) :
    entryAt P M node head = .ok ([], node.child? head) := by
  have hnone : ∀ kind : Str → Bool, (∀ key, isLiteralKey key = true → kind key = false) →
      P.keyOrder ((KeyedList.keys node.children).filter kind) = [] := by
    intro kind hkind
    rw [List.filter_eq_nil_iff.mpr, keyOrder_nil]
    intro key hkey
    simp [hkind key (hliteral key hkey)]
  have hnamed : namedKeys P node = [] := hnone isNamedKey fun key h => by
    simp_all [isLiteralKey]
  have hregex : regexKeys P node = [] := hnone isRegexKey fun key h => by
    simp_all [isLiteralKey]
  have hwildcard : wildcardKeys P node = [] := hnone isWildcardKey fun key h => by
    simp_all [isLiteralKey]
  rw [entryAt]
  cases node.child? head with
  | some sub => rfl
  | none => simp [matchingRegexKeys_of_regexKeys_nil hregex, hnamed, hwildcard, findWildcardKey,
      wildcardEntry_eq_none hwildcard]

theorem own_ofList (declared : List (List Str × NgRoute)) (path : Str) (pathParams : PathParams)
    (noMoreSegments : Bool) :
    own (Trie.ofList declared) path pathParams noMoreSegments =
      if Trie.listedAt [] declared = [] then none
      else some { routes := Trie.listedAt [] declared, path, pathParams, noMoreSegments } := by
  rw [own, routes, Trie.values_ofList, Trie.listedAt_nil]
  by_cases h : Trie.here declared = [] <;> simp [h]

/-- The routes of a node are the longest match when nothing declared below it
takes the request. -/
theorem literalMatch_of_own {declared : List (List Str × NgRoute)} {exactSegments : Bool}
    {path : Str} {pathParams : PathParams} {segments : List Str} {matched : NgMatchedRoutes}
    (h : own (Trie.ofList declared) path pathParams segments.isEmpty = some matched)
    (hbelow : ∀ entry ∈ declared, entry.1 <+: segments → entry.1 = []) :
    LiteralMatch declared exactSegments path pathParams segments matched := by
  rw [own_ofList] at h
  by_cases hnone : Trie.listedAt [] declared = []
  · rw [if_pos hnone] at h
    cases h
  · rw [if_neg hnone] at h
    cases h
    have hmatch : LiteralMatch declared exactSegments path pathParams segments
        { routes := Trie.listedAt [] declared
          path := path ++ pathOf []
          pathParams
          noMoreSegments := decide (segments = []) } := by
      refine .longest List.nil_prefix hnone fun entry hentry hstarts => ?_
      rw [hbelow entry hentry hstarts]
    have hwhole : segments.isEmpty = decide (segments = []) := by cases segments <;> rfl
    simpa [pathOf, hwhole] using hmatch

theorem own_ne_none {declared : List (List Str × NgRoute)} {entry : List Str × NgRoute}
    (hentry : entry ∈ declared) (hnil : entry.1 = []) (path : Str) (pathParams : PathParams)
    (noMoreSegments : Bool) :
    own (Trie.ofList declared) path pathParams noMoreSegments ≠ none := by
  obtain ⟨segments, route⟩ := entry
  subst hnil
  have hmem : route ∈ Trie.listedAt [] declared := Trie.mem_listedAt.mpr hentry
  rw [own_ofList, if_neg (List.ne_nil_of_mem hmem)]
  simp

/-- A match behind a string prefix, when no declared path goes on with the
segment itself. -/
theorem literalMatch_of_prefix {declared : List (List Str × NgRoute)}
    (hliteral : ∀ entry ∈ declared, ∀ key ∈ entry.1, isLiteralKey key = true)
    {exactSegments noMore : Bool} {path head key : Str} {tail : List Str}
    {pathParams : PathParams} {matched : NgMatchedRoutes}
    (hstrip : Trie.strip head declared = [])
    (hkey : prefixKey P (Trie.ofList declared) head = some key)
    (h : (own (cutForPrefix exactSegments head (Trie.ofList (Trie.strip key declared)))
      (path ++ '/' :: head) pathParams noMore).map (settle true) = some matched) :
    LiteralMatch declared exactSegments path pathParams (head :: tail) matched := by
  obtain ⟨hmem, -, hstarts⟩ := prefixKey_spec hkey
  have hproper : key ≠ head := by
    intro heq
    obtain ⟨sub, hsub⟩ := exists_child?_of_mem hmem
    rw [heq, Trie.child?_ofList, if_pos hstrip] at hsub
    cases hsub
  have hroutes : (cutForPrefix exactSegments head
      (Trie.ofList (Trie.strip key declared))).routes =
        (Trie.listedAt ([] ++ [key]) declared).filter fun route =>
          !(exactSegments && needsExactSegment head route) := by
    rw [List.nil_append, Trie.listedAt_cons, Trie.listedAt_nil, ← Trie.values_ofList]
    cases exactSegments
    · simp [cutForPrefix, routes]
    · simp [cutForPrefix, routes]
  obtain ⟨cut, hcut, hsettle⟩ := Option.map_eq_some_iff.mp h
  rw [own] at hcut
  split at hcut
  · cases hcut
  · rename_i hsome
    cases hcut
    subst hsettle
    have hmatch : LiteralMatch declared exactSegments path pathParams (head :: tail)
        { routes := (cutForPrefix exactSegments head
            (Trie.ofList (Trie.strip key declared))).routes
          path := path ++ pathOf ([] ++ [head])
          pathParams
          noMoreSegments := false } := by
      refine .stringPrefix (List.nil_append (head :: tail)).symm ?_
        (List.isPrefixOf_iff_prefix.mp hstarts) hproper ?_ hroutes (by simpa using hsome)
      · intro entry hentry hstarts
        obtain ⟨segments, route⟩ := entry
        obtain ⟨rest, rfl⟩ := hstarts
        have hbelow : (rest, route) ∈ Trie.strip head declared := Trie.mem_strip.mpr hentry
        simp [hstrip] at hbelow
      · intro entry hentry other hstarts hother
        obtain ⟨segments, route⟩ := entry
        obtain ⟨rest, rfl⟩ := hstarts
        have hplain : isWildcardKey other = false := by
          have hliteralOther := hliteral _ hentry other (by simp)
          simp_all [isLiteralKey]
        have hbelow : (rest, route) ∈ Trie.strip other declared := Trie.mem_strip.mpr hentry
        have hchild : other ∈ KeyedList.keys (Trie.ofList declared).children := by
          refine KeyedList.mem_keys_iff.mpr ⟨Trie.ofList (Trie.strip other declared), ?_⟩
          exact (Trie.child?_ofList other declared).trans (if_neg (List.ne_nil_of_mem hbelow))
        exact length_le_prefixKey hkey hchild hplain (List.isPrefixOf_iff_prefix.mpr hother)
    simpa [settle, pathOf] using hmatch

/-- The search in the tree of literal declarations: it never throws, every match
is a `LiteralMatch`, and there is one as soon as the request starts with some
declared path. -/
theorem find_ofList_of_literal {declared : List (List Str × NgRoute)}
    (hliteral : ∀ entry ∈ declared, ∀ key ∈ entry.1, isLiteralKey key = true)
    (segments : List Str) (endsWithSlash : Bool) (path : Str) (pathParams : PathParams)
    (exactSegments : Bool) :
    ∃ found, find P M.ops segments (Trie.ofList declared) endsWithSlash path pathParams
        exactSegments = .ok (pathParams, found) ∧
      (∀ matched, found = some matched →
        LiteralMatch declared exactSegments path pathParams segments matched) ∧
      ∀ entry ∈ declared, entry.1 <+: segments → found ≠ none := by
  -- the request is walked for every list of declarations: going down a segment
  -- strips it from the list
  induction segments generalizing declared path with
  | nil =>
      have hnil : ∀ entry ∈ declared, entry.1 <+: [] → entry.1 = [] := fun _ _ h =>
        List.prefix_nil.mp h
      exact ⟨own (Trie.ofList declared) path pathParams true, rfl,
        fun matched hmatched => literalMatch_of_own hmatched hnil,
        fun entry hentry hstarts => own_ne_none hentry (hnil entry hentry hstarts) _ _ _⟩
  | cons head tail ih =>
      have hkeys : ∀ key ∈ KeyedList.keys (Trie.ofList declared).children,
          isLiteralKey key = true := fun key hkey => (Trie.keysIn_ofList hliteral).of_mem_keys hkey
      have hbelow : ∀ entry ∈ declared, entry.1 <+: head :: tail → entry.1 = [] ∨
          ∃ below ∈ Trie.strip head declared, below.1 <+: tail := by
        intro entry hentry hstarts
        obtain ⟨segments, route⟩ := entry
        cases segments with
        | nil => exact Or.inl rfl
        | cons first rest =>
            obtain ⟨rfl, hrest⟩ := List.cons_prefix_cons.mp hstarts
            exact Or.inr ⟨(rest, route), Trie.mem_strip.mpr hentry, hrest⟩
      have hown : ∀ entry ∈ declared, entry.1 = [] →
          own (Trie.ofList declared) path pathParams false ≠ none := fun entry hentry hnil =>
        own_ne_none hentry hnil _ _ _
      rw [find_cons, descend, entryAt_of_literal hkeys, Trie.child?_ofList]
      by_cases hstrip : Trie.strip head declared = []
      · -- no declared path goes on with `head`: string prefixes, then the node itself
        have hstop : ∀ entry ∈ declared, entry.1 <+: head :: tail → entry.1 = [] := by
          intro entry hentry hstarts
          rcases hbelow entry hentry hstarts with hnil | ⟨below, hmem, -⟩
          · exact hnil
          · simp [hstrip] at hmem
        have hlast : ∀ matched, own (Trie.ofList declared) path pathParams false = some matched →
            LiteralMatch declared exactSegments path pathParams (head :: tail) matched :=
          fun matched hmatched => literalMatch_of_own hmatched hstop
        have hdone : ∀ entry ∈ declared, entry.1 <+: head :: tail →
            own (Trie.ofList declared) path pathParams false ≠ none := fun entry hentry h =>
          hown entry hentry (hstop entry hentry h)
        rw [if_pos hstrip]
        simp only [ok_bind]
        by_cases hslash : endsWithSlash = true
        · rw [if_pos hslash]
          exact ⟨_, rfl, hlast, hdone⟩
        · rw [if_neg hslash]
          cases hstarts : prefixKey P (Trie.ofList declared) head with
          | none => exact ⟨_, rfl, hlast, hdone⟩
          | some key =>
              by_cases hchild : Trie.strip key declared = []
              · simp only [Option.bind_some, Trie.child?_ofList, if_pos hchild]
                exact ⟨_, rfl, hlast, hdone⟩
              · have hleaf : isLeaf (cutForPrefix exactSegments head
                    (Trie.ofList (Trie.strip key declared))) = true := by
                  cases exactSegments <;> rfl
                simp only [Option.bind_some, Trie.child?_ofList, if_neg hchild, Option.map_some,
                  find_of_isLeaf hleaf, ok_bind]
                refine ⟨_, rfl, fun matched hmatched => ?_, fun entry hentry h hnone => ?_⟩
                · rcases Option.or_eq_some_iff.mp hmatched with hcut | ⟨-, hmatched⟩
                  · exact literalMatch_of_prefix hliteral hstrip hstarts hcut
                  · exact hlast matched hmatched
                · exact hdone entry hentry h (Option.or_eq_none_iff.mp hnone).2
      · -- some declared path goes on with `head`
        have hliteral' : ∀ entry ∈ Trie.strip head declared, ∀ key ∈ entry.1,
            isLiteralKey key = true := by
          intro entry hentry key hkey
          obtain ⟨rest, route⟩ := entry
          exact hliteral _ (Trie.mem_strip.mp hentry) key (List.mem_cons_of_mem _ hkey)
        obtain ⟨found, hfind, hsound, hcomplete⟩ := ih hliteral' (path ++ '/' :: head)
        simp only [if_neg hstrip, ok_bind, bindAll, List.foldl_nil, hfind]
        refine ⟨_, rfl, fun matched hmatched => ?_, fun entry hentry h hnone => ?_⟩
        · rcases Option.or_eq_some_iff.mp hmatched with hfound | ⟨hnone, hmatched⟩
          · obtain ⟨below, hbelow, rfl⟩ := Option.map_eq_some_iff.mp hfound
            exact (hsound below hbelow).cons
          · -- nothing below answered, so no declared path goes on along the request
            refine literalMatch_of_own hmatched fun entry hentry h => ?_
            rcases hbelow entry hentry h with hnil | ⟨below, hmem, hstarts⟩
            · exact hnil
            · exact absurd (Option.map_eq_none_iff.mp hnone) (hcomplete below hmem hstarts)
        · obtain ⟨hbelowNone, hownNone⟩ := Option.or_eq_none_iff.mp hnone
          rcases hbelow entry hentry h with hnil | ⟨below, hmem, hstarts⟩
          · exact hown entry hentry hnil hownNone
          · exact hcomplete below hmem hstarts (Option.map_eq_none_iff.mp hbelowNone)

end NgTreeNodePath

namespace NgTreeRouter

open RouterState

variable {P : Platform}

/-- Every declared segment of the table is a plain literal. -/
def LiteralTable (routes : List NgRoute) : Prop :=
  ∀ route ∈ routes, ∀ declared ∈ route.frontend.domains, ∀ key ∈ pathSegments declared.path,
    isLiteralKey key = true

instance (routes : List NgRoute) : Decidable (LiteralTable routes) :=
  inferInstanceAs (Decidable (∀ route ∈ routes, ∀ declared ∈ route.frontend.domains,
    ∀ key ∈ pathSegments declared.path, isLiteralKey key = true))

theorem literal_of_mem_declarations {routes : List NgRoute} (hliteral : LiteralTable routes)
    {domain : Str} : ∀ entry ∈ declarations P routes domain, ∀ key ∈ entry.1,
      isLiteralKey key = true := by
  intro entry hentry key hkey
  obtain ⟨segments, route⟩ := entry
  obtain ⟨hroute, declared, hdeclared, -, rfl⟩ := mem_declarations.mp hentry
  exact hliteral route hroute declared hdeclared key hkey

/-- A table of literals has no regex, so nothing is read in two ways. -/
theorem unambiguous_of_literal {routes : List NgRoute} (hliteral : LiteralTable routes)
    (pool : RegexPool P.engine) : (texts P routes).Unambiguous pool := by
  intro text _ hregex
  obtain ⟨⟨route, declared⟩, hfiling, htext⟩ := List.mem_flatMap.mp hregex
  obtain ⟨key, hkey, -⟩ := List.mem_filterMap.mp htext
  obtain ⟨hmem, hregexKey⟩ := List.mem_filter.mp hkey
  obtain ⟨hroute, hdeclared⟩ := mem_filings.mp hfiling
  have hkeyLiteral := hliteral route hroute declared hdeclared key hmem
  simp [isLiteralKey, hregexKey] at hkeyLiteral

/-- In a table of literals, after any history, a request that starts with a
declared path of its domain finds a match, and the match is the longest declared
path or a string prefix one segment below the walk. -/
theorem find_literalMatch (P : Platform) (routes : List NgRoute) (hliteral : LiteralTable routes)
    (start : RegexPool P.engine) (choices : Nat → Option Nat) (history : List FindCall)
    (domain : Str) (segments : List Str) (endsWithSlash exactSegments : Bool)
    (hdeclared : ∃ entry ∈ declarations P routes domain, entry.1 <+: segments) :
    ∃ ptree matched, KeyedList.get? domain (build P routes).tree = some ptree ∧
      (NgTreeNodePath.find P (RouterState.ops P) segments ptree endsWithSlash [] ∅ exactSegments
        (after P (build P routes) (fresh start choices) history)).1 = .ok (∅, some matched) ∧
      LiteralMatch (declarations P routes domain) exactSegments [] ∅ segments matched := by
  obtain ⟨entry, hentry, hstarts⟩ := hdeclared
  have htree : KeyedList.get? domain (build P routes).tree =
      some (Trie.ofList (declarations P routes domain)) := by
    rw [get?_build, if_neg (List.ne_nil_of_mem hentry)]
  have hrun := find_after (unambiguous_of_literal hliteral start) (ready_fresh start _ choices)
    history htree segments endsWithSlash [] ∅ exactSegments
  obtain ⟨found, hfind, hsound, hcomplete⟩ := NgTreeNodePath.find_ofList_of_literal
    (P := P) (M := Matchers.ofPool start) (literal_of_mem_declarations hliteral) segments
    endsWithSlash [] ∅ exactSegments
  obtain ⟨matched, rfl⟩ := Option.ne_none_iff_exists'.mp (hcomplete entry hentry hstarts)
  exact ⟨_, matched, htree, hrun.trans hfind, hsound matched rfl⟩

theorem find_literalMatch_of_example :
    ∃ ptree matched,
      KeyedList.get? "d.tld".toList (build starPlatform [.declaring "api" "d.tld/api/users",
        .declaring "all" "d.tld/api"]).tree = some ptree ∧
      (NgTreeNodePath.find starPlatform (RouterState.ops starPlatform)
        ["api".toList, "users-old".toList] ptree false [] ∅ false
        (after starPlatform (build starPlatform [.declaring "api" "d.tld/api/users",
          .declaring "all" "d.tld/api"]) (fresh [] fun _ => some 0)
          [⟨"d.tld".toList, "/api/users-new".toList, false⟩])).1 = .ok (∅, some matched) ∧
      LiteralMatch (declarations starPlatform [.declaring "api" "d.tld/api/users",
        .declaring "all" "d.tld/api"] "d.tld".toList) false [] ∅
        ["api".toList, "users-old".toList] matched :=
  find_literalMatch starPlatform _ (by decide) [] _ _ _ _ _ _
    ⟨(["api".toList], .declaring "all" "d.tld/api"), by decide +kernel, by decide⟩

end NgTreeRouter

end Otoroshi
