/-
# What a route table declares

`NgTreeRouter.build` files routes one after the other into mutable trees. What
comes out depends on the table only through its declarations: for each domain,
the list of (path segments, route) pairs in the order of the table. The tree of
a domain is the tree of that list (`get?_build`), and the wildcard domains are
the declared domains with a star.
-/

import Otoroshi.Router.Search

namespace Otoroshi

namespace NgTreeRouter

variable (P : Platform)

/-- The declared paths of a table with their routes, in order. -/
def filings (routes : List NgRoute) : List (NgRoute × NgDomainAndPath) :=
  routes.flatMap fun route => route.frontend.domains.map fun declared => (route, declared)

/-- What a list of filings declares under a domain: path segments and routes. -/
def declarationsOf (domain : Str) (filed : List (NgRoute × NgDomainAndPath)) :
    List (List Str × NgRoute) :=
  (filed.filter fun filing => P.toLowerCase filing.2.domain = domain).map
    fun filing => (pathSegments filing.2.path, filing.1)

/-- What a table declares under a domain. -/
def declarations (routes : List NgRoute) (domain : Str) : List (List Str × NgRoute) :=
  declarationsOf P domain (filings routes)

/-- The domains and segments with a star, which are read as wildcards. -/
def wildcardTexts (routes : List NgRoute) : List Str :=
  (filings routes).flatMap fun filing =>
    (P.toLowerCase filing.2.domain :: pathSegments filing.2.path).filter isWildcardKey

/-- The regexes of the regex segments. -/
def regexTexts (routes : List NgRoute) : List Str :=
  (filings routes).flatMap fun filing =>
    ((pathSegments filing.2.path).filter isRegexKey).filterMap fun key => (regexOfKey key).toOption

/-- The texts a table hands to the pool of patterns. -/
def texts (routes : List NgRoute) : PatternTexts where
  wildcard text := text ∈ wildcardTexts P routes
  regex text := text ∈ regexTexts routes

/-- Without a text in both roles, a table is unambiguous whatever the pool. -/
theorem unambiguous_of_disjoint {E : RegexEngine} {routes : List NgRoute} (pool : RegexPool E)
    (h : ∀ text ∈ wildcardTexts P routes, text ∉ regexTexts routes) :
    (texts P routes).Unambiguous pool :=
  fun text hwildcard hregex => absurd hregex (h text hwildcard)

variable {P}

theorem mem_filings {routes : List NgRoute} {route : NgRoute} {declared : NgDomainAndPath} :
    (route, declared) ∈ filings routes ↔ route ∈ routes ∧ declared ∈ route.frontend.domains := by
  simp only [filings, List.mem_flatMap, List.mem_map, Prod.mk.injEq]
  constructor
  · rintro ⟨other, hother, found, hfound, hroute, hdeclared⟩
    subst hroute hdeclared
    exact ⟨hother, hfound⟩
  · rintro ⟨hroute, hdeclared⟩
    exact ⟨route, hroute, declared, hdeclared, rfl, rfl⟩

theorem mem_declarations {routes : List NgRoute} {domain : Str} {segments : List Str}
    {route : NgRoute} :
    (segments, route) ∈ declarations P routes domain ↔
      route ∈ routes ∧ ∃ declared ∈ route.frontend.domains,
        P.toLowerCase declared.domain = domain ∧ pathSegments declared.path = segments := by
  simp only [declarations, declarationsOf, List.mem_map, List.mem_filter, decide_eq_true_eq,
    Prod.mk.injEq]
  constructor
  · rintro ⟨⟨found, declared⟩, ⟨hmem, hdomain⟩, hsegments, hroute⟩
    subst hroute
    obtain ⟨hroutes, hdeclared⟩ := mem_filings.mp hmem
    exact ⟨hroutes, declared, hdeclared, hdomain, hsegments⟩
  · rintro ⟨hroute, declared, hdeclared, hdomain, hsegments⟩
    exact ⟨(route, declared), ⟨mem_filings.mpr ⟨hroute, hdeclared⟩, hdomain⟩, hsegments, rfl⟩

/-- Filing routes is filing their declarations one by one. -/
theorem foldl_addRoute (routes : List NgRoute) (root : NgTreeRouter) :
    routes.foldl (addRoute P) root =
      (filings routes).foldl (fun root filing => addDomain P filing.1 root filing.2) root := by
  induction routes generalizing root with
  | nil => rfl
  | cons route routes ih =>
      rw [List.foldl_cons, ih]
      simp only [filings, List.flatMap_cons, List.foldl_append, List.foldl_map]
      rfl

/-- What one filing does to the tree of a domain. -/
theorem get?_addDomain (domain : Str) (route : NgRoute) (root : NgTreeRouter)
    (declared : NgDomainAndPath) :
    KeyedList.get? domain (addDomain P route root declared).tree =
      if domain = P.toLowerCase declared.domain then
        some (((KeyedList.get? domain root.tree).getD .empty).insert
          (pathSegments declared.path) route)
      else KeyedList.get? domain root.tree := by
  rw [addDomain, KeyedList.get?_put]
  by_cases h : domain = P.toLowerCase declared.domain
  · rw [if_pos h, if_pos h, h, NgTreeNodePath.addSubRoutes]
  · rw [if_neg h, if_neg h]

private theorem get?_foldl_addDomain (domain : Str) (filed : List (NgRoute × NgDomainAndPath)) :
    KeyedList.get? domain
        (filed.foldl (fun root filing => addDomain P filing.1 root filing.2) empty).tree =
      if declarationsOf P domain filed = [] then none
      else some (Trie.ofList (declarationsOf P domain filed)) := by
  induction filed using List.reverseRec with
  | nil => rfl
  | append_singleton filed filing ih =>
      rw [List.foldl_append, List.foldl_cons, List.foldl_nil, get?_addDomain, ih]
      by_cases h : domain = P.toLowerCase filing.2.domain
      · have hsnoc : declarationsOf P domain (filed ++ [filing]) =
            declarationsOf P domain filed ++ [(pathSegments filing.2.path, filing.1)] := by
          simp [declarationsOf, h]
        have htree : (if declarationsOf P domain filed = [] then none
            else some (Trie.ofList (declarationsOf P domain filed))).getD .empty =
              Trie.ofList (declarationsOf P domain filed) := by
          split
          · rename_i hnil
            rw [hnil]
            rfl
          · rfl
        rw [if_pos h, hsnoc, htree, Trie.ofList_concat, if_neg (by simp)]
      · have hskip : declarationsOf P domain (filed ++ [filing]) =
            declarationsOf P domain filed := by
          simp [declarationsOf, Ne.symm h]
        rw [if_neg h, hskip]

/-- The tree of a domain is the tree of its declarations. -/
theorem get?_build (routes : List NgRoute) (domain : Str) :
    KeyedList.get? domain (build P routes).tree =
      if declarations P routes domain = [] then none
      else some (Trie.ofList (declarations P routes domain)) := by
  rw [build, sortWildcards, foldl_addRoute, get?_foldl_addDomain, declarations]

private theorem mem_wildcards_foldl {filed : List (NgRoute × NgDomainAndPath)}
    {w : NgRouteDomainAndPathWrapper}
    (h : w ∈ (filed.foldl (fun root filing => addDomain P filing.1 root filing.2)
      empty).wildcards) :
    ∃ filing ∈ filed, w.domain = P.toLowerCase filing.2.domain ∧
      isWildcardKey w.domain = true := by
  induction filed using List.reverseRec with
  | nil => simp [empty] at h
  | append_singleton filed filing ih =>
      rw [List.foldl_append, List.foldl_cons, List.foldl_nil, addDomain] at h
      have hold : w ∈ (filed.foldl (fun root filing => addDomain P filing.1 root filing.2)
          empty).wildcards → ∃ other ∈ filed ++ [filing],
            w.domain = P.toLowerCase other.2.domain ∧ isWildcardKey w.domain = true := by
        intro hmem
        obtain ⟨other, hother, hdomain⟩ := ih hmem
        exact ⟨other, List.mem_append_left _ hother, hdomain⟩
      split at h
      · rename_i hstar
        rcases List.mem_append.mp h with h | h
        · exact hold h
        · rw [List.mem_singleton] at h
          subst h
          exact ⟨filing, by simp, rfl, hstar⟩
      · exact hold h

theorem mem_wildcards_build {routes : List NgRoute} {w : NgRouteDomainAndPathWrapper}
    (h : w ∈ (build P routes).wildcards) :
    ∃ filing ∈ filings routes, w.domain = P.toLowerCase filing.2.domain ∧
      isWildcardKey w.domain = true := by
  rw [build, sortWildcards, foldl_addRoute] at h
  exact mem_wildcards_foldl ((List.perm_insertionSort _ _).mem_iff.mp h)

/-- Every key of every tree is declared by the table. -/
theorem coversTree_build {routes : List NgRoute} {domain : Str} {node : NgTreeNodePath}
    (h : KeyedList.get? domain (build P routes).tree = some node) :
    (texts P routes).CoversTree node := by
  rw [get?_build] at h
  split at h
  · cases h
  · cases h
    refine Trie.keysIn_ofList fun entry hentry key hkey => ?_
    obtain ⟨segments, route⟩ := entry
    obtain ⟨hroute, declared, hdeclared, -, rfl⟩ := mem_declarations.mp hentry
    have hfiling : (route, declared) ∈ filings routes := mem_filings.mpr ⟨hroute, hdeclared⟩
    exact {
      wildcard := fun hstar => List.mem_flatMap.mpr ⟨_, hfiling,
        List.mem_filter.mpr ⟨List.mem_cons_of_mem _ hkey, hstar⟩⟩
      regex := fun hregex text htext => List.mem_flatMap.mpr ⟨_, hfiling,
        List.mem_filterMap.mpr ⟨key, List.mem_filter.mpr ⟨hkey, hregex⟩, by rw [htext]; rfl⟩⟩ }

theorem wildcard_texts_build {routes : List NgRoute} {w : NgRouteDomainAndPathWrapper}
    (h : w ∈ (build P routes).wildcards) : (texts P routes).wildcard w.domain := by
  obtain ⟨filing, hfiling, hdomain, hstar⟩ := mem_wildcards_build h
  exact List.mem_flatMap.mpr ⟨filing, hfiling,
    List.mem_filter.mpr ⟨hdomain ▸ List.mem_cons_self, hstar⟩⟩

end NgTreeRouter

end Otoroshi
