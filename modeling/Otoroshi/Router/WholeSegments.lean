/-
# Trailing slashes and whole segments

With `trailingSlashMeansExactSegments` a path declared with a slash at its end
should only take requests segment by segment, and never a request whose segment
merely starts with its last one. The string prefix branch filters the routes of
the node it found. By then the tree has forgotten which of the paths of a route
led to the node, so the filter asks all of them: a route goes only if every path
it declares, on whatever domain, ends with a slash or starts with the segment of
the request.

`StartsAt` follows a walk into that branch and keeps the declared segments it
went by. `keepsWholeSegments_iff` says for which tables and requests the filter
is right: no route filed there by a path with a slash at its end may declare a
path of another kind.
-/

import Otoroshi.Router.Backing
import Otoroshi.Router.Merge

namespace Otoroshi

namespace NgTreeNodePath

variable (P : Platform) (M : Matchers)

/-! ## Walks into the string prefix branch -/

/-- The keys of a node by which it takes a segment whole: the segment itself, else the
parameters, else a wildcard. -/
def takingKeys (node : NgTreeNodePath) (head : Str) : Except JvmException (List Str) :=
  match node.child? head with
  | some _ => .ok [head]
  | none => do
      let matching ← matchingRegexKeys P M.ops node head
      if (namedKeys P node).isEmpty && matching.isEmpty then do
        let key ← findWildcardKey M.ops head (wildcardKeys P node)
        .ok [key.getD "*".toList]
      else .ok (namedKeys P node ++ matching)

/-- The walk of a request comes to a segment `starting` that no key takes whole, and goes on
behind a key it starts with. That key is the last of the declared segments `keys`; they lead
to `sub`, where a merged node counts for the siblings that the rest of the keys is found in. -/
inductive StartsAt (endsWithSlash : Bool) :
    NgTreeNodePath → List Str → List Str → Str → NgTreeNodePath → Prop
  | starts {node sub : NgTreeNodePath} {head key : Str} {tail names : List Str}
      (hslash : endsWithSlash = false)
      (hentry : entryAt P M node head = .ok (names, none))
      (hkey : prefixKey P node head = some key)
      (hsub : node.child? key = some sub) :
      StartsAt endsWithSlash node (head :: tail) [key] head sub
  | whole {node next sibling sub : NgTreeNodePath} {head key starting : Str}
      {tail names taking keys : List Str}
      (hentry : entryAt P M node head = .ok (names, some next))
      (htaking : takingKeys P M node head = .ok taking)
      (hkey : key ∈ taking)
      (hsibling : node.child? key = some sibling)
      (hbelow : StartsAt endsWithSlash next tail keys starting sub)
      (hfiled : Trie.subtree? keys sibling = some sub) :
      StartsAt endsWithSlash node (head :: tail) (key :: keys) starting sub

variable {P M} {endsWithSlash : Bool}

/-- The keys of the walk are where the node is filed. -/
theorem StartsAt.subtree? {node sub : NgTreeNodePath} {segments keys : List Str} {starting : Str}
    (h : StartsAt P M endsWithSlash node segments keys starting sub) :
    Trie.subtree? keys node = some sub := by
  cases h with
  | starts hslash hentry hkey hsub =>
      rw [Trie.subtree?_of_child? hsub]
      rfl
  | whole hentry htaking hkey hsibling hbelow hfiled =>
      rw [Trie.subtree?_of_child? hsibling, hfiled]

/-! ## What the branch returns -/

theorem descend_of_starts {node sub : NgTreeNodePath} {head key : Str} {names : List Str}
    (hentry : entryAt P M node head = .ok (names, none))
    (hkey : prefixKey P node head = some key) (hsub : node.child? key = some sub)
    (exactSegments : Bool) :
    descend P M node false exactSegments head =
      .ok (names, some (cutForPrefix exactSegments head sub, true)) := by
  rw [descend, hentry, ok_bind]
  simp only [Bool.false_eq_true, if_false, hkey, Option.bind_some, hsub, Option.map_some]

theorem descend_of_whole {node next : NgTreeNodePath} {head : Str} {names : List Str}
    (hentry : entryAt P M node head = .ok (names, some next)) (exactSegments : Bool) :
    descend P M node endsWithSlash exactSegments head = .ok (names, some (next, false)) := by
  rw [descend, hentry, ok_bind]

/-- The routes of a node stand for no segment of the request. -/
theorem path_of_own {node : NgTreeNodePath} {path : Str} {pathParams : PathParams} {noMore : Bool}
    {matched : NgMatchedRoutes} (h : own node path pathParams noMore = some matched) :
    matched.path = path ++ pathOf [] := by
  rw [own] at h
  split at h
  · cases h
  · cases h
    rw [pathOf, List.flatMap_nil, List.append_nil]

/-- A search whose walk comes into the branch returns the routes that the cut node keeps, for
the segments up to the one that only starts with its key; if it keeps none, the answer is for
fewer segments. -/
theorem StartsAt.find_cases {node sub : NgTreeNodePath} {segments keys : List Str} {starting : Str}
    (hstarts : StartsAt P M endsWithSlash node segments keys starting sub) {path : Str}
    {pathParams bound : PathParams} {exactSegments : Bool} {found : Option NgMatchedRoutes}
    (h : find P M.ops segments node endsWithSlash path pathParams exactSegments =
      .ok (bound, found)) :
    ((cutForPrefix exactSegments starting sub).routes ≠ [] ∧ ∃ matched, found = some matched ∧
        matched.routes = (cutForPrefix exactSegments starting sub).routes ∧
        matched.path = path ++ pathOf (segments.take keys.length)) ∨
      ((cutForPrefix exactSegments starting sub).routes = [] ∧ ∀ matched, found = some matched →
        ∃ count < keys.length, matched.path = path ++ pathOf (segments.take count)) := by
  induction hstarts generalizing path pathParams bound found with
  | @starts node sub head key tail names hslash hentry hkey hsub =>
      subst hslash
      have hleaf : isLeaf (cutForPrefix exactSegments head sub) = true := by
        cases exactSegments <;> rfl
      rw [find_cons, descend_of_starts hentry hkey hsub, ok_bind] at h
      simp only [find_of_isLeaf hleaf, ok_bind, Except.ok.injEq, Prod.mk.injEq] at h
      obtain ⟨-, rfl⟩ := h
      by_cases hroutes : (cutForPrefix exactSegments head sub).routes = []
      · refine Or.inr ⟨hroutes, fun matched hmatched => ⟨0, Nat.one_pos, ?_⟩⟩
        rw [own, if_pos (by rw [hroutes]; rfl), Option.map_none, Option.none_or] at hmatched
        exact path_of_own hmatched
      · refine Or.inl ⟨hroutes, ?_⟩
        rw [own, if_neg (by rw [List.isEmpty_iff]; exact hroutes), Option.map_some,
          Option.some_or]
        exact ⟨_, rfl, rfl, by simp [settle, pathOf]⟩
  | @whole node next sibling sub head key starting tail names taking keys hentry htaking hkey
      hsibling hbelow hfiled ih =>
      rw [find_cons, descend_of_whole hentry, ok_bind] at h
      obtain ⟨⟨later, answer⟩, hfind, h⟩ := bind_eq_ok_iff.mp h
      rw [Except.ok.injEq, Prod.mk.injEq] at h
      obtain ⟨-, rfl⟩ := h
      have hpath : ∀ count, path ++ '/' :: head ++ pathOf (tail.take count) =
          path ++ pathOf ((head :: tail).take (count + 1)) := by
        intro count
        simp [pathOf]
      rcases ih hfind with ⟨hroutes, matched, rfl, hmatched, hat⟩ | ⟨hroutes, hless⟩
      · exact Or.inl ⟨hroutes, matched, rfl, hmatched, by rw [hat, hpath, List.length_cons]⟩
      · refine Or.inr ⟨hroutes, fun matched hmatched => ?_⟩
        rcases Option.or_eq_some_iff.mp hmatched with hbelow | ⟨-, hown⟩
        · obtain ⟨below, rfl, rfl⟩ := Option.map_eq_some_iff.mp hbelow
          obtain ⟨count, hcount, hat⟩ := hless below rfl
          exact ⟨count + 1, Nat.succ_lt_succ hcount, hat.trans (hpath count)⟩
        · exact ⟨0, Nat.succ_pos _, path_of_own hown⟩

/-- The keys of a walk are not more than the segments. -/
theorem StartsAt.length_le {node sub : NgTreeNodePath} {segments keys : List Str} {starting : Str}
    (h : StartsAt P M endsWithSlash node segments keys starting sub) :
    keys.length ≤ segments.length := by
  induction h with
  | starts => exact Nat.succ_le_succ (Nat.zero_le _)
  | whole hentry htaking hkey hsibling hbelow hfiled ih => exact Nat.succ_le_succ ih

/-- Fewer segments make a shorter path. -/
theorem length_pathOf_take_lt {segments : List Str} {few many : Nat} (hless : few < many)
    (hmany : many ≤ segments.length) :
    (pathOf (segments.take few)).length < (pathOf (segments.take many)).length := by
  induction segments generalizing few many with
  | nil => exact absurd hmany (by simp; omega)
  | cons segment segments ih =>
      obtain ⟨many, rfl⟩ : ∃ rest, many = rest + 1 := ⟨many - 1, by omega⟩
      cases few with
      | zero => simp [pathOf]
      | succ few =>
          have hrest := ih (Nat.lt_of_succ_lt_succ hless) (Nat.le_of_succ_le_succ hmany)
          simp only [pathOf, List.take_succ_cons, List.flatMap_cons, List.length_append] at hrest ⊢
          omega

/-- The match of a walk into the branch covers the segment that only starts with its key just
when it holds the routes of the cut node. -/
theorem StartsAt.routes_of_path {node sub : NgTreeNodePath} {segments keys : List Str}
    {starting : Str} (hstarts : StartsAt P M endsWithSlash node segments keys starting sub)
    {pathParams bound : PathParams} {exactSegments : Bool} {matched : NgMatchedRoutes}
    (h : find P M.ops segments node endsWithSlash [] pathParams exactSegments =
      .ok (bound, some matched)) (hpath : matched.path = pathOf (segments.take keys.length)) :
    matched.routes = (cutForPrefix exactSegments starting sub).routes := by
  rcases hstarts.find_cases h with ⟨-, other, hother, hroutes, -⟩ | ⟨-, hless⟩
  · cases hother
    exact hroutes
  · obtain ⟨count, hcount, hat⟩ := hless matched rfl
    have hlength := length_pathOf_take_lt hcount hstarts.length_le
    rw [← hpath, hat, List.nil_append] at hlength
    exact absurd hlength (Nat.lt_irrefl _)

end NgTreeNodePath

namespace NgTreeRouter

open RouterState NgTreeNodePath

variable {P : Platform}

/-! ## Paths with a slash at their end -/

/-- The route declares these segments on the domain by a path with a slash at its end. -/
def DeclaresWhole (P : Platform) (domain : Str) (route : NgRoute) (keys : List Str) : Prop :=
  ∃ declared ∈ route.frontend.domains, P.toLowerCase declared.domain = domain ∧
    pathSegments declared.path = keys ∧ declared.pathEndsWithSlash = true

/-- Every path of the route, on whatever domain, ends with a slash or starts with the segment. -/
def AllWhole (route : NgRoute) (starting : Str) : Prop :=
  ∀ declared ∈ route.frontend.domains,
    declared.pathEndsWithSlash = true ∨ startsWith (declared.path.drop 1) starting = true

/-- Whatever declared segments led the search into the string prefix branch, the branch does
not return a route that declares them with a slash at their end. A match is one of the branch
when it covers the segment that only starts with its key. -/
def KeepsWholeSegments (P : Platform) (M : Matchers) (domain : Str) (ptree : NgTreeNodePath)
    (segments : List Str) (endsWithSlash : Bool) (found : Option NgMatchedRoutes) : Prop :=
  ∀ keys starting sub, StartsAt P M endsWithSlash ptree segments keys starting sub →
    ∀ matched, found = some matched → matched.path = pathOf (segments.take keys.length) →
      ∀ route ∈ matched.routes, ¬ DeclaresWhole P domain route keys

theorem needsExactSegment_iff {starting : Str} {route : NgRoute} :
    needsExactSegment starting route = true ↔ AllWhole route starting := by
  simp only [needsExactSegment, List.all_eq_true, Bool.or_eq_true, AllWhole]

theorem mem_cutForPrefix {starting : Str} {sub : NgTreeNodePath} {route : NgRoute} :
    route ∈ (cutForPrefix true starting sub).routes ↔
      route ∈ sub.routes ∧ ¬ AllWhole route starting := by
  rw [← needsExactSegment_iff]
  simp only [cutForPrefix, if_true]
  rw [NgTreeNodePath.routes, Trie.values_node, List.mem_filter, Bool.not_eq_true',
    Bool.not_eq_true]

/-- What a table files where a walk comes into the branch. -/
theorem mem_routes_of_startsAt {M : Matchers} {routes : List NgRoute} {domain : Str}
    {ptree sub : NgTreeNodePath}
    (hptree : KeyedList.get? domain (build P routes).tree = some ptree) {segments keys : List Str}
    {starting : Str} {endsWithSlash : Bool}
    (hstarts : StartsAt P M endsWithSlash ptree segments keys starting sub) {route : NgRoute} :
    route ∈ sub.routes ↔ (keys, route) ∈ declarations P routes domain := by
  have htree : ptree = Trie.ofList (declarations P routes domain) := by
    rw [get?_build] at hptree
    split at hptree
    · cases hptree
    · exact (Option.some.inj hptree).symm
  have hvalues : ptree.valuesAt keys = sub.values := by
    rw [Trie.valuesAt, hstarts.subtree?]
    rfl
  rw [NgTreeNodePath.routes, ← hvalues, htree, Trie.valuesAt_ofList, Trie.mem_listedAt]

/-- The stateless search. -/
theorem keepsWholeSegments_find_iff {M : Matchers} {routes : List NgRoute} {domain : Str}
    {ptree : NgTreeNodePath}
    (hptree : KeyedList.get? domain (build P routes).tree = some ptree) {segments : List Str}
    {endsWithSlash : Bool} {pathParams bound : PathParams} {found : Option NgMatchedRoutes}
    (h : NgTreeNodePath.find P M.ops segments ptree endsWithSlash [] pathParams true =
      .ok (bound, found)) :
    KeepsWholeSegments P M domain ptree segments endsWithSlash found ↔
      ∀ keys starting sub, StartsAt P M endsWithSlash ptree segments keys starting sub →
        ∀ route ∈ routes, DeclaresWhole P domain route keys → AllWhole route starting := by
  constructor
  · intro hkeeps keys starting sub hstarts route hroute hwhole
    by_contra hopen
    obtain ⟨declared, hdeclared, hdomain, hsegments, -⟩ := id hwhole
    have hfiled : route ∈ sub.routes := (mem_routes_of_startsAt hptree hstarts).mpr
      (mem_declarations.mpr ⟨hroute, declared, hdeclared, hdomain, hsegments⟩)
    have hcut : route ∈ (cutForPrefix true starting sub).routes :=
      mem_cutForPrefix.mpr ⟨hfiled, hopen⟩
    rcases hstarts.find_cases h with ⟨-, matched, rfl, hmatched, hpath⟩ | ⟨hnone, -⟩
    · exact hkeeps keys starting sub hstarts matched rfl hpath route
        (by rw [hmatched]; exact hcut) hwhole
    · rw [hnone] at hcut
      cases hcut
  · intro hall keys starting sub hstarts matched hmatched hpath route hroute hwhole
    subst hmatched
    rw [hstarts.routes_of_path h hpath, mem_cutForPrefix] at hroute
    obtain ⟨hroutes, -⟩ := mem_declarations.mp
      ((mem_routes_of_startsAt hptree hstarts).mp hroute.1)
    exact hroute.2 (hall keys starting sub hstarts route hroutes hwhole)

/-- The search of a running router in the tree of a domain, after a history of calls. -/
def findAfter (P : Platform) (routes : List NgRoute) (start : RegexPool P.engine)
    (choices : Nat → Option Nat) (history : List FindCall) (ptree : NgTreeNodePath)
    (segments : List Str) (endsWithSlash exactSegments : Bool) :
    Except JvmException (PathParams × Option NgMatchedRoutes) × RouterState P :=
  NgTreeNodePath.find P (RouterState.ops P) segments ptree endsWithSlash [] ∅ exactSegments
    (after P (build P routes) (fresh start choices) history)

/-- After any history, a search with exact segments keeps the routes with a slash at their end
out of the string prefix branch just when each of them, where it is filed behind that branch,
declares no path that neither ends with a slash nor starts with the segment. -/
theorem keepsWholeSegments_iff (P : Platform) (routes : List NgRoute)
    (start : RegexPool P.engine) (choices : Nat → Option Nat) (history : List FindCall)
    (domain : Str) (ptree : NgTreeNodePath)
    (hptree : KeyedList.get? domain (build P routes).tree = some ptree) (segments : List Str)
    (endsWithSlash : Bool) (bound : PathParams) (found : Option NgMatchedRoutes)
    (h : (findAfter P routes start choices history ptree segments endsWithSlash true).1 =
      .ok (bound, found)) :
    KeepsWholeSegments P (Matchers.ofPool
        (findAfter P routes start choices history ptree segments endsWithSlash true).2.pool)
        domain ptree segments endsWithSlash found ↔
      ∀ keys starting sub, StartsAt P (Matchers.ofPool
          (findAfter P routes start choices history ptree segments endsWithSlash true).2.pool)
          endsWithSlash ptree segments keys starting sub →
        ∀ route ∈ routes, DeclaresWhole P domain route keys → AllWhole route starting :=
  keepsWholeSegments_find_iff hptree ((find_settles segments ptree endsWithSlash [] ∅ true).value_eq
    _ (coherent_after _ start choices history) _ h _ (backs_ofPool _))

/-- A route that declares `d.tld/api/` and another path. -/
def apiRoute (other : String) : NgRoute where
  id := "api".toList
  frontend := { domains := [⟨"d.tld/api/".toList⟩, ⟨other.toList⟩] }
  rest := []

/-- With slashes at the end of both of its paths the route is kept from `/apiv2`. -/
theorem keepsWholeSegments_iff_of_example :
    KeepsWholeSegments starPlatform (Matchers.ofPool
        (findAfter starPlatform [apiRoute "e.tld/foo/"] [] (fun _ => none) []
          (Trie.ofList (declarations starPlatform [apiRoute "e.tld/foo/"] "d.tld".toList))
          ["apiv2".toList] false true).2.pool) "d.tld".toList
        (Trie.ofList (declarations starPlatform [apiRoute "e.tld/foo/"] "d.tld".toList))
        ["apiv2".toList] false none ↔
      ∀ keys starting sub, StartsAt starPlatform (Matchers.ofPool
          (findAfter starPlatform [apiRoute "e.tld/foo/"] [] (fun _ => none) []
            (Trie.ofList (declarations starPlatform [apiRoute "e.tld/foo/"] "d.tld".toList))
            ["apiv2".toList] false true).2.pool) false
          (Trie.ofList (declarations starPlatform [apiRoute "e.tld/foo/"] "d.tld".toList))
          ["apiv2".toList] keys starting sub →
        ∀ route ∈ [apiRoute "e.tld/foo/"],
          DeclaresWhole starPlatform "d.tld".toList route keys → AllWhole route starting :=
  keepsWholeSegments_iff starPlatform [apiRoute "e.tld/foo/"] [] (fun _ => none) []
    "d.tld".toList _ (by rw [get?_build, if_neg (by decide +kernel)]) ["apiv2".toList] false ∅
    none (by decide +kernel)

/-- A path without a slash on another domain opens `/apiv2` to a route that declares `/api/`. -/
theorem exists_segment_not_kept_whole :
    ¬ ∀ (P : Platform) (routes : List NgRoute) (start : RegexPool P.engine)
        (choices : Nat → Option Nat) (history : List FindCall) (domain : Str)
        (ptree : NgTreeNodePath),
      KeyedList.get? domain (build P routes).tree = some ptree →
      ∀ (segments : List Str) (endsWithSlash : Bool) (bound : PathParams)
        (found : Option NgMatchedRoutes),
      (findAfter P routes start choices history ptree segments endsWithSlash true).1 =
        .ok (bound, found) →
      KeepsWholeSegments P (Matchers.ofPool
          (findAfter P routes start choices history ptree segments endsWithSlash true).2.pool)
        domain ptree segments endsWithSlash found := by
  intro h
  have hkeeps := h starPlatform [apiRoute "e.tld/foo"] [] (fun _ => none) [] "d.tld".toList
    (Trie.ofList (declarations starPlatform [apiRoute "e.tld/foo"] "d.tld".toList))
    (by rw [get?_build, if_neg (by decide +kernel)]) ["apiv2".toList] false ∅
    (some { routes := [apiRoute "e.tld/foo"], path := "/apiv2".toList, pathParams := ∅,
            noMoreSegments := false }) (by decide +kernel)
  refine hkeeps ["api".toList] "apiv2".toList (.node [apiRoute "e.tld/foo"] [])
    (@StartsAt.starts _ _ false _ _ _ _ [] [] rfl ?_ ?_ ?_) _ rfl ?_ (apiRoute "e.tld/foo") ?_ ?_
  · decide +kernel
  · decide +kernel
  · decide +kernel
  · decide +kernel
  · decide +kernel
  · exact ⟨⟨"d.tld/api/".toList⟩, by decide +kernel, by decide +kernel, by decide +kernel,
      by decide +kernel⟩

end NgTreeRouter

end Otoroshi
