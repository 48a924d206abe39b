/-
# Adding routes to a table

A route that a router of its own would serve can be lost in a larger table: the
walk takes the most specific key at each segment and never comes back, so a
declared path that takes the request away from the route and then has nothing
for it hides the route. `Uncaptured` excludes just that, by comparing what a
table declares with what the route alone declares. Where another key takes a
segment, its walk has to come by a route too.

Under it, and while the patterns of the table compile and no two parameter
siblings compete, what is found alone is found in the table
(`exists_served_of_alone`).
-/

import Otoroshi.Router.PathParams

namespace Otoroshi

/-! ## Searches that do not throw -/

/-- The patterns of the key compile, and so always answer. -/
structure KeyAnswers (M : Matchers) (key : Str) : Prop where
  wildcard : isWildcardKey key = true →
    ∀ segment, ∃ accepted, M.wildcard key segment = .ok accepted
  regex : isRegexKey key = true → ∃ text, regexOfKey key = .ok text ∧
    ∀ segment, ∃ accepted, M.regex text segment = .ok accepted

namespace NgTreeNodePath

variable {P : Platform} {M : Matchers} {node : NgTreeNodePath}

theorem exists_findWildcardKey (segment : Str) {keys : List Str}
    (hkeys : ∀ key ∈ keys, isWildcardKey key = true ∧ KeyAnswers M key) :
    ∃ found, findWildcardKey M.ops segment keys = .ok found := by
  induction keys with
  | nil => exact ⟨none, rfl⟩
  | cons key keys ih =>
      rw [List.forall_mem_cons] at hkeys
      obtain ⟨accepted, haccepted⟩ := hkeys.1.2.wildcard hkeys.1.1 segment
      have hasked : M.ops.wildcardMatches key segment = .ok accepted := haccepted
      cases accepted with
      | true => exact ⟨some key, by rw [findWildcardKey, hasked]; rfl⟩
      | false =>
          obtain ⟨found, hfound⟩ := ih hkeys.2
          exact ⟨found, by rw [findWildcardKey, hasked]; exact hfound⟩

theorem exists_readRegexKeys {keys : List Str}
    (hkeys : ∀ key ∈ keys, isRegexKey key = true ∧ KeyAnswers M key) :
    ∃ pairs, readRegexKeys M.ops keys = .ok pairs := by
  induction keys with
  | nil => exact ⟨[], rfl⟩
  | cons key keys ih =>
      rw [List.forall_mem_cons] at hkeys
      obtain ⟨text, htext, -⟩ := hkeys.1.2.regex hkeys.1.1
      obtain ⟨rest, hrest⟩ := ih hkeys.2
      exact ⟨(key, text) :: rest, by rw [readRegexKeys, htext, hrest]; rfl⟩

theorem exists_filterRegexKeys (segment : Str) {pairs : List (Str × Str)}
    (hpairs : ∀ pair ∈ pairs, ∃ accepted, M.regex pair.2 segment = .ok accepted) :
    ∃ keys, filterRegexKeys M.ops segment pairs = .ok keys := by
  induction pairs with
  | nil => exact ⟨[], rfl⟩
  | cons pair pairs ih =>
      rw [List.forall_mem_cons] at hpairs
      obtain ⟨key, text⟩ := pair
      obtain ⟨accepted, haccepted⟩ := hpairs.1
      obtain ⟨rest, hrest⟩ := ih hpairs.2
      have hasked : M.ops.regexMatches text segment = .ok accepted := haccepted
      exact ⟨_, by rw [filterRegexKeys, hasked, hrest]; rfl⟩

theorem exists_matchingRegexKeys (hnode : node.KeysIn (KeyAnswers M)) (segment : Str) :
    ∃ matching, matchingRegexKeys P M.ops node segment = .ok matching := by
  have hkeys : ∀ key ∈ regexKeys P node, isRegexKey key = true ∧ KeyAnswers M key := by
    intro key hkey
    obtain ⟨hmem, hkind⟩ := mem_regexKeys.mp hkey
    exact ⟨hkind, hnode.of_mem_keys hmem⟩
  obtain ⟨pairs, hpairs⟩ := exists_readRegexKeys hkeys
  have htexts : ∀ pair ∈ pairs, ∃ accepted, M.regex pair.2 segment = .ok accepted := by
    intro pair hpair
    obtain ⟨hkey, htext⟩ := mem_readRegexKeys hpairs hpair
    obtain ⟨hkind, hanswers⟩ := hkeys pair.1 hkey
    obtain ⟨text, hread, haccepts⟩ := hanswers.regex hkind
    rw [htext, Except.ok.injEq] at hread
    rw [hread]
    exact haccepts segment
  obtain ⟨keys, hfilter⟩ := exists_filterRegexKeys segment htexts
  exact ⟨_, by rw [matchingRegexKeys, hpairs, ok_bind, hfilter]; rfl⟩

theorem exists_entryAt (hnode : node.KeysIn (KeyAnswers M)) (head : Str) :
    ∃ names entry, entryAt P M node head = .ok (names, entry) := by
  rw [entryAt]
  cases node.child? head with
  | some sub => exact ⟨[], some sub, rfl⟩
  | none =>
      obtain ⟨matching, hmatching⟩ := exists_matchingRegexKeys (P := P) hnode head
      simp only [hmatching, ok_bind]
      split
      · have hkeys : ∀ key ∈ wildcardKeys P node, isWildcardKey key = true ∧ KeyAnswers M key := by
          intro key hkey
          obtain ⟨hmem, hkind⟩ := mem_wildcardKeys.mp hkey
          exact ⟨hkind, hnode.of_mem_keys hmem⟩
        obtain ⟨found, hfound⟩ := exists_findWildcardKey head hkeys
        rw [hfound]
        exact ⟨_, _, rfl⟩
      · exact ⟨_, _, rfl⟩

/-- A search in a tree whose patterns all compile returns. -/
theorem exists_find (hnode : node.KeysIn (KeyAnswers M)) (segments : List Str)
    (endsWithSlash : Bool) (path : Str) (pathParams : PathParams) (exactSegments : Bool) :
    ∃ found answer, find P M.ops segments node endsWithSlash path pathParams exactSegments =
      .ok (found, answer) := by
  induction segments generalizing node path pathParams with
  | nil => exact ⟨_, _, rfl⟩
  | cons head tail ih =>
      obtain ⟨names, entry, hentry⟩ := exists_entryAt (P := P) hnode head
      rw [find_cons, descend, hentry]
      cases entry with
      | some sub =>
          obtain ⟨found, answer, hfind⟩ := ih (keysIn_of_entryAt hnode hentry)
            (path ++ '/' :: head) (bindAll names head pathParams)
          simp only [ok_bind, hfind]
          exact ⟨_, _, rfl⟩
      | none =>
          cases htarget : (if endsWithSlash = true then none
              else ((prefixKey P node head).bind node.child?).map
                fun sub => (cutForPrefix exactSegments head sub, true)) with
          | none =>
              simp only [ok_bind]
              exact ⟨_, _, rfl⟩
          | some target =>
              have hleaf : isLeaf target.1 = true := by
                split at htarget
                · cases htarget
                · obtain ⟨sub, -, rfl⟩ := Option.map_eq_some_iff.mp htarget
                  cases exactSegments <;> rfl
              simp only [ok_bind, find_of_isLeaf hleaf]
              exact ⟨_, _, rfl⟩

end NgTreeNodePath

/-! ## Captured requests -/

/-- No declared path of the table takes the request away into a dead end.
Where the table goes on with a segment by a key, either every walk behind that
key comes by a route, or it is the only key the route alone goes on with. Where
only string prefixes are left, either the longest one has routes, or the route
alone declares it. -/
def Uncaptured (M : Matchers) (endsWithSlash exactSegments : Bool) :
    Declared → Declared → List Str → Prop
  | _, _, [] => True
  | all, alone, head :: tail => Trie.here all ≠ [] ∨
      ((∀ key ∈ followed M all head,
          Leads M endsWithSlash exactSegments (Trie.strip key all) tail ∨
          (followed M alone head ≠ [] ∧ (∀ other ∈ followed M alone head, other = key) ∧
            Uncaptured M endsWithSlash exactSegments (Trie.strip key all)
              (Trie.strip key alone) tail)) ∧
        (followed M all head = [] → endsWithSlash = false →
          PrefixAnswers exactSegments all head ∨ ∀ key ∈ prefixKeys all head,
            ∃ other ∈ prefixKeys alone head, key.length ≤ other.length))

instance Uncaptured.decidable (M : Matchers) (endsWithSlash exactSegments : Bool) :
    ∀ (all alone : Declared) (segments : List Str),
      Decidable (Uncaptured M endsWithSlash exactSegments all alone segments)
  | _, _, [] => isTrue trivial
  | all, alone, head :: tail =>
      have := fun key => Uncaptured.decidable M endsWithSlash exactSegments (Trie.strip key all)
        (Trie.strip key alone) tail
      inferInstanceAs (Decidable (Trie.here all ≠ [] ∨
        ((∀ key ∈ followed M all head,
            Leads M endsWithSlash exactSegments (Trie.strip key all) tail ∨
            (followed M alone head ≠ [] ∧ (∀ other ∈ followed M alone head, other = key) ∧
              Uncaptured M endsWithSlash exactSegments (Trie.strip key all)
                (Trie.strip key alone) tail)) ∧
          (followed M all head = [] → endsWithSlash = false →
            PrefixAnswers exactSegments all head ∨ ∀ key ∈ prefixKeys all head,
              ∃ other ∈ prefixKeys alone head, key.length ≤ other.length))))

theorem strip_subset {alone all : Declared} (h : alone ⊆ all) (key : Str) :
    Trie.strip key alone ⊆ Trie.strip key all := by
  intro entry hentry
  obtain ⟨keys, route⟩ := entry
  exact Trie.mem_strip.mpr (h (Trie.mem_strip.mp hentry))

theorem goesOn_of_subset {alone all : Declared} (h : alone ⊆ all) {key : Str}
    (hkey : GoesOn alone key) : GoesOn all key := by
  obtain ⟨keys, route, hmem⟩ := exists_mem_of_goesOn hkey
  exact goesOn_of_mem (h hmem)

theorem here_ne_nil_of_subset {alone all : Declared} (h : alone ⊆ all)
    (hhere : Trie.here alone ≠ []) : Trie.here all ≠ [] := by
  obtain ⟨route, hroute⟩ := List.exists_mem_of_ne_nil _ hhere
  exact List.ne_nil_of_mem (Trie.mem_here.mpr (h (Trie.mem_here.mp hroute)))

namespace NgTreeNodePath

variable {P : Platform} {M : Matchers} {node single sub : NgTreeNodePath}
  {all alone declared : Declared} {head : Str} {names : List Str}

/-- The node of one of the followed keys, when they are all the same key. -/
theorem files_of_followed_eq {key : Str} (h : EntryCase M declared head names (some sub))
    (hkey : ∀ other ∈ followed M declared head, other = key) :
    Files sub (Trie.strip key declared) := by
  cases h with
  | exact hexact hsub =>
      have hsame : head = key := hkey head (by simp [followed_of_exact hexact])
      rwa [← hsame]
  | params hexact hsome hnames hsub =>
      exact hsub key fun other hother htakes =>
        hkey other (mem_followed_of_param hexact hother htakes)
  | wildcard hexact hparams hother htakes hsub =>
      rename_i other
      have hsame : other = key := hkey other (mem_followed_of_wildcard hexact hparams hother htakes)
      rwa [← hsame]

/-- A segment that no key of a table takes is taken by no key of a part of it. -/
theorem entryCase_of_subset_nothing (hsubset : alone ⊆ all)
    (hall : EntryCase M all head names none) {entry : Option NgTreeNodePath}
    {aloneNames : List Str} (halone : EntryCase M alone head aloneNames entry) :
    entry = none := by
  cases hall with
  | nothing hexact hparams hwildcards =>
      cases halone with
      | exact hgoes => exact absurd (goesOn_of_subset hsubset hgoes) hexact
      | params _ hsome =>
          obtain ⟨key, hkey, htakes⟩ := hsome
          rw [hparams key (goesOn_of_subset hsubset hkey)] at htakes
          cases htakes
      | wildcard _ _ hkey htakes =>
          rw [hwildcards _ (goesOn_of_subset hsubset hkey)] at htakes
          cases htakes
      | nothing => rfl

theorem prefixRoutes_subset (hsubset : alone ⊆ all) (exactSegments : Bool) (key : Str) :
    prefixRoutes exactSegments alone head key ⊆ prefixRoutes exactSegments all head key := by
  intro route hroute
  obtain ⟨hmem, hkept⟩ := List.mem_filter.mp hroute
  exact List.mem_filter.mpr
    ⟨Trie.mem_listedAt.mpr (hsubset (Trie.mem_listedAt.mp hmem)), hkept⟩

theorem here_ne_nil_of_own (hnode : Files node declared) {path : Str} {pathParams : PathParams}
    {noMore : Bool} (h : own node path pathParams noMore ≠ none) : Trie.here declared ≠ [] := by
  intro hhere
  apply h
  have hvalues : node.values = [] := by
    rw [List.eq_nil_iff_forall_not_mem]
    intro route hroute
    have hmem := Trie.mem_here.mpr ((hnode.mem_iff [] route).mp hroute)
    simp [hhere] at hmem
  rw [own, if_pos (by simp [routes, hvalues])]

/-- A node without routes of its own only answers from below. -/
theorem exists_below_of_find {endsWithSlash exactSegments : Bool} {tail : List Str}
    (hnode : Files node declared) (hhere : Trie.here declared = []) {path : Str}
    {pathParams found : PathParams} {answer : Option NgMatchedRoutes}
    (h : find P M.ops (head :: tail) node endsWithSlash path pathParams exactSegments =
      .ok (found, answer)) (hanswer : answer ≠ none) :
    ∃ names target bound below,
      descend P M node endsWithSlash exactSegments head = .ok (names, some target) ∧
        find P M.ops tail target.1 endsWithSlash (path ++ '/' :: head)
          (bindAll names head pathParams) exactSegments = .ok (bound, below) ∧ below ≠ none := by
  have hown : ∀ params, own node path params false = none := by
    intro params
    by_contra hsome
    exact here_ne_nil_of_own hnode hsome hhere
  rw [find_cons] at h
  obtain ⟨⟨names, target⟩, hdescend, h⟩ := bind_eq_ok_iff.mp h
  cases target with
  | none =>
      rw [hown, Except.ok.injEq, Prod.mk.injEq] at h
      exact absurd h.2.symm hanswer
  | some target =>
      obtain ⟨⟨bound, below⟩, hfind, h⟩ := bind_eq_ok_iff.mp h
      rw [hown, Option.or_none, Except.ok.injEq, Prod.mk.injEq] at h
      refine ⟨names, target, bound, below, hdescend, hfind, fun hnone => hanswer ?_⟩
      rw [← h.2, hnone, Option.map_none]

theorem prefixKeys_subset (hsubset : alone ⊆ all) :
    prefixKeys alone head ⊆ prefixKeys all head := by
  intro key hkey
  obtain ⟨hgoes, hplain, hstarts⟩ := mem_prefixKeys.mp hkey
  exact mem_prefixKeys.mpr ⟨goesOn_of_subset hsubset hgoes, hplain, hstarts⟩

/-- Where only string prefixes are left, the table answers too: by a longer
prefix with routes, or by the one the route alone answers by. -/
theorem find_ne_none_of_alone_prefix {exactSegments : Bool} {tail : List Str}
    (hall : Files node all) (halone : Files single alone) (hsubset : alone ⊆ all)
    (hprefixes : PrefixAnswers exactSegments all head ∨ ∀ key ∈ prefixKeys all head,
      ∃ other ∈ prefixKeys alone head, key.length ≤ other.length)
    (hentry : entryAt P M node head = .ok (names, none)) {path alonePath : Str}
    {pathParams aloneParams found aloneFound : PathParams}
    {answer aloneAnswer : Option NgMatchedRoutes}
    (h : find P M.ops (head :: tail) node false path pathParams exactSegments =
      .ok (found, answer))
    {key : Str} (hkey : prefixKey P single head = some key) (hchild : single.child? key = some sub)
    (hfind : find P M.ops tail (cutForPrefix exactSegments head sub) false alonePath aloneParams
      exactSegments = .ok (aloneFound, aloneAnswer)) (hanswer : aloneAnswer ≠ none) :
    answer ≠ none := by
  rcases hprefixes with ⟨longest, hlongest, hmax, hroutes⟩ | hcovered
  · exact find_ne_none_of_prefix hall hentry hlongest hmax hroutes h
  · obtain ⟨hmem, hmax⟩ := prefixKey_longest halone hkey
    have hroutes : prefixRoutes exactSegments all head key ≠ [] := by
      have halones := (find_cutForPrefix_ne_none_iff halone hchild tail hfind).mp hanswer
      obtain ⟨route, hroute⟩ := List.exists_mem_of_ne_nil _ halones
      exact List.ne_nil_of_mem (prefixRoutes_subset hsubset exactSegments key hroute)
    apply find_ne_none_of_prefix hall hentry (prefixKeys_subset hsubset hmem) _ hroutes h
    intro other hother
    obtain ⟨longer, hlonger, hlength⟩ := hcovered other hother
    exact hlength.trans (hmax longer hlonger)

/-- What a route alone is found for, a table with that route finds something
for, unless it captures the request. -/
theorem find_ne_none_of_alone {segments : List Str} {endsWithSlash exactSegments : Bool}
    (hall : Files node all) (halone : Files single alone) (hsubset : alone ⊆ all)
    (huntied : Untied M all segments)
    (hfree : Uncaptured M endsWithSlash exactSegments all alone segments)
    {path alonePath : Str} {pathParams aloneParams found aloneFound : PathParams}
    {answer aloneAnswer : Option NgMatchedRoutes}
    (h : find P M.ops segments node endsWithSlash path pathParams exactSegments =
      .ok (found, answer))
    (hsome : find P M.ops segments single endsWithSlash alonePath aloneParams exactSegments =
      .ok (aloneFound, aloneAnswer)) (hanswer : aloneAnswer ≠ none) : answer ≠ none := by
  induction segments generalizing node single all alone path alonePath pathParams aloneParams
    found aloneFound answer aloneAnswer with
  | nil =>
      rw [find, pure_eq_ok, Except.ok.injEq, Prod.mk.injEq] at hsome
      rw [← hsome.2] at hanswer
      exact find_ne_none_of_here hall
        (here_ne_nil_of_subset hsubset (here_ne_nil_of_own halone hanswer)) h
  | cons head tail ih =>
      by_cases hhere : Trie.here all ≠ []
      · exact find_ne_none_of_here hall hhere h
      have haloneHere : Trie.here alone = [] := by
        by_contra hsomeHere
        exact hhere (here_ne_nil_of_subset hsubset hsomeHere)
      obtain ⟨aloneNames, aloneTarget, aloneBound, aloneBelow, haloneDescend, haloneFind,
        haloneBelow⟩ := exists_below_of_find halone haloneHere hsome hanswer
      obtain ⟨⟨names, target⟩, hdescend, -⟩ := bind_eq_ok_iff.mp ((find_cons ..).symm.trans h)
      obtain ⟨hkeys, hprefixes⟩ := hfree.resolve_left hhere
      rcases descend_cases hdescend with ⟨sub, hentry, rfl⟩ | ⟨hentry, -⟩
      · -- the table goes on by a key: so does the route alone, by the same one
        obtain ⟨key, hkey, hsub⟩ := exists_followed_of_entryCase huntied.1
          (entryCase_of_entryAt hall hentry)
        apply find_ne_none_of_below h hdescend
        intro bound below hfind
        rcases hkeys key hkey with hleads | ⟨hgoes, honly, hfree⟩
        · exact find_ne_none_of_leads hsub (huntied.2 key hkey) hleads hfind
        · rcases descend_cases haloneDescend with ⟨single', haloneEntry, htarget⟩ | ⟨haloneEntry, -⟩
          · cases htarget
            have halone' := files_of_followed_eq (entryCase_of_entryAt halone haloneEntry) honly
            exact ih hsub halone' (strip_subset hsubset key) (huntied.2 key hkey) hfree hfind
              haloneFind haloneBelow
          · obtain ⟨sub', hsub'⟩ := exists_sub_of_followed
              (entryCase_of_entryAt halone haloneEntry) hgoes
            cases hsub'
      · -- no key of the table takes the segment, so none of the route does
        have hnothing := entryCase_of_entryAt hall hentry
        rcases descend_cases haloneDescend with ⟨single', haloneEntry, -⟩ | ⟨haloneEntry, hstop⟩
        · have hnone := entryCase_of_subset_nothing hsubset hnothing
            (entryCase_of_entryAt halone haloneEntry)
          cases hnone
        · rcases hstop with ⟨hnone, -⟩ | ⟨key, single', rfl, hkey, hchild, htarget⟩
          · cases hnone
          · cases htarget
            have hfollowed : followed M all head = [] := by
              cases hnothing with
              | nothing hexact hparams hwildcards =>
                  exact followed_of_nothing hexact hparams hwildcards
            exact find_ne_none_of_alone_prefix hall halone hsubset (hprefixes hfollowed rfl)
              hentry h hkey hchild haloneFind haloneBelow

end NgTreeNodePath

namespace NgTreeRouter

open RouterState

/-! ## The domain of a request -/

section ServingDomain

variable (P : Platform) (M : Matchers)

/-- The domain whose tree is searched: the domain of the request if the table
has it, else the first wildcard domain that accepts it. -/
def servingDomain (router : NgTreeRouter) (domain : Str) : Except JvmException (Option Str) :=
  match KeyedList.get? domain router.tree with
  | some _ => .ok (some domain)
  | none => (firstWildcard M.ops domain router.wildcards).map fun found => found.map (·.domain)

variable {P M}

theorem mem_of_firstWildcard {domain : Str} {wildcards : List NgRouteDomainAndPathWrapper}
    {w : NgRouteDomainAndPathWrapper}
    (h : firstWildcard M.ops domain wildcards = .ok (some w)) : w ∈ wildcards := by
  induction wildcards with
  | nil => cases h
  | cons first wildcards ih =>
      obtain ⟨accepted, -, h⟩ := bind_eq_ok_iff.mp h
      cases accepted with
      | true =>
          cases h
          exact List.mem_cons_self
      | false => exact List.mem_cons_of_mem _ (ih h)

/-- A call is the search in the tree of the serving domain. -/
theorem find_of_servingDomain {router : NgTreeRouter} {domain serving : Str}
    (h : servingDomain M router domain = .ok (some serving)) :
    ∃ ptree, KeyedList.get? serving router.tree = some ptree ∧
      ∀ path exactSegments, find P M.ops router domain path exactSegments =
        findInTree P M.ops ptree path exactSegments := by
  rw [servingDomain] at h
  cases hdomain : KeyedList.get? domain router.tree with
  | some ptree =>
      rw [hdomain] at h
      cases h
      refine ⟨ptree, hdomain, fun path exactSegments => ?_⟩
      rw [find, hdomain]
  | none =>
      rw [hdomain] at h
      obtain ⟨found, hfound, hmap⟩ := map_eq_ok_iff.mp h
      obtain ⟨w, rfl, rfl⟩ := Option.map_eq_some_iff.mp hmap
      obtain ⟨ptree, hptree⟩ := router.tree_of_wildcard w (mem_of_firstWildcard hfound)
      refine ⟨ptree, hptree, fun path exactSegments => ?_⟩
      rw [find, hdomain]
      show findWildcard P M.ops router domain path exactSegments = _
      rw [findWildcard, hfound, ok_bind]
      simp only [hptree]

end ServingDomain

/-! ## Tables with one more route -/

variable {P : Platform} {start : RegexPool P.engine} {routes : List NgRoute} {r : NgRoute}

/-- Every pattern of the table can be read and compiles. -/
structure Compiles (P : Platform) (routes : List NgRoute) (start : RegexPool P.engine) :
    Prop where
  wildcard : ∀ text ∈ wildcardTexts P routes, ∃ regex,
    (RegexPool.apply text start).1 = .ok regex
  regex : ∀ text ∈ regexTexts routes, ∃ regex, (RegexPool.regex text start).1 = .ok regex
  read : ∀ filing ∈ filings routes, ∀ key ∈ pathSegments filing.2.path, isRegexKey key = true →
    ∃ text, regexOfKey key = .ok text

theorem keyAnswers_build (hcompiles : Compiles P routes start) {domain : Str}
    {ptree : NgTreeNodePath} (h : KeyedList.get? domain (build P routes).tree = some ptree) :
    ptree.KeysIn (KeyAnswers (Matchers.ofPool start)) := by
  rw [get?_build] at h
  split at h
  · cases h
  cases h
  refine Trie.keysIn_ofList fun entry hentry key hkey => ?_
  obtain ⟨segments, route⟩ := entry
  obtain ⟨hroute, declared, hdeclared, -, rfl⟩ := mem_declarations.mp hentry
  have hfiling : (route, declared) ∈ filings routes := mem_filings.mpr ⟨hroute, hdeclared⟩
  refine { wildcard := fun hstar segment => ?_, regex := fun hregex => ?_ }
  · have hmem : key ∈ wildcardTexts P routes := List.mem_flatMap.mpr ⟨_, hfiling,
      List.mem_filter.mpr ⟨List.mem_cons_of_mem _ hkey, hstar⟩⟩
    obtain ⟨regex, hcompiled⟩ := hcompiles.wildcard key hmem
    exact ⟨regex.matchesValue segment, congrArg (Except.map _) hcompiled⟩
  · obtain ⟨text, htext⟩ := hcompiles.read _ hfiling key hkey hregex
    have hmem : text ∈ regexTexts routes := List.mem_flatMap.mpr ⟨_, hfiling,
      List.mem_filterMap.mpr ⟨key, List.mem_filter.mpr ⟨hkey, hregex⟩, by rw [htext]; rfl⟩⟩
    obtain ⟨regex, hcompiled⟩ := hcompiles.regex text hmem
    exact ⟨text, htext, fun segment =>
      ⟨regex.matchesValue segment, congrArg (Except.map _) hcompiled⟩⟩

theorem declarations_subset (hr : r ∈ routes) (domain : Str) :
    declarations P [r] domain ⊆ declarations P routes domain := by
  intro entry hentry
  obtain ⟨hroute, hdeclared⟩ := mem_declarations.mp hentry
  rw [List.mem_singleton] at hroute
  exact mem_declarations.mpr ⟨hroute ▸ hr, hdeclared⟩

theorem filings_subset (hr : r ∈ routes) : filings [r] ⊆ filings routes := by
  intro filing hfiling
  obtain ⟨hroute, hdeclared⟩ := mem_filings.mp hfiling
  rw [List.mem_singleton] at hroute
  exact mem_filings.mpr ⟨hroute ▸ hr, hdeclared⟩

/-- A part of an unambiguous table is unambiguous. -/
theorem unambiguous_of_mem (hr : r ∈ routes) (hclear : (texts P routes).Unambiguous start) :
    (texts P [r]).Unambiguous start := by
  intro text hwildcard hregex
  obtain ⟨filing, hfiling, hwildcard⟩ := List.mem_flatMap.mp hwildcard
  obtain ⟨other, hother, hregex⟩ := List.mem_flatMap.mp hregex
  exact hclear text (List.mem_flatMap.mpr ⟨filing, filings_subset hr hfiling, hwildcard⟩)
    (List.mem_flatMap.mpr ⟨other, filings_subset hr hother, hregex⟩)

/-- The table does not take the request away from the route. In the domain that
serves it no two parameter siblings compete for a segment, and either whichever
way the walk goes it comes by a route, or the same domain serves the route alone
and no declared path captures the request. -/
def KeepsRequest (P : Platform) (M : Matchers) (routes : List NgRoute) (r : NgRoute)
    (call : FindCall) : Prop :=
  ∃ domain, servingDomain M (build P routes) call.domain = .ok (some domain) ∧
    Untied M (declarations P routes domain) (pathSegments call.path) ∧
    (Leads M (endsWith call.path "/".toList) call.trailingSlashMeansExactSegments
        (declarations P routes domain) (pathSegments call.path) ∨
      (servingDomain M (build P [r]) call.domain = .ok (some domain) ∧
        Uncaptured M (endsWith call.path "/".toList) call.trailingSlashMeansExactSegments
          (declarations P routes domain) (declarations P [r] domain) (pathSegments call.path)))

/-- What a route alone is found for, every table with the route that keeps the
request finds something for, after any history of calls on either router. -/
theorem exists_served_of_alone (P : Platform) (routes : List NgRoute) (r : NgRoute)
    (hr : r ∈ routes) (start : RegexPool P.engine)
    (hclear : (texts P routes).Unambiguous start) (hcompiles : Compiles P routes start)
    (choices choices' : Nat → Option Nat) (history history' : List FindCall) (call : FindCall)
    (hkeeps : KeepsRequest P (Matchers.ofPool start) routes r call) (matched : NgMatchedRoutes)
    (halone : (serve P (build P [r]) call
      (after P (build P [r]) (fresh start choices) history)).1 = .ok (some matched)) :
    ∃ found, (serve P (build P routes) call
      (after P (build P routes) (fresh start choices') history')).1 = .ok (some found) := by
  rw [serve_after (unambiguous_of_mem hr hclear)] at halone
  rw [serve_after hclear]
  obtain ⟨domain, hserving, huntied, hkept⟩ := hkeeps
  obtain ⟨ptree, hptree, hfind⟩ := find_of_servingDomain hserving
  obtain ⟨bound, answer, hanswer⟩ := NgTreeNodePath.exists_find (P := P)
    (keyAnswers_build hcompiles hptree) (pathSegments call.path)
    (endsWith call.path "/".toList) [] ∅ call.trailingSlashMeansExactSegments
  have hserved : find P (Matchers.ofPool start).ops (build P routes) call.domain call.path
      call.trailingSlashMeansExactSegments = .ok answer := by
    rw [hfind, findInTree, hanswer]
    rfl
  have hsome : answer ≠ none := by
    rcases hkept with hleads | ⟨haloneServing, hfree⟩
    · exact NgTreeNodePath.find_ne_none_of_leads (files_build hptree) huntied hleads hanswer
    · obtain ⟨single, hsingle, haloneFind⟩ := find_of_servingDomain haloneServing
      rw [haloneFind] at halone
      obtain ⟨⟨aloneBound, aloneAnswer⟩, hfound, halone⟩ := bind_eq_ok_iff.mp halone
      cases halone
      exact NgTreeNodePath.find_ne_none_of_alone (files_build hptree) (files_build hsingle)
        (declarations_subset hr domain) huntied hfree hanswer hfound (Option.some_ne_none matched)
  obtain ⟨found, rfl⟩ := Option.ne_none_iff_exists'.mp hsome
  exact ⟨found, hserved⟩

theorem exists_served_of_alone_of_example :
    ∃ found, (serve starPlatform (build starPlatform [.declaring "admin" "d.tld/api/users/admin",
        .declaring "param" "d.tld/api/:x/y", .declaring "star" "d.tld/api/v*/y"])
        ⟨"d.tld".toList, "/api/7/y/z".toList, false⟩
        (after starPlatform (build starPlatform [.declaring "admin" "d.tld/api/users/admin",
            .declaring "param" "d.tld/api/:x/y", .declaring "star" "d.tld/api/v*/y"])
          (fresh [] fun _ => some 0) [⟨"d.tld".toList, "/api/v1/y".toList, true⟩])).1 =
      .ok (some found) :=
  exists_served_of_alone starPlatform [.declaring "admin" "d.tld/api/users/admin",
      .declaring "param" "d.tld/api/:x/y", .declaring "star" "d.tld/api/v*/y"]
    (.declaring "param" "d.tld/api/:x/y") (by decide +kernel) []
    (unambiguous_of_disjoint _ _ (by decide +kernel))
    { wildcard := fun text htext => by
        have hone : text = "v*".toList := List.eq_of_mem_singleton htext
        rw [hone]
        exact ⟨_, rfl⟩
      regex := fun text htext => absurd htext List.not_mem_nil
      read := fun filing hfiling key hkey hregex => by
        have hplain : ∀ filing ∈ filings [.declaring "admin" "d.tld/api/users/admin",
            .declaring "param" "d.tld/api/:x/y", .declaring "star" "d.tld/api/v*/y"],
            ∀ key ∈ pathSegments filing.2.path, isRegexKey key = false := by decide +kernel
        rw [hplain filing hfiling key hkey] at hregex
        cases hregex }
    (fun _ => none) _ [] _ ⟨"d.tld".toList, "/api/7/y/z".toList, false⟩
    ⟨"d.tld".toList, by decide +kernel, by decide +kernel, Or.inr (by decide +kernel)⟩
    { routes := [.declaring "param" "d.tld/api/:x/y"]
      path := "/api/7/y".toList
      pathParams := NgTreeNodePath.bindAll ["x".toList] "7".toList ∅
      noMoreSegments := false } (by decide +kernel)

/-- The literal `users` takes the request away from the route with a parameter,
and has nothing for it. -/
theorem exists_lost_by_adding :
    ¬ ∀ (P : Platform) (routes : List NgRoute) (r : NgRoute), r ∈ routes →
      ∀ (start : RegexPool P.engine) (choices choices' : Nat → Option Nat)
        (history history' : List FindCall) (call : FindCall) (matched : NgMatchedRoutes),
      (serve P (build P [r]) call
        (after P (build P [r]) (fresh start choices) history)).1 = .ok (some matched) →
      ∃ found, (serve P (build P routes) call
        (after P (build P routes) (fresh start choices') history')).1 = .ok (some found) := by
  intro h
  obtain ⟨found, hfound⟩ := h starPlatform [.declaring "admin" "d.tld/api/users/admin",
      .declaring "param" "d.tld/api/:x/y"] (.declaring "param" "d.tld/api/:x/y")
    (by decide +kernel) [] (fun _ => none) (fun _ => none) [] []
    ⟨"d.tld".toList, "/api/users/y".toList, false⟩
    { routes := [.declaring "param" "d.tld/api/:x/y"]
      path := "/api/users/y".toList
      pathParams := NgTreeNodePath.bindAll ["x".toList] "users".toList ∅
      noMoreSegments := true } (by decide +kernel)
  have hnone : (serve starPlatform (build starPlatform [.declaring "admin" "d.tld/api/users/admin",
      .declaring "param" "d.tld/api/:x/y"]) ⟨"d.tld".toList, "/api/users/y".toList, false⟩
      (after starPlatform (build starPlatform [.declaring "admin" "d.tld/api/users/admin",
        .declaring "param" "d.tld/api/:x/y"]) (fresh [] fun _ => none) [])).1 = .ok none := by
    decide +kernel
  rw [hnone] at hfound
  cases hfound

end NgTreeRouter

end Otoroshi
