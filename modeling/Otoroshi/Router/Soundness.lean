/-
# Every match belongs to its route

A returned route must have a declared path that the matched path of the request
follows segment by segment. `pathTakes` is that relation, computed: each declared
segment takes the requested one by its own rule, and only the last one may do so
as a string prefix.

The proof carries the declarations along the walk. A node is below a walk of
requested segments when whatever it holds is declared behind segments that take
them (`Declares`); merged parameter nodes, wildcard nodes and cut nodes all keep
that relation, so it holds where the search stops.
-/

import Mathlib.Data.List.Infix
import Otoroshi.Router.Literal

namespace Otoroshi

/-- The pattern answered, and accepted. -/
def accepts (answer : Except JvmException Bool) : Bool :=
  match answer with
  | .ok accepted => accepted
  | .error _ => false

/-- A parameter key takes the segment. -/
def paramTakes (M : Matchers) (key segment : Str) : Bool :=
  isNamedKey key ||
    (isRegexKey key && match regexOfKey key with
      | .ok regex => accepts (M.regex regex segment)
      | .error _ => false)

/-- A wildcard key takes the segment. -/
def wildcardTakes (M : Matchers) (key segment : Str) : Bool :=
  key == "*".toList || (isWildcardKey key && accepts (M.wildcard key segment))

/-- A declared segment takes a requested one. -/
def keyTakes (M : Matchers) (key segment : Str) : Bool :=
  key == segment || paramTakes M key segment || wildcardTakes M key segment

/-- A literal that is a proper string prefix of the segment. -/
def keyStarts (key segment : Str) : Bool :=
  isLiteralKey key && startsWith segment key && key != segment

/-- Declared segments take requested ones, position by position; the last one may
be a string prefix. -/
def pathTakes (M : Matchers) : List Str → List Str → Bool
  | [], [] => true
  | key :: keys, segment :: segments =>
      (keyTakes M key segment && pathTakes M keys segments) ||
        (keys.isEmpty && segments.isEmpty && keyStarts key segment)
  | _, _ => false

/-- The match stands for a part of the request from its start, every returned
route is declared at a path that takes that part, and the flag is only set when
the part is all of the request. -/
def SoundMatch (M : Matchers) (declared : List (List Str × NgRoute)) (segments : List Str)
    (matched : NgMatchedRoutes) : Prop :=
  ∃ walked ∈ segments.inits, matched.path = pathOf walked ∧
    (matched.noMoreSegments = true → walked = segments) ∧
    ∀ route ∈ matched.routes, ∃ entry ∈ declared, entry.2 = route ∧
      pathTakes M entry.1 walked = true

instance (M : Matchers) (declared : List (List Str × NgRoute)) (segments : List Str)
    (matched : NgMatchedRoutes) : Decidable (SoundMatch M declared segments matched) :=
  inferInstanceAs (Decidable (∃ walked ∈ segments.inits, _ ∧ _ ∧
    ∀ route ∈ matched.routes, ∃ entry ∈ declared, _ ∧ _))

namespace NgTreeNodePath

variable {P : Platform} {M : Matchers}

/-- Whatever the node holds at some path is declared there. -/
def Declares (declared : List Str → NgRoute → Prop) (node : NgTreeNodePath) : Prop :=
  ∀ keys, ∀ route ∈ node.valuesAt keys, declared keys route

theorem mem_valuesAt_child {node sub : NgTreeNodePath} {key : Str}
    (hchild : node.child? key = some sub) {keys : List Str} {route : NgRoute} :
    route ∈ sub.valuesAt keys ↔ route ∈ node.valuesAt (key :: keys) := by
  rw [Trie.valuesAt_of_child? hchild]

/-- A merged node holds nothing that neither of its parts holds. -/
theorem mem_valuesAt_merge {a b : NgTreeNodePath} {keys : List Str} {route : NgRoute}
    (h : route ∈ (merge a b).valuesAt keys) :
    route ∈ a.valuesAt keys ∨ route ∈ b.valuesAt keys := by
  cases keys with
  | nil => exact List.mem_append.mp h
  | cons key keys =>
      rw [Trie.valuesAt_cons, child?_merge] at h
      rw [Trie.valuesAt_cons, Trie.valuesAt_cons]
      cases hb : b.child? key with
      | some sub =>
          rw [hb] at h
          exact Or.inr h
      | none =>
          rw [hb] at h
          exact Or.inl h

theorem mem_valuesAt_mergeAll {nodes : List NgTreeNodePath} {keys : List Str} {route : NgRoute}
    (h : route ∈ (mergeAll P nodes).valuesAt keys) :
    ∃ node ∈ nodes, route ∈ node.valuesAt keys := by
  have hfold : ∀ (ordered : List NgTreeNodePath) (merged : NgTreeNodePath),
      route ∈ (ordered.foldl merge merged).valuesAt keys →
      route ∈ merged.valuesAt keys ∨ ∃ node ∈ ordered, route ∈ node.valuesAt keys := by
    intro ordered
    induction ordered with
    | nil => exact fun merged hmem => Or.inl hmem
    | cons first ordered ih =>
        intro merged hmem
        rcases ih (merge merged first) hmem with hmerged | ⟨node, hnode, hroute⟩
        · rcases mem_valuesAt_merge hmerged with hmerged | hfirst
          · exact Or.inl hmerged
          · exact Or.inr ⟨first, List.mem_cons_self, hfirst⟩
        · exact Or.inr ⟨node, List.mem_cons_of_mem _ hnode, hroute⟩
  rcases hfold _ _ h with hempty | ⟨node, hnode, hroute⟩
  · cases keys <;> simp [Trie.valuesAt_cons, Trie.empty, Trie.child?] at hempty
  · exact ⟨node, List.mem_dedup.mp ((P.nodeOrder_perm _).mem_iff.mp hnode), hroute⟩

/-- What is merged from the sub trees of some keys is held behind one of them. -/
theorem mem_valuesAt_mergeAll_child? {node : NgTreeNodePath} {candidates keys : List Str}
    {route : NgRoute}
    (h : route ∈ (mergeAll P (candidates.filterMap node.child?)).valuesAt keys) :
    ∃ key ∈ candidates, route ∈ node.valuesAt (key :: keys) := by
  obtain ⟨sub, hsub, hroute⟩ := mem_valuesAt_mergeAll h
  obtain ⟨key, hkey, hchild⟩ := List.mem_filterMap.mp hsub
  exact ⟨key, hkey, (mem_valuesAt_child hchild).mp hroute⟩

/-- The regex keys that come out are keys of the node whose regex accepts. -/
theorem accepts_of_filterRegexKeys {segment : Str} {pairs : List (Str × Str)} {keys : List Str}
    (h : filterRegexKeys M.ops segment pairs = .ok keys) {key : Str} (hkey : key ∈ keys) :
    ∃ regex, (key, regex) ∈ pairs ∧ M.regex regex segment = .ok true := by
  induction pairs generalizing keys with
  | nil =>
      cases h
      simp at hkey
  | cons pair pairs ih =>
      obtain ⟨first, regex⟩ := pair
      obtain ⟨accepted, haccepted, h⟩ := bind_eq_ok_iff.mp h
      obtain ⟨rest, hrest, h⟩ := bind_eq_ok_iff.mp h
      have hlater : key ∈ rest → ∃ regex', (key, regex') ∈ (first, regex) :: pairs ∧
          M.regex regex' segment = .ok true := by
        intro hmem
        obtain ⟨regex', hpair, hregex⟩ := ih hrest hmem
        exact ⟨regex', List.mem_cons_of_mem _ hpair, hregex⟩
      cases accepted with
      | true =>
          cases h
          rcases List.mem_cons.mp hkey with rfl | hmem
          · exact ⟨regex, List.mem_cons_self, haccepted⟩
          · exact hlater hmem
      | false =>
          cases h
          exact hlater hkey

theorem paramTakes_of_matchingRegexKeys {node : NgTreeNodePath} {segment : Str}
    {matching : List Str} (h : matchingRegexKeys P M.ops node segment = .ok matching)
    {key : Str} (hkey : key ∈ matching) :
    key ∈ regexKeys P node ∧ paramTakes M key segment = true := by
  obtain ⟨pairs, hpairs, h⟩ := bind_eq_ok_iff.mp h
  obtain ⟨keys, hkeys, h⟩ := bind_eq_ok_iff.mp h
  cases h
  obtain ⟨regex, hpair, haccepts⟩ :=
    accepts_of_filterRegexKeys hkeys ((P.keyOrder_perm _).mem_iff.mp hkey)
  obtain ⟨hmem, hregex⟩ := mem_readRegexKeys hpairs hpair
  have hkind := (mem_regexKeys.mp hmem).2
  simp only at hregex
  exact ⟨hmem, by simp [paramTakes, hkind, hregex, haccepts, accepts]⟩

/-- Going down a segment: the sub tree holds what is declared behind the keys
that take the segment. -/
theorem declares_of_entryAt {declared : List Str → NgRoute → Prop} {node sub : NgTreeNodePath}
    (hnode : node.Declares declared) {head : Str} {names : List Str}
    (h : entryAt P M node head = .ok (names, some sub)) :
    sub.Declares fun keys route =>
      ∃ key, keyTakes M key head = true ∧ declared (key :: keys) route := by
  have hbelow : ∀ {key : Str} {found : NgTreeNodePath}, node.child? key = some found →
      keyTakes M key head = true → found.Declares fun keys route =>
        ∃ key, keyTakes M key head = true ∧ declared (key :: keys) route := by
    intro key found hchild htakes keys route hroute
    exact ⟨key, htakes, hnode _ route ((mem_valuesAt_child hchild).mp hroute)⟩
  rw [entryAt] at h
  cases hexact : node.child? head with
  | some exact =>
      rw [hexact] at h
      cases h
      exact hbelow hexact (by simp [keyTakes])
  | none =>
      rw [hexact] at h
      obtain ⟨matching, hmatching, h⟩ := bind_eq_ok_iff.mp h
      split at h
      · obtain ⟨key, hkey, h⟩ := bind_eq_ok_iff.mp h
        rw [Except.ok.injEq, Prod.mk.injEq, Option.or_eq_some_iff] at h
        rcases h.2 with hfound | ⟨-, hstar⟩
        · obtain ⟨key, rfl, hchild⟩ := Option.bind_eq_some_iff.mp hfound
          obtain ⟨hmem, haccepts⟩ := accepts_of_findWildcardKey hkey
          have hkind := (mem_wildcardKeys.mp hmem).2
          exact hbelow hchild (by simp [keyTakes, wildcardTakes, hkind, haccepts, accepts])
        · exact hbelow hstar (by simp [keyTakes, wildcardTakes])
      · cases h
        intro keys route hroute
        rcases mem_valuesAt_merge hroute with hroute | hroute
        · obtain ⟨key, hkey, hmem⟩ := mem_valuesAt_mergeAll_child? hroute
          have hnamed := (mem_namedKeys.mp hkey).2
          exact ⟨key, by simp [keyTakes, paramTakes, hnamed], hnode _ route hmem⟩
        · obtain ⟨key, hkey, hmem⟩ := mem_valuesAt_mergeAll_child? hroute
          have htakes := (paramTakes_of_matchingRegexKeys hmatching hkey).2
          exact ⟨key, by simp [keyTakes, htakes], hnode _ route hmem⟩

/-- The key behind a string prefix is a literal: parameters and wildcards take
whole segments, and a regex key starts with a dollar. -/
theorem keyStarts_of_prefixKey {node : NgTreeNodePath} {head key : Str} {names : List Str}
    (hdollar : startsWith head "$".toList = false)
    (hentry : entryAt P M node head = .ok (names, none))
    (hkey : prefixKey P node head = some key) : keyStarts key head = true := by
  obtain ⟨hmem, hplain, hstarts⟩ := prefixKey_spec hkey
  obtain ⟨hexact, -, hnamed, -, -⟩ := rejects_of_entryAt hentry
  have hproper : key ≠ head := by
    rintro rfl
    obtain ⟨sub, hsub⟩ := exists_child?_of_mem hmem
    rw [hexact] at hsub
    cases hsub
  have hnotNamed : isNamedKey key = false := by
    by_contra h
    have hin : key ∈ namedKeys P node := mem_namedKeys.mpr ⟨hmem, by simpa using h⟩
    simp [hnamed] at hin
  have hnotRegex : isRegexKey key = false := by
    by_contra h
    have hstart : startsWith key "$".toList = true := by
      rw [isRegexKey, Bool.not_eq_false, Bool.and_eq_true] at h
      exact h.1
    have hwhole : startsWith head "$".toList = true := by
      rw [startsWith, List.isPrefixOf_iff_prefix] at hstart hstarts ⊢
      exact hstart.trans hstarts
    rw [hdollar] at hwhole
    cases hwhole
  simp [keyStarts, isLiteralKey, hplain, hnotNamed, hnotRegex, hstarts, hproper]

/-- The search only returns what is declared along the request. -/
theorem find_sound {declared : List Str → NgRoute → Prop} {segments : List Str}
    (hdollar : ∀ segment ∈ segments, startsWith segment "$".toList = false)
    {node : NgTreeNodePath} (hnode : node.Declares declared) {endsWithSlash : Bool} {path : Str}
    {pathParams bound : PathParams} {exactSegments : Bool} {matched : NgMatchedRoutes}
    (h : find P M.ops segments node endsWithSlash path pathParams exactSegments =
      .ok (bound, some matched)) :
    ∃ walked, walked <+: segments ∧ matched.path = path ++ pathOf walked ∧
      (matched.noMoreSegments = true → walked = segments) ∧
      ∀ route ∈ matched.routes, ∃ keys, declared keys route ∧ pathTakes M keys walked = true := by
  -- the routes of the node itself stand for the empty part of the request
  have hown : ∀ {node : NgTreeNodePath} {declared : List Str → NgRoute → Prop}
      {segments : List Str} {path : Str} {pathParams : PathParams} {noMore : Bool}
      {matched : NgMatchedRoutes}, node.Declares declared →
      own node path pathParams noMore = some matched → (noMore = true → segments = []) →
      ∃ walked, walked <+: segments ∧ matched.path = path ++ pathOf walked ∧
        (matched.noMoreSegments = true → walked = segments) ∧
        ∀ route ∈ matched.routes, ∃ keys, declared keys route ∧
          pathTakes M keys walked = true := by
    intro node declared segments path pathParams noMore matched hnode hmatched hnoMore
    rw [own] at hmatched
    split at hmatched
    · cases hmatched
    · cases hmatched
      exact ⟨[], List.nil_prefix, by simp [pathOf], fun h => (hnoMore h).symm,
        fun route hroute => ⟨[], hnode [] route hroute, rfl⟩⟩
  induction segments generalizing node declared path pathParams bound matched with
  | nil =>
      rw [find, pure_eq_ok, Except.ok.injEq, Prod.mk.injEq] at h
      exact hown hnode h.2 fun _ => rfl
  | cons head tail ih =>
      rw [List.forall_mem_cons] at hdollar
      rw [find_cons] at h
      obtain ⟨⟨names, target⟩, hdescend, h⟩ := bind_eq_ok_iff.mp h
      have hhere : ∀ {found : PathParams} {matched : NgMatchedRoutes},
          own node path found false = some matched →
          ∃ walked, walked <+: head :: tail ∧ matched.path = path ++ pathOf walked ∧
            (matched.noMoreSegments = true → walked = head :: tail) ∧
            ∀ route ∈ matched.routes, ∃ keys, declared keys route ∧
              pathTakes M keys walked = true :=
        fun hmatched => hown hnode hmatched (by simp)
      rcases descend_cases hdescend with ⟨sub, hentry, rfl⟩ | ⟨hentry, ⟨rfl, -⟩ | hstarts⟩
      · -- a sub tree takes the segment whole
        obtain ⟨⟨found, answer⟩, hfind, h⟩ := bind_eq_ok_iff.mp h
        rw [Except.ok.injEq, Prod.mk.injEq] at h
        rcases Option.or_eq_some_iff.mp h.2 with hbelow | ⟨-, hmatched⟩
        · obtain ⟨below, rfl, rfl⟩ := Option.map_eq_some_iff.mp hbelow
          obtain ⟨walked, hwalked, hpath, hnoMore, hroutes⟩ :=
            ih hdollar.2 (declares_of_entryAt hnode hentry) hfind
          refine ⟨head :: walked, List.cons_prefix_cons.mpr ⟨rfl, hwalked⟩, ?_, ?_, ?_⟩
          · simp [settle, hpath, pathOf]
          · intro hflag
            rw [hnoMore hflag]
          · intro route hroute
            obtain ⟨keys, ⟨key, htakes, hdeclared⟩, hkeys⟩ := hroutes route hroute
            exact ⟨key :: keys, hdeclared, by simp [pathTakes, htakes, hkeys]⟩
        · exact hhere hmatched
      · -- the walk stops here
        rw [Except.ok.injEq, Prod.mk.injEq] at h
        exact hhere h.2
      · -- a string prefix: the cut sub tree is a leaf
        obtain ⟨key, sub, -, hkey, hchild, rfl⟩ := hstarts
        obtain ⟨⟨found, answer⟩, hfind, h⟩ := bind_eq_ok_iff.mp h
        rw [Except.ok.injEq, Prod.mk.injEq] at h
        rcases Option.or_eq_some_iff.mp h.2 with hbelow | ⟨-, hmatched⟩
        · have hleaf : isLeaf (cutForPrefix exactSegments head sub) = true := by
            cases exactSegments <;> rfl
          rw [find_of_isLeaf hleaf, Except.ok.injEq, Prod.mk.injEq] at hfind
          obtain ⟨-, hanswer⟩ := hfind
          rw [← hanswer] at hbelow
          obtain ⟨below, hcut, rfl⟩ := Option.map_eq_some_iff.mp hbelow
          rw [own] at hcut
          split at hcut
          · cases hcut
          · cases hcut
            refine ⟨[head], List.cons_prefix_cons.mpr ⟨rfl, List.nil_prefix⟩, ?_, ?_, ?_⟩
            · simp [settle, pathOf]
            · intro hflag
              simp [settle] at hflag
            · intro route hroute
              have hsub : route ∈ sub.valuesAt [] := by
                cases exactSegments with
                | false => exact hroute
                | true => exact (List.mem_filter.mp hroute).1
              have hstarts := keyStarts_of_prefixKey hdollar.1 hentry hkey
              exact ⟨[key], hnode _ route ((mem_valuesAt_child hchild).mp hsub),
                by simp [pathTakes, hstarts]⟩
        · exact hhere hmatched

end NgTreeNodePath

namespace NgTreeRouter

open RouterState NgTreeNodePath

variable {P : Platform}

theorem declares_ofList (declared : List (List Str × NgRoute)) :
    NgTreeNodePath.Declares (fun keys route => (keys, route) ∈ declared)
      (Trie.ofList declared) := by
  intro keys route hroute
  rw [Trie.valuesAt_ofList] at hroute
  exact Trie.mem_listedAt.mp hroute

/-- After any history, every route of a match has a declared path that the
matched path follows by the rules of its own segments. -/
theorem soundMatch_of_find (P : Platform) (routes : List NgRoute) (start : RegexPool P.engine)
    (howns : (texts P routes).OwnRules start)
    (hclear : (texts P routes).Unambiguous ([] : RegexPool P.engine))
    (choices : Nat → Option Nat) (history : List FindCall) (domain : Str)
    (ptree : NgTreeNodePath)
    (hptree : KeyedList.get? domain (build P routes).tree = some ptree) (segments : List Str)
    (hsegments : ∀ segment ∈ segments, startsWith segment ":".toList = false ∧
      startsWith segment "*".toList = false ∧ startsWith segment "$".toList = false)
    (endsWithSlash exactSegments : Bool) (pathParams : PathParams) (matched : NgMatchedRoutes)
    (h : (NgTreeNodePath.find P (RouterState.ops P) segments ptree endsWithSlash [] ∅
      exactSegments (after P (build P routes) (fresh start choices) history)).1 =
        .ok (pathParams, some matched)) :
    SoundMatch (Matchers.ofPool ([] : RegexPool P.engine)) (declarations P routes domain)
      segments matched := by
  rw [find_after hclear (ready_of_ownRules howns choices) history hptree] at h
  have hdeclares : ptree.Declares fun keys route =>
      (keys, route) ∈ declarations P routes domain := by
    rw [get?_build] at hptree
    split at hptree
    · cases hptree
    · cases hptree
      exact declares_ofList _
  obtain ⟨walked, hwalked, hpath, hnoMore, hroutes⟩ :=
    NgTreeNodePath.find_sound (fun segment hmem => (hsegments segment hmem).2.2) hdeclares h
  refine ⟨walked, (List.mem_inits _ _).mpr hwalked, by simpa using hpath, hnoMore, ?_⟩
  intro route hroute
  obtain ⟨keys, hdeclared, htakes⟩ := hroutes route hroute
  exact ⟨(keys, route), hdeclared, rfl, htakes⟩

theorem soundMatch_of_find_of_example :
    SoundMatch (Matchers.ofPool ([] : RegexPool starPlatform.engine))
      (declarations starPlatform [.declaring "r" "d.tld/y/:id/$f<ab*>"] "d.tld".toList)
      ["y".toList, "7".toList, "abb".toList, "z".toList]
      { routes := [.declaring "r" "d.tld/y/:id/$f<ab*>"]
        path := "/y/7/abb".toList
        pathParams := bindAll ["f".toList] "abb".toList (bindAll ["id".toList] "7".toList ∅)
        noMoreSegments := false } :=
  soundMatch_of_find starPlatform [.declaring "r" "d.tld/y/:id/$f<ab*>"] []
    (PatternTexts.ownRules_nil _) (unambiguous_of_disjoint _ _ (by decide +kernel))
    (fun _ => none) [] "d.tld".toList
    (Trie.ofList (declarations starPlatform [.declaring "r" "d.tld/y/:id/$f<ab*>"]
      "d.tld".toList))
    (by rw [get?_build, if_neg (by decide +kernel)]) _ (by decide +kernel) false false
    (bindAll ["f".toList] "abb".toList (bindAll ["id".toList] "7".toList ∅)) _
    (by decide +kernel)

/-- A regex parameter whose text was compiled before as a wildcard takes segments
its regex rejects. -/
theorem exists_unsound_find :
    ¬ ∀ (P : Platform) (routes : List NgRoute) (start : RegexPool P.engine)
        (choices : Nat → Option Nat) (history : List FindCall) (domain : Str)
        (ptree : NgTreeNodePath),
      KeyedList.get? domain (build P routes).tree = some ptree →
      ∀ segments : List Str, (∀ segment ∈ segments, startsWith segment ":".toList = false ∧
        startsWith segment "*".toList = false ∧ startsWith segment "$".toList = false) →
      ∀ (endsWithSlash exactSegments : Bool) (pathParams : PathParams)
        (matched : NgMatchedRoutes),
      (NgTreeNodePath.find P (RouterState.ops P) segments ptree endsWithSlash [] ∅
        exactSegments (after P (build P routes) (fresh start choices) history)).1 =
          .ok (pathParams, some matched) →
      SoundMatch (Matchers.ofPool ([] : RegexPool P.engine)) (declarations P routes domain)
        segments matched := by
  intro h
  have hbad := h starPlatform
    [.declaring "byWildcard" "d.tld/x/a*", .declaring "byRegex" "d.tld/y/$f<a*>"] []
    (fun _ => none) [⟨"d.tld".toList, "/x/abc".toList, false⟩] "d.tld".toList
    (Trie.ofList (declarations starPlatform [.declaring "byWildcard" "d.tld/x/a*",
      .declaring "byRegex" "d.tld/y/$f<a*>"] "d.tld".toList))
    (by rw [get?_build, if_neg (by decide +kernel)])
    ["y".toList, "abd".toList] (by decide +kernel) false false
    (bindAll ["f".toList] "abd".toList ∅)
    { routes := [.declaring "byRegex" "d.tld/y/$f<a*>"]
      path := "/y/abd".toList
      pathParams := bindAll ["f".toList] "abd".toList ∅
      noMoreSegments := true } (by decide +kernel)
  exact absurd hbad (by decide +kernel)

end NgTreeRouter

end Otoroshi
