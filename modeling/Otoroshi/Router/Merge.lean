/-
# Merging the sub trees of parameter siblings

When several parameter keys of a node take a segment, the search goes on in one
node made of all their sub trees: their routes one after the other, and the union
of their children. The union is right biased and one level deep. Under a segment
that several siblings declare, the sub tree of the last one replaces the others,
with all they hold.

`reaches_union_iff` says when nothing is lost: exactly when, under each next
segment, what any sibling declares is also declared by the last sibling that has
this segment.
-/

import Otoroshi.Router.Soundness

namespace Otoroshi

namespace NgTreeNodePath

variable {P : Platform}

variable (P) in
/-- The sub trees that are merged, in the order of the merge: those of the named
keys, then those of the regex keys that accept the segment. -/
def mergedSiblings (node : NgTreeNodePath) (named matching : List Str) : List NgTreeNodePath :=
  P.nodeOrder (named.filterMap node.child?).dedup ++
    P.nodeOrder (matching.filterMap node.child?).dedup

theorem mem_mergedSiblings {node sub : NgTreeNodePath} {named matching : List Str} :
    sub ∈ mergedSiblings P node named matching ↔
      ∃ key ∈ named ++ matching, node.child? key = some sub := by
  have hside : ∀ keys : List Str, sub ∈ P.nodeOrder (keys.filterMap node.child?).dedup ↔
      ∃ key ∈ keys, node.child? key = some sub := fun keys => by
    rw [(P.nodeOrder_perm _).mem_iff, List.mem_dedup, List.mem_filterMap]
  simp only [mergedSiblings, List.mem_append, hside, or_and_right, exists_or]

/-- The routes of the merged node at every remaining path are those that some
sibling alone has there. -/
def ReachesUnion (merged : NgTreeNodePath) (siblings : List NgTreeNodePath) : Prop :=
  ∀ remaining route, route ∈ merged.valuesAt remaining ↔
    ∃ sub ∈ siblings, route ∈ sub.valuesAt remaining

/-- The sub tree that the last sibling with this segment has under it. -/
def lastUnder (segment : Str) (siblings : List NgTreeNodePath) : Option NgTreeNodePath :=
  siblings.reverse.findSome? fun sub => sub.child? segment

/-- Whatever a sibling declares under a segment, the last sibling with this
segment declares as well, at the same place. -/
def LastDeclaresAll (siblings : List NgTreeNodePath) : Prop :=
  ∀ sub ∈ siblings, ∀ segment below, sub.child? segment = some below →
    ∀ remaining, ∀ route ∈ below.valuesAt remaining,
      ∃ last, lastUnder segment siblings = some last ∧ route ∈ last.valuesAt remaining

/-! ## The fold -/

theorem lastUnder_append (segment : Str) (siblings others : List NgTreeNodePath) :
    lastUnder segment (siblings ++ others) =
      (lastUnder segment others).or (lastUnder segment siblings) := by
  rw [lastUnder, List.reverse_append, List.findSome?_append]
  rfl

theorem exists_of_lastUnder {segment : Str} {siblings : List NgTreeNodePath}
    {last : NgTreeNodePath} (h : lastUnder segment siblings = some last) :
    ∃ sub ∈ siblings, sub.child? segment = some last := by
  obtain ⟨sub, hsub, hchild⟩ := List.exists_of_findSome?_eq_some h
  exact ⟨sub, List.mem_reverse.mp hsub, hchild⟩

theorem child?_foldl_merge (segment : Str) (siblings : List NgTreeNodePath)
    (merged : NgTreeNodePath) :
    (siblings.foldl merge merged).child? segment =
      (lastUnder segment siblings).or (merged.child? segment) := by
  induction siblings using List.reverseRec with
  | nil => rfl
  | append_singleton siblings sub ih =>
      have hlast : lastUnder segment [sub] = sub.child? segment := by
        rw [lastUnder, List.reverse_singleton, List.findSome?_cons]
        cases sub.child? segment <;> rfl
      rw [List.foldl_append, List.foldl_cons, List.foldl_nil, child?_merge, ih,
        lastUnder_append, hlast, Option.or_assoc]

theorem values_foldl_merge (siblings : List NgTreeNodePath) (merged : NgTreeNodePath) :
    (siblings.foldl merge merged).values = merged.values ++ siblings.flatMap Trie.values := by
  induction siblings generalizing merged with
  | nil => simp
  | cons sub siblings ih =>
      rw [List.foldl_cons, ih, List.flatMap_cons, ← List.append_assoc]
      rfl

/-- Both halves of the parameter branch are one fold over the siblings. -/
theorem child?_mergedParams (node : NgTreeNodePath) (named matching : List Str) (segment : Str) :
    (mergedParams P node named matching).child? segment =
      lastUnder segment (mergedSiblings P node named matching) := by
  rw [mergedParams, child?_merge, mergeAll, mergeAll, child?_foldl_merge, child?_foldl_merge,
    mergedSiblings, lastUnder_append, Trie.child?_empty, Option.or_none, Option.or_none]

theorem values_mergedParams (node : NgTreeNodePath) (named matching : List Str) :
    (mergedParams P node named matching).values =
      (mergedSiblings P node named matching).flatMap Trie.values := by
  rw [mergedSiblings, List.flatMap_append]
  show (mergeAll P _).values ++ (mergeAll P _).values = _
  rw [mergeAll, mergeAll, values_foldl_merge, values_foldl_merge]
  rfl

/-! ## What is reached -/

/-- Nothing is lost in the merge exactly when the last sibling under each segment
declares all that the others declare there. -/
theorem reachesUnion_mergedParams_iff (node : NgTreeNodePath) (named matching : List Str) :
    ReachesUnion (mergedParams P node named matching) (mergedSiblings P node named matching) ↔
      LastDeclaresAll (mergedSiblings P node named matching) := by
  refine ⟨fun hunion => ?_, fun hlast => ?_⟩
  · intro sub hsub segment below hbelow remaining route hroute
    have hmerged : route ∈ (mergedParams P node named matching).valuesAt (segment :: remaining) :=
      (hunion _ route).mpr ⟨sub, hsub, (mem_valuesAt_child hbelow).mp hroute⟩
    rw [Trie.valuesAt_cons, child?_mergedParams] at hmerged
    cases hunder : lastUnder segment (mergedSiblings P node named matching) with
    | none => simp [hunder] at hmerged
    | some last => exact ⟨last, rfl, by simpa [hunder] using hmerged⟩
  · intro remaining route
    cases remaining with
    | nil => rw [Trie.valuesAt_nil, values_mergedParams, List.mem_flatMap]; rfl
    | cons segment remaining =>
        rw [Trie.valuesAt_cons, child?_mergedParams]
        constructor
        · intro hmerged
          cases hunder : lastUnder segment (mergedSiblings P node named matching) with
          | none => simp [hunder] at hmerged
          | some last =>
              obtain ⟨sub, hsub, hchild⟩ := exists_of_lastUnder hunder
              exact ⟨sub, hsub, (mem_valuesAt_child hchild).mp (by simpa [hunder] using hmerged)⟩
        · rintro ⟨sub, hsub, hroute⟩
          cases hchild : sub.child? segment with
          | none => simp [Trie.valuesAt_cons, hchild] at hroute
          | some below =>
              obtain ⟨last, hunder, hmem⟩ := hlast sub hsub segment below hchild remaining route
                ((mem_valuesAt_child hchild).mpr hroute)
              simpa [hunder] using hmem

/-- The parameter branch of the program merges the siblings of the keys that take
the segment, in whatever state it runs. -/
theorem paramEntry_merges {node merged : NgTreeNodePath} {head : Str}
    {pathParams bound : PathParams} {matching : List Str} {state : RouterState P}
    (hmatching : (matchingRegexKeys P (RouterState.ops P) node head state).1 = .ok matching)
    (h : (paramEntry P (RouterState.ops P) node head pathParams state).1 =
      .ok (bound, some merged)) :
    merged = mergedParams P node (namedKeys P node) matching := by
  rcases hrun : matchingRegexKeys P (RouterState.ops P) node head state with ⟨answer, after⟩
  rw [hrun] at hmatching
  subst hmatching
  simp only [paramEntry, bind, hrun] at h
  by_cases hnone : ((namedKeys P node).isEmpty && matching.isEmpty) = true
  · rw [if_pos hnone] at h
    cases h
  · rw [if_neg hnone] at h
    cases h
    rfl

/-- The routes the merged node reaches are the union of those its siblings reach
if and only if the last sibling under each segment declares what the others
declare there. -/
theorem reaches_union_iff (P : Platform) (node merged : NgTreeNodePath) (head : Str)
    (pathParams bound : PathParams) (matching : List Str) (state : RouterState P)
    (hmatching : (matchingRegexKeys P (RouterState.ops P) node head state).1 = .ok matching)
    (h : (paramEntry P (RouterState.ops P) node head pathParams state).1 =
      .ok (bound, some merged)) :
    ReachesUnion merged (mergedSiblings P node (namedKeys P node) matching) ↔
      LastDeclaresAll (mergedSiblings P node (namedKeys P node) matching) := by
  rw [paramEntry_merges hmatching h]
  exact reachesUnion_mergedParams_iff node (namedKeys P node) matching

/-- The node of a table with two parameter siblings. -/
def siblingsNode (first second : String) : NgTreeNodePath :=
  Trie.ofList (NgTreeRouter.declarations starPlatform
    [.declaring "first" first, .declaring "second" second] "d.tld".toList)

theorem reaches_union_iff_of_example :
    ReachesUnion
        (mergedParams starPlatform (siblingsNode "d.tld/:a/x" "d.tld/:b/y")
          [":a".toList, ":b".toList] [])
        (mergedSiblings starPlatform (siblingsNode "d.tld/:a/x" "d.tld/:b/y")
          (namedKeys starPlatform (siblingsNode "d.tld/:a/x" "d.tld/:b/y")) []) ↔
      LastDeclaresAll (mergedSiblings starPlatform (siblingsNode "d.tld/:a/x" "d.tld/:b/y")
        (namedKeys starPlatform (siblingsNode "d.tld/:a/x" "d.tld/:b/y")) []) :=
  reaches_union_iff starPlatform _ _ "1".toList ∅
    (bindAll ["a".toList, "b".toList] "1".toList ∅) [] (RouterState.fresh [] fun _ => none)
    (by decide +kernel) (by decide +kernel)

/-- With `:b/x/y` declared beside it, the route of `:a/x` is not reached: of the
two sub trees under `x` the merge keeps one. -/
theorem exists_lost_in_merge :
    ¬ ∀ (P : Platform) (node merged : NgTreeNodePath) (head : Str)
        (pathParams bound : PathParams) (matching : List Str) (state : RouterState P),
      (matchingRegexKeys P (RouterState.ops P) node head state).1 = .ok matching →
      (paramEntry P (RouterState.ops P) node head pathParams state).1 =
        .ok (bound, some merged) →
      ReachesUnion merged (mergedSiblings P node (namedKeys P node) matching) := by
  intro h
  have hunion := h starPlatform (siblingsNode "d.tld/:a/x" "d.tld/:b/x/y")
    (mergedParams starPlatform (siblingsNode "d.tld/:a/x" "d.tld/:b/x/y")
      [":a".toList, ":b".toList] []) "1".toList ∅
    (bindAll ["a".toList, "b".toList] "1".toList ∅) [] (RouterState.fresh [] fun _ => none)
    (by decide +kernel) (by decide +kernel)
  have hlost := (hunion ["x".toList] (.declaring "first" "d.tld/:a/x")).mpr
  exact absurd hlost (by decide +kernel)

end NgTreeNodePath

end Otoroshi
