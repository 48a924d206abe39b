/-
# The search, step by step

Without state the search is a greedy walk. At each segment a node either has a
sub tree that takes it, and the walk goes on there, or it has none, and the walk
ends; the answer is the deepest node on the walk that holds routes. There is no
other choice and no second attempt.

`descend` is one step of the walk: the names bound by the segment and the sub
tree the walk continues in, with a flag for a string prefix. `find_cons` says
that the search is that step followed by the search below, and every fact about
the search is an induction over the segments from there.
-/

import Otoroshi.Router.Model

namespace Otoroshi

/-! ## The stateless search -/

/-- How the two kinds of patterns answer. -/
structure Matchers where
  wildcard : Str → Str → Except JvmException Bool
  regex : Str → Str → Except JvmException Bool

namespace Matchers

/-- The operations of a search without state: patterns answer by themselves and
a lookup always computes. -/
def ops (M : Matchers) : SearchOps (Except JvmException) where
  wildcardMatches := M.wildcard
  regexMatches := M.regex
  raise e := .error e
  wildcardCache _ _ compute := compute
  segmentStartsWithCache _ _ compute := compute

/-- The answers a pool gives to each entry point. -/
def ofPool {E : RegexEngine} (pool : RegexPool E) : Matchers where
  wildcard text value := ((RegexPool.apply text pool).1).map (·.matchesValue value)
  regex text value := ((RegexPool.regex text pool).1).map (·.matchesValue value)

end Matchers

/-! ## The texts of a router -/

/-- The texts a router hands to each entry point of the pool. -/
structure PatternTexts where
  wildcard : Str → Prop
  regex : Str → Prop

namespace PatternTexts

/-- A text given to both entry points is answered alike by both: the pool
already holds a pattern for it, or both rules compile patterns that accept the
same values. -/
def Unambiguous {E : RegexEngine} (texts : PatternTexts) (pool : RegexPool E) : Prop :=
  ∀ text, texts.wildcard text → texts.regex text → ∀ value accepted,
    (Matchers.ofPool pool).wildcard text value = .ok accepted ↔
      (Matchers.ofPool pool).regex text value = .ok accepted

/-- What the pool already holds for a text accepts what the text's own rule
accepts; an empty pool is the measure. -/
structure OwnRules {E : RegexEngine} (texts : PatternTexts) (pool : RegexPool E) : Prop where
  wildcard : ∀ text, texts.wildcard text → ∀ value, (Matchers.ofPool pool).wildcard text value =
    (Matchers.ofPool ([] : RegexPool E)).wildcard text value
  regex : ∀ text, texts.regex text → ∀ value, (Matchers.ofPool pool).regex text value =
    (Matchers.ofPool ([] : RegexPool E)).regex text value

theorem ownRules_nil {E : RegexEngine} (texts : PatternTexts) :
    texts.OwnRules ([] : RegexPool E) :=
  ⟨fun _ _ _ => rfl, fun _ _ _ => rfl⟩

/-- The key is declared: what it hands to the pool is among the texts. -/
structure Covers (texts : PatternTexts) (key : Str) : Prop where
  wildcard : isWildcardKey key = true → texts.wildcard key
  regex : isRegexKey key = true → ∀ text, regexOfKey key = .ok text → texts.regex text

/-- Every key of the tree is declared. -/
abbrev CoversTree (texts : PatternTexts) (node : NgTreeNodePath) : Prop :=
  node.KeysIn texts.Covers

end PatternTexts

/-! ## Keys along the search -/

namespace NgTreeNodePath

variable {P : Platform}

theorem mem_keySet {node : NgTreeNodePath} {key : Str} :
    key ∈ keySet P node ↔ key ∈ KeyedList.keys node.children :=
  (P.keyOrder_perm _).mem_iff

theorem mem_wildcardKeys {node : NgTreeNodePath} {key : Str} :
    key ∈ wildcardKeys P node ↔
      key ∈ KeyedList.keys node.children ∧ isWildcardKey key = true :=
  (P.keyOrder_perm _).mem_iff.trans List.mem_filter

theorem mem_namedKeys {node : NgTreeNodePath} {key : Str} :
    key ∈ namedKeys P node ↔ key ∈ KeyedList.keys node.children ∧ isNamedKey key = true :=
  (P.keyOrder_perm _).mem_iff.trans List.mem_filter

theorem mem_regexKeys {node : NgTreeNodePath} {key : Str} :
    key ∈ regexKeys P node ↔ key ∈ KeyedList.keys node.children ∧ isRegexKey key = true :=
  (P.keyOrder_perm _).mem_iff.trans List.mem_filter

theorem mem_keysByLength {node : NgTreeNodePath} {key : Str} :
    key ∈ keysByLength P node ↔ key ∈ KeyedList.keys node.children :=
  (List.perm_insertionSort _ _).mem_iff.trans mem_keySet

/-- On a key of both trees the second sub tree is the one that stays. -/
theorem child?_merge (a b : NgTreeNodePath) (key : Str) :
    (merge a b).child? key = (b.child? key).or (a.child? key) :=
  KeyedList.get?_override key a.children b.children

theorem keysIn_merge {holds : Str → Prop} {a b : NgTreeNodePath} (ha : a.KeysIn holds)
    (hb : b.KeysIn holds) : (merge a b).KeysIn holds := by
  have hentries : ∀ entry ∈ (merge a b).children, holds entry.1 ∧ entry.2.KeysIn holds := by
    intro entry hentry
    rcases KeyedList.mem_override hentry with hentry | hentry
    · exact ha.entry hentry
    · exact hb.entry hentry
  exact Trie.KeysIn.node (fun entry he => (hentries entry he).1)
    fun entry he => (hentries entry he).2

theorem keysIn_mergeAll {holds : Str → Prop} {nodes : List NgTreeNodePath}
    (hnodes : ∀ node ∈ nodes, node.KeysIn holds) : (mergeAll P nodes).KeysIn holds := by
  have hordered : ∀ node ∈ P.nodeOrder nodes.dedup, node.KeysIn holds := fun node hnode =>
    hnodes node (List.mem_dedup.mp ((P.nodeOrder_perm _).mem_iff.mp hnode))
  have hfold : ∀ (ordered : List NgTreeNodePath) (merged : NgTreeNodePath),
      merged.KeysIn holds → (∀ node ∈ ordered, node.KeysIn holds) →
      (ordered.foldl merge merged).KeysIn holds := by
    intro ordered
    induction ordered with
    | nil => exact fun merged hmerged _ => hmerged
    | cons first ordered ih =>
        intro merged hmerged hall
        rw [List.forall_mem_cons] at hall
        exact ih _ (keysIn_merge hmerged hall.1) hall.2
  exact hfold _ _ Trie.keysIn_empty hordered

theorem keysIn_filterMap_child? {holds : Str → Prop} {node : NgTreeNodePath}
    (h : node.KeysIn holds) (keys : List Str) :
    ∀ sub ∈ keys.filterMap node.child?, sub.KeysIn holds := by
  intro sub hsub
  obtain ⟨key, -, hchild⟩ := List.mem_filterMap.mp hsub
  exact h.child hchild

/-- Reading the regexes of keys gives each key with the text after its first
angle bracket. -/
theorem mem_readRegexKeys {M : Matchers} {keys : List Str} {pairs : List (Str × Str)}
    (h : readRegexKeys M.ops keys = .ok pairs) {pair : Str × Str} (hpair : pair ∈ pairs) :
    pair.1 ∈ keys ∧ regexOfKey pair.1 = .ok pair.2 := by
  induction keys generalizing pairs with
  | nil =>
      cases h
      simp at hpair
  | cons key keys ih =>
      rw [readRegexKeys] at h
      cases hregex : regexOfKey key with
      | error e =>
          rw [hregex] at h
          cases h
      | ok regex =>
          rw [hregex] at h
          cases hrest : readRegexKeys M.ops keys with
          | error e =>
              rw [hrest] at h
              cases h
          | ok rest =>
              rw [hrest] at h
              cases h
              rcases List.mem_cons.mp hpair with rfl | hpair
              · exact ⟨List.mem_cons_self, hregex⟩
              · obtain ⟨hkey, htext⟩ := ih hrest hpair
                exact ⟨List.mem_cons_of_mem _ hkey, htext⟩

/-! ## One step of the walk -/

variable (P)

/-- The sub tree behind the parameter keys that take a segment. -/
def mergedParams (node : NgTreeNodePath) (named matching : List Str) : NgTreeNodePath :=
  merge (mergeAll P (named.filterMap node.child?)) (mergeAll P (matching.filterMap node.child?))

/-- The names a segment binds, and the sub tree that takes it whole. -/
def entryAt (M : Matchers) (node : NgTreeNodePath) (head : Str) :
    Except JvmException (List Str × Option NgTreeNodePath) :=
  match node.child? head with
  | some sub => .ok ([], some sub)
  | none => do
      let matching ← matchingRegexKeys P M.ops node head
      if (namedKeys P node).isEmpty && matching.isEmpty then do
        let key ← findWildcardKey M.ops head (wildcardKeys P node)
        .ok ([], (key.bind node.child?).or (wildcardEntry node))
      else
        .ok ((namedKeys P node).map namedKeyName ++ matching.map regexKeyName,
          some (mergedParams P node (namedKeys P node) matching))

/-- The longest plain key the segment starts with. -/
def prefixKey (node : NgTreeNodePath) (head : Str) : Option Str :=
  (keysByLength P node).find? fun key => !isWildcardKey key && startsWith head key

/-- The names a segment binds, and where the walk goes on: the sub tree that
takes the segment whole, else the cut sub tree behind a string prefix. -/
def descend (M : Matchers) (node : NgTreeNodePath) (endsWithSlash exactSegments : Bool)
    (head : Str) : Except JvmException (List Str × Option (NgTreeNodePath × Bool)) := do
  let (names, entry) ← entryAt P M node head
  match entry with
  | some sub => .ok (names, some (sub, false))
  | none =>
      .ok (names,
        if endsWithSlash then none
        else ((prefixKey P node head).bind node.child?).map
          fun sub => (cutForPrefix exactSegments head sub, true))

variable {P} {M : Matchers}

theorem bindAll_append (names more : List Str) (segment : Str) (pathParams : PathParams) :
    bindAll (names ++ more) segment pathParams =
      bindAll more segment (bindAll names segment pathParams) :=
  List.foldl_append

theorem keyOrder_nil : P.keyOrder [] = [] := List.perm_nil.mp (P.keyOrder_perm [])

theorem keys_eq_nil_of_isLeaf {node : NgTreeNodePath} (h : isLeaf node = true) :
    KeyedList.keys node.children = [] := by
  rw [isLeaf, List.isEmpty_iff] at h
  rw [h, KeyedList.keys, List.map_nil]

theorem child?_eq_none_of_not_mem {node : NgTreeNodePath} {key : Str}
    (h : key ∉ KeyedList.keys node.children) : node.child? key = none := by
  rw [Trie.child?]
  cases hget : KeyedList.get? key node.children with
  | none => rfl
  | some sub => exact absurd (KeyedList.mem_keys_of_get? hget) h

theorem exists_child?_of_mem {node : NgTreeNodePath} {key : Str}
    (h : key ∈ KeyedList.keys node.children) : ∃ sub, node.child? key = some sub :=
  KeyedList.mem_keys_iff.mp h

theorem matchingRegexKeys_of_regexKeys_nil {node : NgTreeNodePath} {head : Str}
    (h : regexKeys P node = []) : matchingRegexKeys P M.ops node head = .ok [] := by
  rw [matchingRegexKeys, h]
  exact congrArg Except.ok keyOrder_nil

/-- Without wildcard keys there is no star key either. -/
theorem wildcardEntry_eq_none {node : NgTreeNodePath} (h : wildcardKeys P node = []) :
    wildcardEntry node = none := by
  apply child?_eq_none_of_not_mem
  intro hmem
  have hstar : "*".toList ∈ wildcardKeys P node := mem_wildcardKeys.mpr ⟨hmem, by decide⟩
  simp [h] at hstar

theorem wildcardEntriesMatching_eq (node : NgTreeNodePath) (segment : Str) :
    wildcardEntriesMatching P M.ops node segment =
      (findWildcardKey M.ops segment (wildcardKeys P node)).map fun key =>
        key.bind node.child? := by
  show (findWildcardKey M.ops segment (wildcardKeys P node) >>= fun key =>
    pure (key.bind node.child?)) = _
  cases findWildcardKey M.ops segment (wildcardKeys P node) <;> rfl

/-- The parameters bind the names of `entryAt` and merge the same sub trees. -/
theorem exactOrParams_eq {node : NgTreeNodePath} {head : Str} (pathParams : PathParams)
    (hexact : node.child? head = none) :
    exactOrParams P M.ops node head pathParams =
      (matchingRegexKeys P M.ops node head).map fun matching =>
        (bindAll ((namedKeys P node).map namedKeyName ++ matching.map regexKeyName) head
          pathParams,
        if (namedKeys P node).isEmpty && matching.isEmpty then none
        else some (mergedParams P node (namedKeys P node) matching)) := by
  rw [exactOrParams, hexact]
  by_cases hkeys : (!(namedKeys P node).isEmpty || !(regexKeys P node).isEmpty) = true
  · simp only [hkeys, if_true, paramEntry, mergedParams]
    cases matchingRegexKeys P M.ops node head with
    | error e => rfl
    | ok matching =>
        simp only [ok_bind, map_ok, pure_eq_ok, bindAll_append]
        split <;> rfl
  · simp only [Bool.or_eq_true, Bool.not_eq_true', List.isEmpty_eq_false_iff, ne_eq, not_or,
      not_not] at hkeys
    rw [matchingRegexKeys_of_regexKeys_nil hkeys.2, hkeys.1, hkeys.2]
    rfl

theorem entryFor_eq (node : NgTreeNodePath) (head : Str) (pathParams : PathParams) :
    entryFor P M.ops node head pathParams =
      (entryAt P M node head).map fun entry =>
        (bindAll entry.1 head pathParams, entry.2) := by
  rw [entryFor, entryAt]
  cases hexact : node.child? head with
  | some sub =>
      rw [exactOrParams, hexact]
      rfl
  | none =>
      rw [exactOrParams_eq pathParams hexact]
      cases matchingRegexKeys P M.ops node head with
      | error e => rfl
      | ok matching =>
          by_cases hparams : ((namedKeys P node).isEmpty && matching.isEmpty) = true
          · have hbound : bindAll ((namedKeys P node).map namedKeyName ++
                matching.map regexKeyName) head pathParams = pathParams := by
              rw [Bool.and_eq_true, List.isEmpty_iff, List.isEmpty_iff] at hparams
              rw [hparams.1, hparams.2]
              rfl
            simp only [map_ok, ok_bind, hparams, if_true, hbound]
            by_cases hwildcards : wildcardKeys P node = []
            · simp [hwildcards, findWildcardKey, wildcardEntry_eq_none hwildcards, bindAll]
            · simp only [Option.isNone_none, Bool.true_and, Bool.not_eq_true',
                List.isEmpty_eq_false_iff, ne_eq, hwildcards, not_false_eq_true, if_true,
                wildcardEntriesMatching_eq]
              cases findWildcardKey M.ops head (wildcardKeys P node) <;> rfl
          · simp only [map_ok, ok_bind, hparams, Bool.false_eq_true, if_false,
              Option.isNone_some, Bool.false_and, pure_eq_ok]

/-! ## String prefixes -/

/-- The scan of the keys when no wildcard key accepts the segment: the first
plain key the segment starts with, and the flag once a plain key was tried. -/
theorem scanSegmentStarts_eq {head : Str} {keys : List Str}
    (hkeys : ∀ key ∈ keys, isWildcardKey key = true → M.wildcard key head = .ok false)
    (sw : Bool) :
    scanSegmentStarts M.ops head keys sw =
      .ok (keys.find? (fun key => !isWildcardKey key && startsWith head key),
        sw || (keys.any fun key => !isWildcardKey key)) := by
  induction keys generalizing sw with
  | nil => simp [scanSegmentStarts]
  | cons key keys ih =>
      rw [List.forall_mem_cons] at hkeys
      rw [scanSegmentStarts]
      by_cases hwildcard : isWildcardKey key = true
      · have hrejects : M.ops.wildcardMatches key head = .ok false := hkeys.1 hwildcard
        simp [hwildcard, hrejects, ih hkeys.2 sw]
      · by_cases hstarts : startsWith head key = true
        · simp [hwildcard, hstarts]
        · simp [hwildcard, hstarts, ih hkeys.2 true]

theorem rejects_of_findWildcardKey {segment : Str} {keys : List Str}
    (h : findWildcardKey M.ops segment keys = .ok none) :
    ∀ key ∈ keys, M.wildcard key segment = .ok false := by
  induction keys with
  | nil => simp
  | cons key keys ih =>
      obtain ⟨accepted, haccepted, hrest⟩ := bind_eq_ok_iff.mp h
      cases accepted with
      | true => cases hrest
      | false => exact List.forall_mem_cons.mpr ⟨haccepted, ih hrest⟩

theorem accepts_of_findWildcardKey {segment key : Str} {keys : List Str}
    (h : findWildcardKey M.ops segment keys = .ok (some key)) :
    key ∈ keys ∧ M.wildcard key segment = .ok true := by
  induction keys with
  | nil => cases h
  | cons first keys ih =>
      obtain ⟨accepted, haccepted, hrest⟩ := bind_eq_ok_iff.mp h
      cases accepted with
      | true =>
          cases hrest
          exact ⟨List.mem_cons_self, haccepted⟩
      | false =>
          obtain ⟨hmem, hkey⟩ := ih hrest
          exact ⟨List.mem_cons_of_mem _ hmem, hkey⟩

/-- A segment that no sub tree takes is rejected by every wildcard key, and by
every regex key if there are no named ones. -/
theorem rejects_of_entryAt {node : NgTreeNodePath} {head : Str} {names : List Str}
    (h : entryAt P M node head = .ok (names, none)) :
    node.child? head = none ∧ names = [] ∧ namedKeys P node = [] ∧
      matchingRegexKeys P M.ops node head = .ok [] ∧
      ∀ key ∈ wildcardKeys P node, M.wildcard key head = .ok false := by
  rw [entryAt] at h
  cases hexact : node.child? head with
  | some sub =>
      rw [hexact] at h
      cases h
  | none =>
      rw [hexact] at h
      obtain ⟨matching, hmatching, h⟩ := bind_eq_ok_iff.mp h
      by_cases hparams : ((namedKeys P node).isEmpty && matching.isEmpty) = true
      · rw [if_pos hparams] at h
        rw [Bool.and_eq_true, List.isEmpty_iff, List.isEmpty_iff] at hparams
        obtain ⟨key, hkey, h⟩ := bind_eq_ok_iff.mp h
        cases key with
        | some key =>
            -- an accepted key is a key of the node, so it has a sub tree
            obtain ⟨hmem, -⟩ := accepts_of_findWildcardKey hkey
            obtain ⟨sub, hsub⟩ := exists_child?_of_mem (mem_wildcardKeys.mp hmem).1
            simp [hsub] at h
        | none =>
            rw [Option.bind_none, Option.none_or, Except.ok.injEq, Prod.mk.injEq] at h
            obtain ⟨rfl, -⟩ := h
            exact ⟨rfl, rfl, hparams.1, hparams.2 ▸ hmatching, rejects_of_findWildcardKey hkey⟩
      · rw [if_neg hparams] at h
        cases h

/-- The sub tree that takes a segment keeps to the declared keys. -/
theorem keysIn_of_entryAt {holds : Str → Prop} {node sub : NgTreeNodePath}
    (hnode : node.KeysIn holds) {head : Str} {names : List Str}
    (h : entryAt P M node head = .ok (names, some sub)) : sub.KeysIn holds := by
  rw [entryAt] at h
  cases hexact : node.child? head with
  | some exact =>
      rw [hexact] at h
      cases h
      exact hnode.child hexact
  | none =>
      rw [hexact] at h
      obtain ⟨matching, -, h⟩ := bind_eq_ok_iff.mp h
      split at h
      · obtain ⟨key, -, h⟩ := bind_eq_ok_iff.mp h
        rw [Except.ok.injEq, Prod.mk.injEq, Option.or_eq_some_iff] at h
        rcases h.2 with hkey | ⟨-, hstar⟩
        · obtain ⟨found, -, hchild⟩ := Option.bind_eq_some_iff.mp hkey
          exact hnode.child hchild
        · exact hnode.child hstar
      · cases h
        exact keysIn_merge (keysIn_mergeAll (keysIn_filterMap_child? hnode _))
          (keysIn_mergeAll (keysIn_filterMap_child? hnode _))

theorem keysIn_cutForPrefix {holds : Str → Prop} (exactSegments : Bool) (head : Str)
    (node : NgTreeNodePath) : (cutForPrefix exactSegments head node).KeysIn holds := by
  rw [cutForPrefix]
  split <;> exact Trie.KeysIn.node (by simp) (by simp)

/-- When no sub tree takes the segment, the string prefix lookup answers the cut
sub tree of `descend`, with the flag set. -/
theorem segmentStartsWith_eq {node : NgTreeNodePath} {head : Str} {names : List Str}
    (h : entryAt P M node head = .ok (names, none)) :
    segmentStartsWith P M.ops node head =
      .ok ((prefixKey P node head).bind node.child?,
        (keysByLength P node).any fun key => !isWildcardKey key) := by
  obtain ⟨-, -, -, -, hrejects⟩ := rejects_of_entryAt h
  have hkeys : ∀ key ∈ keysByLength P node, isWildcardKey key = true →
      M.wildcard key head = .ok false := by
    intro key hkey hwildcard
    exact hrejects key (mem_wildcardKeys.mpr ⟨mem_keysByLength.mp hkey, hwildcard⟩)
  show (scanSegmentStarts M.ops head (keysByLength P node) false >>= fun found =>
    pure (found.1.bind node.child?, found.2)) = _
  rw [scanSegmentStarts_eq hkeys, ok_bind, Bool.false_or]
  rfl

/-- The string prefix key is a plain key of the node. -/
theorem prefixKey_spec {node : NgTreeNodePath} {head key : Str}
    (h : prefixKey P node head = some key) :
    key ∈ KeyedList.keys node.children ∧ isWildcardKey key = false ∧
      startsWith head key = true := by
  have hkey := List.find?_some h
  rw [Bool.and_eq_true, Bool.not_eq_true'] at hkey
  exact ⟨mem_keysByLength.mp (List.mem_of_find?_eq_some h), hkey.1, hkey.2⟩

/-- Among the plain keys the segment starts with, the one found is a longest. -/
theorem length_le_prefixKey {node : NgTreeNodePath} {head key other : Str}
    (h : prefixKey P node head = some key) (hother : other ∈ KeyedList.keys node.children)
    (hplain : isWildcardKey other = false) (hstarts : startsWith head other = true) :
    other.length ≤ key.length := by
  obtain ⟨-, before, after, hsplit, hbefore⟩ := List.find?_eq_some_iff_append.mp h
  have hsorted : (keysByLength P node).Pairwise fun r1 r2 => r2.length ≤ r1.length :=
    List.pairwise_insertionSort _ _
  have hmem : other ∈ keysByLength P node := mem_keysByLength.mpr hother
  rw [hsplit] at hsorted hmem
  rcases List.mem_append.mp hmem with hmem | hmem
  · have hreject := hbefore other hmem
    simp [hplain, hstarts] at hreject
  · rcases List.mem_cons.mp hmem with rfl | hmem
    · exact Nat.le_refl _
    · exact (List.pairwise_cons.mp (List.pairwise_append.mp hsorted).2.1).1 other hmem

/-- What one step of the walk can be. -/
theorem descend_cases {node : NgTreeNodePath} {endsWithSlash exactSegments : Bool} {head : Str}
    {names : List Str} {target : Option (NgTreeNodePath × Bool)}
    (h : descend P M node endsWithSlash exactSegments head = .ok (names, target)) :
    (∃ sub, entryAt P M node head = .ok (names, some sub) ∧ target = some (sub, false)) ∨
      (entryAt P M node head = .ok (names, none) ∧
        ((target = none ∧ (endsWithSlash = true ∨ prefixKey P node head = none)) ∨
        ∃ key sub, endsWithSlash = false ∧ prefixKey P node head = some key ∧
          node.child? key = some sub ∧
          target = some (cutForPrefix exactSegments head sub, true))) := by
  obtain ⟨⟨found, entry⟩, hentry, h⟩ := bind_eq_ok_iff.mp h
  cases entry with
  | some sub =>
      cases h
      exact Or.inl ⟨sub, hentry, rfl⟩
  | none =>
      rw [Except.ok.injEq, Prod.mk.injEq] at h
      obtain ⟨rfl, rfl⟩ := h
      refine Or.inr ⟨hentry, ?_⟩
      cases endsWithSlash with
      | true => exact Or.inl ⟨rfl, Or.inl rfl⟩
      | false =>
          cases hkey : prefixKey P node head with
          | none => exact Or.inl ⟨rfl, Or.inr rfl⟩
          | some key =>
              obtain ⟨sub, hsub⟩ := exists_child?_of_mem (prefixKey_spec hkey).1
              refine Or.inr ⟨key, sub, rfl, rfl, hsub, ?_⟩
              rw [Option.bind_some, hsub]
              rfl

/-! ## The search as a walk -/

/-- Behind a string prefix the request is never the whole declared path. -/
def settle (prefixed : Bool) (matched : NgMatchedRoutes) : NgMatchedRoutes :=
  if prefixed then { matched with noMoreSegments := false } else matched

theorem entryAt_of_isLeaf {node : NgTreeNodePath} (h : isLeaf node = true) (head : Str) :
    entryAt P M node head = .ok ([], none) := by
  have hkeys := keys_eq_nil_of_isLeaf h
  have hnone : ∀ accepts : Str → Bool,
      P.keyOrder ((KeyedList.keys node.children).filter accepts) = [] := by
    intro accepts
    rw [hkeys, List.filter_nil, keyOrder_nil]
  have hnamed : namedKeys P node = [] := hnone isNamedKey
  have hwildcard : wildcardKeys P node = [] := hnone isWildcardKey
  have hexact : node.child? head = none := child?_eq_none_of_not_mem (by simp [hkeys])
  rw [entryAt, hexact]
  simp [matchingRegexKeys_of_regexKeys_nil (hnone isRegexKey), hnamed, hwildcard,
    findWildcardKey, wildcardEntry_eq_none hwildcard]

/-- Nothing is below a leaf: its own routes answer. -/
theorem find_of_isLeaf {node : NgTreeNodePath} (h : isLeaf node = true) (segments : List Str)
    (endsWithSlash : Bool) (path : Str) (pathParams : PathParams) (exactSegments : Bool) :
    find P M.ops segments node endsWithSlash path pathParams exactSegments =
      .ok (pathParams, own node path pathParams segments.isEmpty) := by
  cases segments with
  | nil => rfl
  | cons head tail =>
      rw [find, entryFor_eq, entryAt_of_isLeaf h]
      simp [h, bindAll]

theorem own_of_isEmpty {node : NgTreeNodePath} (h : isEmpty node = true) (path : Str)
    (pathParams : PathParams) (noMoreSegments : Bool) :
    own node path pathParams noMoreSegments = none := by
  rw [isEmpty, Bool.and_eq_true] at h
  rw [own, if_pos h.1]

/-- The search is one step of the walk, the search below, and the routes of the
node itself if there is nothing below. -/
theorem find_cons (head : Str) (tail : List Str) (node : NgTreeNodePath) (endsWithSlash : Bool)
    (path : Str) (pathParams : PathParams) (exactSegments : Bool) :
    find P M.ops (head :: tail) node endsWithSlash path pathParams exactSegments =
      descend P M node endsWithSlash exactSegments head >>= fun step =>
        match step.2 with
        | none =>
            .ok (bindAll step.1 head pathParams,
              own node path (bindAll step.1 head pathParams) false)
        | some target =>
            find P M.ops tail target.1 endsWithSlash (path ++ '/' :: head)
                (bindAll step.1 head pathParams) exactSegments >>= fun found =>
              .ok (found.1, (found.2.map (settle target.2)).or
                (own node path found.1 false)) := by
  rw [find, entryFor_eq, descend]
  cases hentry : entryAt P M node head with
  | error e => rfl
  | ok step =>
      obtain ⟨names, entry⟩ := step
      cases entry with
      | some sub =>
          simp only [map_ok, ok_bind]
          by_cases hleaf : isLeaf sub = true
          · by_cases hroutes : sub.routes.isEmpty = true
            · have hempty : isEmpty sub = true := by rw [isEmpty, hroutes, hleaf]; rfl
              simp [hempty, find_of_isLeaf hleaf, own_of_isEmpty hempty]
            · have hempty : isEmpty sub = false := by simp [isEmpty, hroutes]
              simp [hempty, hleaf, find_of_isLeaf hleaf, own, hroutes, settle]
          · have hempty : isEmpty sub = false := by simp [isEmpty, hleaf]
            simp only [hempty, hleaf, Bool.false_eq_true, if_false]
            cases find P M.ops tail sub endsWithSlash (path ++ '/' :: head)
                (bindAll names head pathParams) exactSegments with
            | error e => rfl
            | ok found =>
                obtain ⟨bound, answer⟩ := found
                cases answer <;> rfl
      | none =>
          simp only [map_ok, ok_bind]
          by_cases hslash : endsWithSlash = true
          · simp [hslash]
          · by_cases hleaf : isLeaf node = true
            · have hstarts : prefixKey P node head = none := by
                cases hkey : prefixKey P node head with
                | none => rfl
                | some key =>
                    obtain ⟨hmem, -⟩ := prefixKey_spec hkey
                    simp [keys_eq_nil_of_isLeaf hleaf] at hmem
              simp [hslash, hleaf, hstarts]
            · simp only [hslash, hleaf, Bool.false_or, Bool.false_eq_true, if_false,
                segmentStartsWith_eq hentry, ok_bind]
              cases hstarts : prefixKey P node head with
              | none => rfl
              | some key =>
                  obtain ⟨hmem, hplain, -⟩ := prefixKey_spec hstarts
                  obtain ⟨sub, hsub⟩ := exists_child?_of_mem hmem
                  have hany : ((keysByLength P node).any fun key => !isWildcardKey key) = true :=
                    List.any_eq_true.mpr ⟨key, mem_keysByLength.mpr hmem, by simp [hplain]⟩
                  simp only [Option.bind_some, hsub, hany, Option.map_some, if_true]
                  cases find P M.ops tail (cutForPrefix exactSegments head sub) false
                      (path ++ '/' :: head) (bindAll names head pathParams) exactSegments with
                  | error e => rfl
                  | ok found =>
                      obtain ⟨bound, answer⟩ := found
                      cases answer <;> rfl

end NgTreeNodePath

end Otoroshi
