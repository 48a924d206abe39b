/-
# The walk over declarations

Where no two parameter siblings take the same segment nothing is merged, and a
node of the tree files exactly the declarations that are still in play: those
behind the keys taken so far, with these keys removed. `Files` is that relation.
`EntryCase` says what one segment does to it, key kind by key kind, without
mentioning the tree below the node.
-/

import Otoroshi.Router.Merge

namespace Otoroshi

/-- Declared paths, from some node on, with their routes. -/
abbrev Declared := List (List Str × NgRoute)

/-- The name a parameter key binds. -/
def paramName (key : Str) : Option Str :=
  if isNamedKey key then some (namedKeyName key)
  else if isRegexKey key then some (regexKeyName key)
  else none

/-- Some declared path goes on with the key. -/
def GoesOn (declared : Declared) (key : Str) : Prop := Trie.strip key declared ≠ []

instance (declared : Declared) (key : Str) : Decidable (GoesOn declared key) :=
  inferInstanceAs (Decidable (_ ≠ _))

theorem goesOn_of_mem {declared : Declared} {key : Str} {keys : List Str} {route : NgRoute}
    (h : (key :: keys, route) ∈ declared) : GoesOn declared key :=
  List.ne_nil_of_mem (Trie.mem_strip.mpr h)

theorem exists_mem_of_goesOn {declared : Declared} {key : Str} (h : GoesOn declared key) :
    ∃ keys route, (key :: keys, route) ∈ declared := by
  obtain ⟨⟨keys, route⟩, hmem⟩ := List.exists_mem_of_ne_nil _ h
  exact ⟨keys, route, Trie.mem_strip.mp hmem⟩

namespace NgTreeNodePath

variable {P : Platform} {M : Matchers}

/-- The node files exactly these declarations: the same routes at the same
paths, and no node that no declared path goes through. -/
structure Files (node : NgTreeNodePath) (declared : Declared) : Prop where
  mem_iff : ∀ keys route, route ∈ node.valuesAt keys ↔ (keys, route) ∈ declared
  reached : ∀ key keys sub, node.subtree? (key :: keys) = some sub →
    ∃ entry ∈ declared, key :: keys <+: entry.1

theorem files_ofList (declared : Declared) : Files (Trie.ofList declared) declared where
  mem_iff keys route := by rw [Trie.valuesAt_ofList, Trie.mem_listedAt]
  reached key keys sub h := Trie.exists_mem_of_subtree?_ofList h

section Files

variable {node sub : NgTreeNodePath} {declared : Declared}

theorem Files.goesOn (h : Files node declared) {key : Str} (hchild : node.child? key = some sub) :
    GoesOn declared key := by
  obtain ⟨⟨segments, route⟩, hmem, hlongestKey⟩ :=
    h.reached key [] sub (by rw [Trie.subtree?_of_child? hchild]; rfl)
  obtain ⟨rest, rfl⟩ := hlongestKey
  exact goesOn_of_mem hmem

theorem Files.exists_child? (h : Files node declared) {key : Str} (hkey : GoesOn declared key) :
    ∃ sub, node.child? key = some sub := by
  obtain ⟨keys, route, hmem⟩ := exists_mem_of_goesOn hkey
  have hroute := (h.mem_iff (key :: keys) route).mpr hmem
  cases hchild : node.child? key with
  | none => simp [Trie.valuesAt_cons, hchild] at hroute
  | some sub => exact ⟨sub, rfl⟩

theorem Files.mem_keys_iff (h : Files node declared) {key : Str} :
    key ∈ KeyedList.keys node.children ↔ GoesOn declared key := by
  refine ⟨fun hmem => ?_, fun hkey => ?_⟩
  · obtain ⟨sub, hsub⟩ := exists_child?_of_mem hmem
    exact h.goesOn hsub
  · exact KeyedList.mem_keys_iff.mpr (h.exists_child? hkey)

/-- Going down a key is stripping it. -/
theorem Files.child (h : Files node declared) {key : Str} (hchild : node.child? key = some sub) :
    Files sub (Trie.strip key declared) where
  mem_iff keys route := by rw [mem_valuesAt_child hchild, h.mem_iff, Trie.mem_strip]
  reached next keys more hmore := by
    rw [← Trie.subtree?_of_child? hchild] at hmore
    obtain ⟨⟨segments, route⟩, hmem, hlongestKey⟩ := h.reached key (next :: keys) more hmore
    obtain ⟨rest, rfl⟩ := hlongestKey
    exact ⟨(next :: keys ++ rest, route), Trie.mem_strip.mpr hmem, List.prefix_append _ _⟩

/-- Nothing but the routes and the children of a node matters. -/
theorem Files.congr (h : Files node declared) (hvalues : ∀ route, route ∈ sub.values ↔
    route ∈ node.values) (hchild : ∀ key, sub.child? key = node.child? key) :
    Files sub declared where
  mem_iff keys route := by
    cases keys with
    | nil => exact (hvalues route).trans (h.mem_iff [] route)
    | cons key keys => rw [Trie.valuesAt_cons, hchild, ← Trie.valuesAt_cons, h.mem_iff]
  reached key keys more hmore := by
    rw [Trie.subtree?, hchild] at hmore
    exact h.reached key keys more hmore

end Files

/-- Siblings that are all one node merge into it. -/
theorem files_mergedParams {node sub : NgTreeNodePath} {declared : Declared}
    {named matching : List Str} (h : Files sub declared)
    (hsome : mergedSiblings P node named matching ≠ [])
    (hall : ∀ sibling ∈ mergedSiblings P node named matching, sibling = sub) :
    Files (mergedParams P node named matching) declared := by
  obtain ⟨sibling, hsibling⟩ := List.exists_mem_of_ne_nil _ hsome
  refine h.congr (fun route => ?_) fun key => ?_
  · rw [values_mergedParams, List.mem_flatMap]
    constructor
    · rintro ⟨other, hother, hroute⟩
      rw [← hall other hother]
      exact hroute
    · intro hroute
      rw [← hall sibling hsibling] at hroute
      exact ⟨sibling, hsibling, hroute⟩
  · rw [child?_mergedParams]
    cases hunder : lastUnder key (mergedSiblings P node named matching) with
    | some last =>
        obtain ⟨other, hother, hchild⟩ := exists_of_lastUnder hunder
        rw [← hchild, hall other hother]
    | none =>
        rw [lastUnder, List.findSome?_eq_none_iff] at hunder
        rw [← hall sibling hsibling]
        exact (hunder sibling (List.mem_reverse.mpr hsibling)).symm

/-! ## One segment -/

theorem isNamedKey_eq_false_of_isRegexKey {key : Str} (h : isRegexKey key = true) :
    isNamedKey key = false := by
  rw [isRegexKey, Bool.and_eq_true] at h
  cases key with
  | nil => rfl
  | cons first rest =>
      have hfirst : '$' = first := by
        have hdollar := h.1
        simp only [startsWith] at hdollar
        exact (List.cons_prefix_cons.mp (List.isPrefixOf_iff_prefix.mp hdollar)).1
      subst hfirst
      simp [isNamedKey, startsWith, List.isPrefixOf]

theorem accepts_eq_true_iff {answer : Except JvmException Bool} :
    accepts answer = true ↔ answer = .ok true := by
  cases answer with
  | error e => simp [accepts]
  | ok accepted => simp [accepts]

theorem exists_of_readRegexKeys {keys : List Str} {pairs : List (Str × Str)}
    (h : readRegexKeys M.ops keys = .ok pairs) {key : Str} (hkey : key ∈ keys) :
    ∃ regex, (key, regex) ∈ pairs := by
  induction keys generalizing pairs with
  | nil => simp at hkey
  | cons first keys ih =>
      rw [readRegexKeys] at h
      cases hregex : regexOfKey first with
      | error e =>
          rw [hregex] at h
          cases h
      | ok regex =>
          rw [hregex] at h
          obtain ⟨rest, hrest, h⟩ := bind_eq_ok_iff.mp h
          cases h
          rcases List.mem_cons.mp hkey with rfl | hkey
          · exact ⟨regex, List.mem_cons_self⟩
          · obtain ⟨found, hfound⟩ := ih hrest hkey
            exact ⟨found, List.mem_cons_of_mem _ hfound⟩

theorem mem_of_filterRegexKeys {segment : Str} {pairs : List (Str × Str)} {keys : List Str}
    (h : filterRegexKeys M.ops segment pairs = .ok keys) {key regex : Str}
    (hpair : (key, regex) ∈ pairs) (haccepts : M.regex regex segment = .ok true) :
    key ∈ keys := by
  induction pairs generalizing keys with
  | nil => simp at hpair
  | cons first pairs ih =>
      obtain ⟨firstKey, firstRegex⟩ := first
      obtain ⟨accepted, haccepted, h⟩ := bind_eq_ok_iff.mp h
      obtain ⟨rest, hrest, h⟩ := bind_eq_ok_iff.mp h
      cases h
      rcases List.mem_cons.mp hpair with heq | hpair
      · cases heq
        have hasked : M.ops.regexMatches regex segment = .ok true := haccepts
        rw [hasked] at haccepted
        cases haccepted
        exact List.mem_cons_self
      · cases accepted with
        | true => exact List.mem_cons_of_mem _ (ih hrest hpair)
        | false => exact ih hrest hpair

/-- The regex keys that come out are those that take the segment. -/
theorem mem_matchingRegexKeys {node : NgTreeNodePath} {segment : Str} {matching : List Str}
    (h : matchingRegexKeys P M.ops node segment = .ok matching) {key : Str} :
    key ∈ matching ↔ key ∈ regexKeys P node ∧ paramTakes M key segment = true := by
  refine ⟨paramTakes_of_matchingRegexKeys h, ?_⟩
  rintro ⟨hkey, htakes⟩
  obtain ⟨pairs, hpairs, h⟩ := bind_eq_ok_iff.mp h
  obtain ⟨keys, hkeys, h⟩ := bind_eq_ok_iff.mp h
  cases h
  obtain ⟨regex, hpair⟩ := exists_of_readRegexKeys hpairs hkey
  have htext := (mem_readRegexKeys hpairs hpair).2
  simp only at htext
  have hkind := (mem_regexKeys.mp hkey).2
  have haccepts : M.regex regex segment = .ok true := by
    simpa [paramTakes, isNamedKey_eq_false_of_isRegexKey hkind, hkind, htext,
      accepts_eq_true_iff] using htakes
  exact (P.keyOrder_perm _).mem_iff.mpr (mem_of_filterRegexKeys hkeys hpair haccepts)

/-- The keys of the parameter branch are the parameter keys that take the
segment. -/
theorem mem_paramKeys {node : NgTreeNodePath} {declared : Declared} (hnode : Files node declared)
    {head : Str} {matching : List Str}
    (h : matchingRegexKeys P M.ops node head = .ok matching) (key : Str) :
    key ∈ namedKeys P node ++ matching ↔
      GoesOn declared key ∧ paramTakes M key head = true := by
  rw [List.mem_append, mem_matchingRegexKeys h, mem_namedKeys, mem_regexKeys,
    hnode.mem_keys_iff]
  constructor
  · rintro (⟨hkey, hnamed⟩ | ⟨⟨hkey, -⟩, htakes⟩)
    · exact ⟨hkey, by simp [paramTakes, hnamed]⟩
    · exact ⟨hkey, htakes⟩
  · rintro ⟨hkey, htakes⟩
    have hkinds := htakes
    rw [paramTakes, Bool.or_eq_true, Bool.and_eq_true] at hkinds
    rcases hkinds with hnamed | ⟨hregex, -⟩
    · exact Or.inl ⟨hkey, hnamed⟩
    · exact Or.inr ⟨⟨hkey, hregex⟩, htakes⟩

theorem paramName_of_isNamedKey {key : Str} (h : isNamedKey key = true) :
    paramName key = some (namedKeyName key) := by
  rw [paramName, if_pos h]

theorem paramName_of_isRegexKey {key : Str} (h : isRegexKey key = true) :
    paramName key = some (regexKeyName key) := by
  rw [paramName, if_neg (by simp [isNamedKey_eq_false_of_isRegexKey h]), if_pos h]

/-- The names that are bound are those of these keys. -/
theorem mem_paramNames {node : NgTreeNodePath} {declared : Declared}
    (hnode : Files node declared) {head : Str} {matching : List Str}
    (h : matchingRegexKeys P M.ops node head = .ok matching) (name : Str) :
    name ∈ (namedKeys P node).map namedKeyName ++ matching.map regexKeyName ↔
      ∃ key, GoesOn declared key ∧ paramTakes M key head = true ∧ paramName key = some name := by
  have hmatching : ∀ {key : Str}, key ∈ matching → isRegexKey key = true := fun hkey =>
    (mem_regexKeys.mp ((mem_matchingRegexKeys h).mp hkey).1).2
  rw [List.mem_append, List.mem_map, List.mem_map]
  constructor
  · rintro (⟨key, hkey, rfl⟩ | ⟨key, hkey, rfl⟩)
    · obtain ⟨hgoes, htakes⟩ := (mem_paramKeys hnode h _).mp (List.mem_append_left _ hkey)
      exact ⟨key, hgoes, htakes, paramName_of_isNamedKey (mem_namedKeys.mp hkey).2⟩
    · obtain ⟨hgoes, htakes⟩ := (mem_paramKeys hnode h _).mp (List.mem_append_right _ hkey)
      exact ⟨key, hgoes, htakes, paramName_of_isRegexKey (hmatching hkey)⟩
  · rintro ⟨key, hkey, htakes, hname⟩
    rcases List.mem_append.mp ((mem_paramKeys hnode h key).mpr ⟨hkey, htakes⟩) with hmem | hmem
    · rw [paramName_of_isNamedKey (mem_namedKeys.mp hmem).2, Option.some.injEq] at hname
      exact Or.inl ⟨key, hmem, hname⟩
    · rw [paramName_of_isRegexKey (hmatching hmem), Option.some.injEq] at hname
      exact Or.inr ⟨key, hmem, hname⟩

/-- What a segment does to a node that files some declarations. -/
inductive EntryCase (M : Matchers) (declared : Declared) (head : Str) :
    List Str → Option NgTreeNodePath → Prop
  | exact {sub : NgTreeNodePath} (hexact : GoesOn declared head)
      (hsub : Files sub (Trie.strip head declared)) : EntryCase M declared head [] (some sub)
  /-- The names are those of the parameter keys that take the segment. The sub
  tree is only described when there is one such key. -/
  | params {names : List Str} {sub : NgTreeNodePath} (hexact : ¬ GoesOn declared head)
      (hsome : ∃ key, GoesOn declared key ∧ paramTakes M key head = true)
      (hnames : ∀ name, name ∈ names ↔ ∃ key, GoesOn declared key ∧
        paramTakes M key head = true ∧ paramName key = some name)
      (hsub : ∀ key, (∀ other, GoesOn declared other → paramTakes M other head = true →
        other = key) → Files sub (Trie.strip key declared)) :
      EntryCase M declared head names (some sub)
  | wildcard {key : Str} {sub : NgTreeNodePath} (hexact : ¬ GoesOn declared head)
      (hparams : ∀ param, GoesOn declared param → paramTakes M param head = false)
      (hkey : GoesOn declared key) (htakes : wildcardTakes M key head = true)
      (hsub : Files sub (Trie.strip key declared)) : EntryCase M declared head [] (some sub)
  | nothing (hexact : ¬ GoesOn declared head)
      (hparams : ∀ param, GoesOn declared param → paramTakes M param head = false)
      (hwildcards : ∀ key, GoesOn declared key → wildcardTakes M key head = false) :
      EntryCase M declared head [] none

/-- The step of the walk, said over declarations. -/
theorem entryCase_of_entryAt {node : NgTreeNodePath} {declared : Declared}
    (hnode : Files node declared) {head : Str} {names : List Str}
    {entry : Option NgTreeNodePath} (h : entryAt P M node head = .ok (names, entry)) :
    EntryCase M declared head names entry := by
  rw [entryAt] at h
  cases hchild : node.child? head with
  | some sub =>
      rw [hchild] at h
      cases h
      exact .exact (hnode.goesOn hchild) (hnode.child hchild)
  | none =>
      rw [hchild] at h
      have hexact : ¬ GoesOn declared head := by
        intro hgoes
        obtain ⟨sub, hsub⟩ := hnode.exists_child? hgoes
        rw [hchild] at hsub
        cases hsub
      obtain ⟨matching, hmatching, h⟩ := bind_eq_ok_iff.mp h
      have hkeys := mem_paramKeys hnode hmatching
      by_cases hnone : ((namedKeys P node).isEmpty && matching.isEmpty) = true
      · rw [if_pos hnone] at h
        rw [Bool.and_eq_true, List.isEmpty_iff, List.isEmpty_iff] at hnone
        have hparams : ∀ param, GoesOn declared param → paramTakes M param head = false := by
          intro param hparam
          by_contra htakes
          have hmem := (hkeys param).mpr ⟨hparam, by simpa using htakes⟩
          simp [hnone.1, hnone.2] at hmem
        obtain ⟨key, hkey, h⟩ := bind_eq_ok_iff.mp h
        rw [Except.ok.injEq, Prod.mk.injEq] at h
        obtain ⟨rfl, rfl⟩ := h
        cases key with
        | some key =>
            obtain ⟨hmem, haccepts⟩ := accepts_of_findWildcardKey hkey
            obtain ⟨hmem, hkind⟩ := mem_wildcardKeys.mp hmem
            obtain ⟨sub, hsub⟩ := exists_child?_of_mem hmem
            rw [Option.bind_some, hsub, Option.some_or]
            exact .wildcard hexact hparams (hnode.goesOn hsub)
              (by simp [wildcardTakes, hkind, haccepts, accepts]) (hnode.child hsub)
        | none =>
            rw [Option.bind_none, Option.none_or]
            cases hstar : wildcardEntry node with
            | some sub =>
                exact .wildcard hexact hparams (hnode.goesOn hstar) (by simp [wildcardTakes])
                  (hnode.child hstar)
            | none =>
                refine .nothing hexact hparams fun key hkeyGoes => ?_
                by_contra htakes
                have hmem := hnode.mem_keys_iff.mpr hkeyGoes
                simp only [wildcardTakes, Bool.not_eq_false, Bool.or_eq_true, beq_iff_eq,
                  Bool.and_eq_true, accepts_eq_true_iff] at htakes
                rcases htakes with rfl | ⟨hkind, haccepts⟩
                · obtain ⟨sub, hsub⟩ := exists_child?_of_mem hmem
                  rw [wildcardEntry, hsub] at hstar
                  cases hstar
                · have hrejects := rejects_of_findWildcardKey hkey key
                    (mem_wildcardKeys.mpr ⟨hmem, hkind⟩)
                  rw [haccepts] at hrejects
                  cases hrejects
      · rw [if_neg hnone] at h
        cases h
        have hsome : ∃ key, key ∈ namedKeys P node ++ matching := by
          refine List.exists_mem_of_ne_nil _ fun hnil => hnone ?_
          rw [List.append_eq_nil_iff] at hnil
          rw [hnil.1, hnil.2]
          rfl
        refine .params hexact ?_ ?_ ?_
        · obtain ⟨key, hkey⟩ := hsome
          exact ⟨key, (hkeys key).mp hkey⟩
        · exact mem_paramNames hnode hmatching
        · intro key hunique
          have honly : ∀ other ∈ namedKeys P node ++ matching, other = key := fun other hother =>
            hunique other ((hkeys other).mp hother).1 ((hkeys other).mp hother).2
          obtain ⟨first, hfirst⟩ := hsome
          have hkey : key ∈ namedKeys P node ++ matching := honly first hfirst ▸ hfirst
          obtain ⟨sub, hsub⟩ := hnode.exists_child? ((hkeys key).mp hkey).1
          refine files_mergedParams (hnode.child hsub)
            (List.ne_nil_of_mem (mem_mergedSiblings.mpr ⟨key, hkey, hsub⟩)) ?_
          intro sibling hsibling
          obtain ⟨other, hother, hchild⟩ := mem_mergedSiblings.mp hsibling
          rw [honly other hother, hsub] at hchild
          exact (Option.some.inj hchild).symm

end NgTreeNodePath

/-! ## Where the walk may go -/

/-- The keys the declared paths go on with. -/
def firstKeys (declared : Declared) : List Str := declared.filterMap fun entry => entry.1.head?

theorem mem_firstKeys {declared : Declared} {key : Str} :
    key ∈ firstKeys declared ↔ GoesOn declared key := by
  rw [firstKeys, List.mem_filterMap]
  refine ⟨?_, fun hkey => ?_⟩
  · rintro ⟨⟨segments, route⟩, hmem, hhead⟩
    cases segments with
    | nil => simp at hhead
    | cons first rest =>
        cases hhead
        exact goesOn_of_mem hmem
  · obtain ⟨keys, route, hmem⟩ := exists_mem_of_goesOn hkey
    exact ⟨(key :: keys, route), hmem, rfl⟩

/-- The keys the walk may go down on a segment: the segment itself, else the
parameter keys that take it, else the wildcard keys that do. -/
def followed (M : Matchers) (declared : Declared) (head : Str) : List Str :=
  if GoesOn declared head then [head]
  else if (firstKeys declared).any (paramTakes M · head) then
    (firstKeys declared).filter (paramTakes M · head)
  else (firstKeys declared).filter (wildcardTakes M · head)

/-- The plain keys the segment starts with. -/
def prefixKeys (declared : Declared) (head : Str) : List Str :=
  (firstKeys declared).filter fun key => !isWildcardKey key && startsWith head key

/-- The routes behind a string prefix, without those that only accept whole
segments. -/
def prefixRoutes (exactSegments : Bool) (declared : Declared) (head key : Str) : List NgRoute :=
  (Trie.listedAt [key] declared).filter fun route =>
    !(exactSegments && NgTreeNodePath.needsExactSegment head route)

/-- The longest string prefix has routes. -/
def PrefixAnswers (exactSegments : Bool) (declared : Declared) (head : Str) : Prop :=
  ∃ key ∈ prefixKeys declared head, (∀ other ∈ prefixKeys declared head,
    other.length ≤ key.length) ∧ prefixRoutes exactSegments declared head key ≠ []

instance (exactSegments : Bool) (declared : Declared) (head : Str) :
    Decidable (PrefixAnswers exactSegments declared head) :=
  inferInstanceAs (Decidable (∃ key ∈ prefixKeys declared head, _ ∧ _ ≠ _))

/-- Whichever way the walk goes, it comes by a route. -/
def Leads (M : Matchers) (endsWithSlash exactSegments : Bool) : Declared → List Str → Prop
  | declared, [] => Trie.here declared ≠ []
  | declared, head :: tail => Trie.here declared ≠ [] ∨
      (followed M declared head = [] ∧ endsWithSlash = false ∧
        PrefixAnswers exactSegments declared head) ∨
      (followed M declared head ≠ [] ∧ ∀ key ∈ followed M declared head,
        Leads M endsWithSlash exactSegments (Trie.strip key declared) tail)

/-- No two parameter keys take the same segment, whichever way the walk goes. -/
def Untied (M : Matchers) : Declared → List Str → Prop
  | _, [] => True
  | declared, head :: tail =>
      (¬ GoesOn declared head → ∀ key ∈ firstKeys declared, ∀ other ∈ firstKeys declared,
        paramTakes M key head = true → paramTakes M other head = true → key = other) ∧
      ∀ key ∈ followed M declared head, Untied M (Trie.strip key declared) tail

section Decidable

variable (M : Matchers)

instance Leads.decidable (endsWithSlash exactSegments : Bool) :
    ∀ (declared : Declared) (segments : List Str),
      Decidable (Leads M endsWithSlash exactSegments declared segments)
  | declared, [] => inferInstanceAs (Decidable (Trie.here declared ≠ []))
  | declared, head :: tail =>
      have := fun key => Leads.decidable endsWithSlash exactSegments (Trie.strip key declared) tail
      inferInstanceAs (Decidable (Trie.here declared ≠ [] ∨
        (followed M declared head = [] ∧ endsWithSlash = false ∧
          PrefixAnswers exactSegments declared head) ∨
        (followed M declared head ≠ [] ∧ ∀ key ∈ followed M declared head,
          Leads M endsWithSlash exactSegments (Trie.strip key declared) tail)))

instance Untied.decidable : ∀ (declared : Declared) (segments : List Str),
    Decidable (Untied M declared segments)
  | _, [] => isTrue trivial
  | declared, head :: tail =>
      have := fun key => Untied.decidable (Trie.strip key declared) tail
      inferInstanceAs (Decidable ((¬ GoesOn declared head → _) ∧
        ∀ key ∈ followed M declared head, Untied M (Trie.strip key declared) tail))

end Decidable

section Followed

variable {M : Matchers} {declared : Declared} {head : Str}

theorem followed_of_exact (h : GoesOn declared head) : followed M declared head = [head] :=
  if_pos h

theorem mem_followed_of_param (hexact : ¬ GoesOn declared head) {key : Str}
    (hkey : GoesOn declared key) (htakes : paramTakes M key head = true) :
    key ∈ followed M declared head := by
  have hmem := mem_firstKeys.mpr hkey
  rw [followed, if_neg hexact, if_pos (List.any_eq_true.mpr ⟨key, hmem, htakes⟩)]
  exact List.mem_filter.mpr ⟨hmem, htakes⟩

theorem followed_of_no_param (hexact : ¬ GoesOn declared head)
    (hparams : ∀ param, GoesOn declared param → paramTakes M param head = false) :
    followed M declared head = (firstKeys declared).filter (wildcardTakes M · head) := by
  have hnone : (firstKeys declared).any (paramTakes M · head) = false :=
    List.any_eq_false.mpr fun key hkey => by simp [hparams key (mem_firstKeys.mp hkey)]
  rw [followed, if_neg hexact, hnone, if_neg Bool.false_ne_true]

theorem mem_followed_of_wildcard (hexact : ¬ GoesOn declared head)
    (hparams : ∀ param, GoesOn declared param → paramTakes M param head = false) {key : Str}
    (hkey : GoesOn declared key) (htakes : wildcardTakes M key head = true) :
    key ∈ followed M declared head := by
  rw [followed_of_no_param hexact hparams]
  exact List.mem_filter.mpr ⟨mem_firstKeys.mpr hkey, htakes⟩

theorem followed_of_nothing (hexact : ¬ GoesOn declared head)
    (hparams : ∀ param, GoesOn declared param → paramTakes M param head = false)
    (hwildcards : ∀ key, GoesOn declared key → wildcardTakes M key head = false) :
    followed M declared head = [] := by
  rw [followed_of_no_param hexact hparams, List.filter_eq_nil_iff]
  intro key hkey
  simp [hwildcards key (mem_firstKeys.mp hkey)]

end Followed

/-! ## Leading to a route -/

namespace NgTreeNodePath

variable {P : Platform} {M : Matchers} {node : NgTreeNodePath} {declared : Declared}
  {segments : List Str} {endsWithSlash exactSegments : Bool} {path : Str}
  {pathParams found : PathParams} {answer : Option NgMatchedRoutes}

theorem own_ne_none_of_here (hnode : Files node declared) (hhere : Trie.here declared ≠ [])
    (noMore : Bool) : own node path found noMore ≠ none := by
  obtain ⟨route, hroute⟩ := List.exists_mem_of_ne_nil _ hhere
  have hvalue : route ∈ node.values := (hnode.mem_iff [] route).mpr (Trie.mem_here.mp hroute)
  rw [own, if_neg (by simpa [routes] using List.ne_nil_of_mem hvalue)]
  simp

/-- A node with routes of its own always answers. -/
theorem find_ne_none_of_here (hnode : Files node declared) (hhere : Trie.here declared ≠ [])
    (h : find P M.ops segments node endsWithSlash path pathParams exactSegments =
      .ok (found, answer)) : answer ≠ none := by
  cases segments with
  | nil =>
      rw [find, pure_eq_ok, Except.ok.injEq, Prod.mk.injEq] at h
      rw [← h.2]
      exact own_ne_none_of_here hnode hhere true
  | cons head tail =>
      rw [find_cons] at h
      obtain ⟨⟨names, target⟩, -, h⟩ := bind_eq_ok_iff.mp h
      cases target with
      | none =>
          rw [Except.ok.injEq, Prod.mk.injEq] at h
          rw [← h.2]
          exact own_ne_none_of_here hnode hhere false
      | some target =>
          obtain ⟨⟨bound, below⟩, -, h⟩ := bind_eq_ok_iff.mp h
          rw [Except.ok.injEq, Prod.mk.injEq] at h
          rw [← h.2]
          intro hnone
          exact own_ne_none_of_here hnode hhere false (Option.or_eq_none_iff.mp hnone).2

/-- What the search below answers, the search answers. -/
theorem find_ne_none_of_below {head : Str} {tail : List Str} {names : List Str}
    {target : NgTreeNodePath × Bool}
    (h : find P M.ops (head :: tail) node endsWithSlash path pathParams exactSegments =
      .ok (found, answer))
    (hdescend : descend P M node endsWithSlash exactSegments head = .ok (names, some target))
    (hbelow : ∀ bound below, find P M.ops tail target.1 endsWithSlash (path ++ '/' :: head)
      (bindAll names head pathParams) exactSegments = .ok (bound, below) → below ≠ none) :
    answer ≠ none := by
  rw [find_cons, hdescend, ok_bind] at h
  obtain ⟨⟨bound, below⟩, hfind, h⟩ := bind_eq_ok_iff.mp h
  rw [Except.ok.injEq, Prod.mk.injEq] at h
  rw [← h.2]
  intro hnone
  apply hbelow bound below hfind
  exact Option.map_eq_none_iff.mp (Option.or_eq_none_iff.mp hnone).1

/-- A segment that some key takes: the walk goes down one of the followed keys,
into the declarations behind it. -/
theorem exists_followed_of_entryCase {head : Str} {names : List Str} {sub : NgTreeNodePath}
    (hunique : ¬ GoesOn declared head → ∀ key ∈ firstKeys declared, ∀ other ∈ firstKeys declared,
      paramTakes M key head = true → paramTakes M other head = true → key = other)
    (h : EntryCase M declared head names (some sub)) :
    ∃ key ∈ followed M declared head, Files sub (Trie.strip key declared) := by
  cases h with
  | exact hexact hsub => exact ⟨head, by simp [followed_of_exact hexact], hsub⟩
  | params hexact hsome hnames hsub =>
      obtain ⟨key, hkey, htakes⟩ := hsome
      refine ⟨key, mem_followed_of_param hexact hkey htakes, hsub key ?_⟩
      intro other hother htakesOther
      exact hunique hexact other (mem_firstKeys.mpr hother) key (mem_firstKeys.mpr hkey)
        htakesOther htakes
  | wildcard hexact hparams hkey htakes hsub =>
      exact ⟨_, mem_followed_of_wildcard hexact hparams hkey htakes, hsub⟩

theorem mem_prefixKeys {head key : Str} :
    key ∈ prefixKeys declared head ↔
      GoesOn declared key ∧ isWildcardKey key = false ∧ key <+: head := by
  rw [prefixKeys, List.mem_filter, mem_firstKeys, Bool.and_eq_true, Bool.not_eq_true',
    startsWith, List.isPrefixOf_iff_prefix]

/-- The string prefix of the search is the longest of the declarations. -/
theorem prefixKey_longest (hnode : Files node declared) {head key : Str}
    (h : prefixKey P node head = some key) :
    key ∈ prefixKeys declared head ∧
      ∀ other ∈ prefixKeys declared head, other.length ≤ key.length := by
  obtain ⟨hmem, hplain, hstarts⟩ := prefixKey_spec h
  refine ⟨mem_prefixKeys.mpr ⟨hnode.mem_keys_iff.mp hmem, hplain,
    List.isPrefixOf_iff_prefix.mp hstarts⟩, fun other hother => ?_⟩
  obtain ⟨hgoes, hotherPlain, hotherStarts⟩ := mem_prefixKeys.mp hother
  exact length_le_prefixKey h (hnode.mem_keys_iff.mpr hgoes) hotherPlain
    (List.isPrefixOf_iff_prefix.mpr hotherStarts)

theorem exists_prefixKey (hnode : Files node declared) {head key : Str}
    (h : key ∈ prefixKeys declared head) : ∃ found, prefixKey P node head = some found := by
  obtain ⟨hgoes, hplain, hstarts⟩ := mem_prefixKeys.mp h
  rw [← Option.isSome_iff_exists, prefixKey, List.find?_isSome]
  refine ⟨key, mem_keysByLength.mpr (hnode.mem_keys_iff.mpr hgoes), ?_⟩
  rw [hplain, startsWith, List.isPrefixOf_iff_prefix.mpr hstarts]
  rfl

/-- Prefixes of one segment with the same length are one. -/
theorem eq_of_prefix_of_length {head key other : Str} (hkey : key <+: head)
    (hother : other <+: head) (hlength : key.length = other.length) : key = other :=
  (List.prefix_of_prefix_length_le hkey hother hlength.le).eq_of_length hlength

theorem routes_cutForPrefix (hnode : Files node declared) {head key : Str} {sub : NgTreeNodePath}
    (hchild : node.child? key = some sub) {route : NgRoute} :
    route ∈ (cutForPrefix exactSegments head sub).routes ↔
      route ∈ prefixRoutes exactSegments declared head key := by
  have hsub : route ∈ sub.routes ↔ route ∈ Trie.listedAt [key] declared := by
    rw [Trie.mem_listedAt, ← hnode.mem_iff, ← mem_valuesAt_child hchild]
    rfl
  rw [prefixRoutes, List.mem_filter, ← hsub]
  cases exactSegments with
  | false => simp [cutForPrefix, routes]
  | true => simp [cutForPrefix, routes]

/-- A string prefix answers when it has routes. -/
theorem find_cutForPrefix_ne_none_iff (hnode : Files node declared) {head key : Str}
    {sub : NgTreeNodePath} (hchild : node.child? key = some sub) (segments : List Str)
    (h : find P M.ops segments (cutForPrefix exactSegments head sub) endsWithSlash path pathParams
      exactSegments = .ok (found, answer)) :
    answer ≠ none ↔ prefixRoutes exactSegments declared head key ≠ [] := by
  have hleaf : isLeaf (cutForPrefix exactSegments head sub) = true := by
    cases exactSegments <;> rfl
  have hnil : (cutForPrefix exactSegments head sub).routes = [] ↔
      prefixRoutes exactSegments declared head key = [] := by
    rw [List.eq_nil_iff_forall_not_mem, List.eq_nil_iff_forall_not_mem]
    exact forall_congr' fun route => not_congr (routes_cutForPrefix hnode hchild)
  rw [find_of_isLeaf hleaf, Except.ok.injEq, Prod.mk.injEq] at h
  rw [← h.2, own]
  refine Iff.trans ?_ (not_congr hnil)
  by_cases hroutes : (cutForPrefix exactSegments head sub).routes = []
  · simp [hroutes]
  · simp [hroutes]

/-- The longest string prefix of a segment that no key takes answers, if it has
routes. -/
theorem find_ne_none_of_prefix (hnode : Files node declared) {head : Str} {tail names : List Str}
    (hentry : entryAt P M node head = .ok (names, none)) {key : Str}
    (hkey : key ∈ prefixKeys declared head)
    (hlongest : ∀ other ∈ prefixKeys declared head, other.length ≤ key.length)
    (hroutes : prefixRoutes exactSegments declared head key ≠ [])
    (h : find P M.ops (head :: tail) node false path pathParams exactSegments =
      .ok (found, answer)) : answer ≠ none := by
  obtain ⟨longest, hlongestKey⟩ := exists_prefixKey (P := P) hnode hkey
  obtain ⟨hmem, hmax⟩ := prefixKey_longest hnode hlongestKey
  have hsame : longest = key := eq_of_prefix_of_length (mem_prefixKeys.mp hmem).2.2
    (mem_prefixKeys.mp hkey).2.2 (le_antisymm (hlongest longest hmem) (hmax key hkey))
  rw [hsame] at hlongestKey
  obtain ⟨sub, hchild⟩ := exists_child?_of_mem (prefixKey_spec hlongestKey).1
  have hdescend : descend P M node false exactSegments head =
      .ok (names, some (cutForPrefix exactSegments head sub, true)) := by
    rw [descend, hentry]
    simp [hlongestKey, hchild]
  apply find_ne_none_of_below h hdescend
  intro bound below hfind
  exact (find_cutForPrefix_ne_none_iff hnode hchild tail hfind).mpr hroutes

/-- A segment that some key takes, seen from the keys. -/
theorem exists_sub_of_followed {head : Str} {names : List Str} {entry : Option NgTreeNodePath}
    (h : EntryCase M declared head names entry) (hsome : followed M declared head ≠ []) :
    ∃ sub, entry = some sub := by
  cases h with
  | exact | params | wildcard => exact ⟨_, rfl⟩
  | nothing hexact hparams hwildcards =>
      exact absurd (followed_of_nothing hexact hparams hwildcards) hsome

/-- A request that leads to a route finds one. -/
theorem find_ne_none_of_leads (hnode : Files node declared)
    (huntied : Untied M declared segments)
    (hleads : Leads M endsWithSlash exactSegments declared segments)
    (h : find P M.ops segments node endsWithSlash path pathParams exactSegments =
      .ok (found, answer)) : answer ≠ none := by
  induction segments generalizing node declared path pathParams found answer with
  | nil => exact find_ne_none_of_here hnode hleads h
  | cons head tail ih =>
      obtain ⟨⟨names, target⟩, hdescend, -⟩ := bind_eq_ok_iff.mp ((find_cons ..).symm.trans h)
      rcases hleads with hhere | ⟨hnothing, rfl, key, hkey, hlongest, hroutes⟩ | ⟨hsome, hleads⟩
      · exact find_ne_none_of_here hnode hhere h
      · -- the longest string prefix answers
        rcases descend_cases hdescend with ⟨sub, hentry, -⟩ | ⟨hentry, -⟩
        · obtain ⟨other, hother, -⟩ := exists_followed_of_entryCase huntied.1
            (entryCase_of_entryAt hnode hentry)
          simp [hnothing] at hother
        · exact find_ne_none_of_prefix hnode hentry hkey hlongest hroutes h
      · rcases descend_cases hdescend with ⟨sub, hentry, rfl⟩ | ⟨hentry, -⟩
        · obtain ⟨key, hkey, hsub⟩ := exists_followed_of_entryCase huntied.1
            (entryCase_of_entryAt hnode hentry)
          apply find_ne_none_of_below h hdescend
          intro bound below
          exact ih hsub (huntied.2 key hkey) (hleads key hkey)
        · obtain ⟨sub, hsub⟩ := exists_sub_of_followed (entryCase_of_entryAt hnode hentry) hsome
          cases hsub

end NgTreeNodePath

/-- The tree of a domain files what the table declares under it. -/
theorem NgTreeRouter.files_build {P : Platform} {routes : List NgRoute} {domain : Str}
    {ptree : NgTreeNodePath} (h : KeyedList.get? domain (build P routes).tree = some ptree) :
    NgTreeNodePath.Files ptree (declarations P routes domain) := by
  rw [get?_build] at h
  split at h
  · cases h
  · cases h
    exact NgTreeNodePath.files_ofList _

end Otoroshi
