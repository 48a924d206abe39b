/-
# The router at run time

A running router shares one pool of compiled patterns with the whole process and
memoises two lookups on each node. `RouterState` is that hidden state: the pool,
the values every cache has held, and a source of choices that decides at each
lookup whether a cached value is used or a fresh one computed. Eviction and
expiry are such choices, so a result for all choices covers them. The caches are
keyed by the node as a value; two equal nodes then share their entries, which
only adds behaviours.

`find_shows` is the refinement: as long as no text is read by both rules of the
pool in two ways, a call of `find` ends as the search over `Matchers` does,
which has no state, and the state stays ready for the next call.
-/

import Otoroshi.Router.Table

namespace Otoroshi

open Stateful

/-- The state a search reads and changes. -/
structure RouterState (P : Platform) where
  pool : RegexPool P.engine
  wildcardCache : List ((NgTreeNodePath × Str) × Option NgTreeNodePath)
  segmentStartsWithCache : List ((NgTreeNodePath × Str) × (Option NgTreeNodePath × Bool))
  choices : Nat → Option Nat
  lookups : Nat

/-- A search over the state. -/
abbrev RouterM (P : Platform) := Stateful (RouterState P) JvmException

namespace RouterState

variable {P : Platform}

/-- A router just built: nothing cached yet, the pool as the process left it. -/
def fresh (pool : RegexPool P.engine) (choices : Nat → Option Nat) : RouterState P where
  pool
  wildcardCache := []
  segmentStartsWithCache := []
  choices
  lookups := 0

/-- `wildcardCache`, as a cache of the state. -/
def wildcards : Cache (RouterState P) (NgTreeNodePath × Str) (Option NgTreeNodePath) where
  log state := state.wildcardCache
  record key value state := { state with wildcardCache := (key, value) :: state.wildcardCache }
  choice state := state.choices state.lookups
  tick state := { state with lookups := state.lookups + 1 }

/-- `segmentStartsWithCache`, as a cache of the state. -/
def segmentStarts :
    Cache (RouterState P) (NgTreeNodePath × Str) (Option NgTreeNodePath × Bool) where
  log state := state.segmentStartsWithCache
  record key value state :=
    { state with segmentStartsWithCache := (key, value) :: state.segmentStartsWithCache }
  choice state := state.choices state.lookups
  tick state := { state with lookups := state.lookups + 1 }

/-- Ask the pool for a pattern and match a value. -/
def matchIn (entryPoint : RegexPool P.engine →
      Except JvmException (Regex P.engine) × RegexPool P.engine) (value : Str) :
    RouterM P Bool := fun state =>
  (((entryPoint state.pool).1).map (·.matchesValue value),
    { state with pool := (entryPoint state.pool).2 })

/-- The operations of a search, on the pool and the caches. -/
def ops (P : Platform) : SearchOps (RouterM P) where
  wildcardMatches key segment := matchIn (RegexPool.apply key) segment
  regexMatches regex segment := matchIn (RegexPool.regex regex) segment
  raise e := Stateful.throw e
  wildcardCache node segment compute := wildcards.get (node, segment) compute
  segmentStartsWithCache node segment compute := segmentStarts.get (node, segment) compute

end RouterState

/-! ## Requests and histories -/

/-- One call of `find`. -/
structure FindCall where
  domain : Str
  path : Str
  trailingSlashMeansExactSegments : Bool

namespace NgTreeRouter

variable (P : Platform)

/-- Run one call. -/
def serve (router : NgTreeRouter) (call : FindCall) : RouterM P (Option NgMatchedRoutes) :=
  find P (RouterState.ops P) router call.domain call.path call.trailingSlashMeansExactSegments

/-- The state after a history of calls, whatever they returned or threw. -/
def after (router : NgTreeRouter) (state : RouterState P) (history : List FindCall) :
    RouterState P :=
  afterAll (serve P router) state history

end NgTreeRouter

/-! ## The pool along a run -/

namespace RegexPool

variable {E : RegexEngine}

/-- The answer of a call: the pattern of the pool, else a compilation. -/
theorem getOrCompile_fst (text processed : Str) (pool : RegexPool E) :
    (getOrCompile text processed pool).1 =
      match pool.lookup text with
      | some regex => .ok regex
      | none => compile E text processed := by
  rw [getOrCompile]
  cases pool.lookup text with
  | some regex => rfl
  | none => cases compile E text processed <;> rfl

theorem getOrCompile_of_lookup {text processed : Str} {pool : RegexPool E} {regex : Regex E}
    (h : pool.lookup text = some regex) :
    getOrCompile text processed pool = (.ok regex, pool) := by
  rw [getOrCompile, h]

theorem lookup_getOrCompile_ne {text other processed : Str} (hne : other ≠ text)
    (pool : RegexPool E) :
    (getOrCompile text processed pool).2.lookup other = pool.lookup other := by
  rw [getOrCompile]
  cases pool.lookup text with
  | some regex => rfl
  | none =>
      cases compile E text processed with
      | error e => rfl
      | ok regex =>
          have hbeq : (other == text) = false := by simpa using hne
          simp [List.lookup_cons, hbeq]

/-- A call leaves the answers on every other text as they are. -/
theorem getOrCompile_after_ne {text other processed otherProcessed : Str} (hne : other ≠ text)
    (pool : RegexPool E) :
    (getOrCompile other otherProcessed (getOrCompile text processed pool).2).1 =
      (getOrCompile other otherProcessed pool).1 := by
  rw [getOrCompile_fst, getOrCompile_fst, lookup_getOrCompile_ne hne]

/-- A call leaves the answers on its own text as they are, for either rule, when
the other rule accepts the same value. -/
theorem getOrCompile_after_self {text processed other : Str} {pool : RegexPool E} {value : Str}
    (hsame : ∀ regex, (getOrCompile text processed pool).1 = .ok regex →
      ((getOrCompile text other pool).1).map (·.matchesValue value) =
        .ok (regex.matchesValue value)) :
    ((getOrCompile text other (getOrCompile text processed pool).2).1).map
        (·.matchesValue value) =
      ((getOrCompile text other pool).1).map (·.matchesValue value) := by
  cases hlookup : pool.lookup text with
  | some regex => rw [getOrCompile_of_lookup hlookup]
  | none =>
      cases hcompile : compile E text processed with
      | error e =>
          have hpool : (getOrCompile text processed pool).2 = pool := by
            rw [getOrCompile, hlookup, hcompile]
          rw [hpool]
      | ok regex =>
          have hrun : getOrCompile text processed pool = (.ok regex, (text, regex) :: pool) := by
            rw [getOrCompile, hlookup, hcompile]
          have hstored : ((text, regex) :: pool).lookup text = some regex := by simp
          rw [hsame regex (by rw [hrun]), hrun, getOrCompile_of_lookup hstored]
          rfl

end RegexPool

/-! ## States ready to answer -/

variable {P : Platform}

/-- The pool still answers as at the start on the texts of the router, and the
caches hold what the stateless search computes. -/
structure RouterState.Ready (start : RegexPool P.engine) (texts : PatternTexts)
    (state : RouterState P) : Prop where
  wildcard_eq : ∀ text, texts.wildcard text → ∀ value,
    (Matchers.ofPool state.pool).wildcard text value = (Matchers.ofPool start).wildcard text value
  regex_eq : ∀ text, texts.regex text → ∀ value,
    (Matchers.ofPool state.pool).regex text value = (Matchers.ofPool start).regex text value
  wildcardCache_eq : ∀ node segment value, ((node, segment), value) ∈ state.wildcardCache →
    NgTreeNodePath.wildcardEntriesMatching P (Matchers.ofPool start).ops node segment = .ok value
  segmentStartsWithCache_eq : ∀ node segment value,
    ((node, segment), value) ∈ state.segmentStartsWithCache →
    NgTreeNodePath.segmentStartsWith P (Matchers.ofPool start).ops node segment = .ok value

namespace RouterState

theorem ready_fresh (pool : RegexPool P.engine) (texts : PatternTexts)
    (choices : Nat → Option Nat) : Ready pool texts (fresh pool choices) where
  wildcard_eq _ _ _ := rfl
  regex_eq _ _ _ := rfl
  wildcardCache_eq := by simp [fresh]
  segmentStartsWithCache_eq := by simp [fresh]

/-- A fresh state is also ready for the texts' own rules, if its pool keeps to
them. -/
theorem ready_of_ownRules {pool : RegexPool P.engine} {texts : PatternTexts}
    (h : texts.OwnRules pool) (choices : Nat → Option Nat) :
    Ready [] texts (fresh pool choices) where
  wildcard_eq := h.wildcard
  regex_eq := h.regex
  wildcardCache_eq := by simp [fresh]
  segmentStartsWithCache_eq := by simp [fresh]

variable {start : RegexPool P.engine} {texts : PatternTexts}

/-- A call that leaves every answer on the router's texts as it was keeps the
state ready. -/
private theorem Ready.withPool {state : RouterState P} (h : Ready start texts state)
    {pool : RegexPool P.engine}
    (hwildcard : ∀ text, texts.wildcard text → ∀ value,
      (Matchers.ofPool pool).wildcard text value =
        (Matchers.ofPool state.pool).wildcard text value)
    (hregex : ∀ text, texts.regex text → ∀ value,
      (Matchers.ofPool pool).regex text value = (Matchers.ofPool state.pool).regex text value) :
    Ready start texts { state with pool := pool } where
  wildcard_eq text htext value :=
    (hwildcard text htext value).trans (h.wildcard_eq text htext value)
  regex_eq text htext value := (hregex text htext value).trans (h.regex_eq text htext value)
  wildcardCache_eq := h.wildcardCache_eq
  segmentStartsWithCache_eq := h.segmentStartsWithCache_eq

theorem Ready.unambiguous {state : RouterState P} (h : Ready start texts state)
    (hstart : texts.Unambiguous start) : texts.Unambiguous state.pool := by
  intro text hwildcard hregex value accepted
  rw [h.wildcard_eq text hwildcard, h.regex_eq text hregex]
  exact hstart text hwildcard hregex value accepted

theorem shows_wildcardMatches (hstart : texts.Unambiguous start) {key : Str}
    (hkey : texts.wildcard key) (segment : Str) :
    Shows (Ready start texts) ((ops P).wildcardMatches key segment)
      ((Matchers.ofPool start).ops.wildcardMatches key segment) := by
  intro state hstate
  refine ⟨hstate.wildcard_eq key hkey segment, hstate.withPool ?_ ?_⟩
  · intro text _ value
    by_cases htext : text = key
    · rw [htext]
      exact RegexPool.getOrCompile_after_self fun regex hregex => congrArg (Except.map _) hregex
    · exact congrArg (Except.map _) (RegexPool.getOrCompile_after_ne htext _)
  · intro text hregex value
    by_cases htext : text = key
    · rw [htext] at hregex ⊢
      exact RegexPool.getOrCompile_after_self fun regex hfound =>
        (hstate.unambiguous hstart key hkey hregex value _).mp (congrArg (Except.map _) hfound)
    · exact congrArg (Except.map _) (RegexPool.getOrCompile_after_ne htext _)

theorem shows_regexMatches (hstart : texts.Unambiguous start) {regex : Str}
    (hkey : texts.regex regex) (segment : Str) :
    Shows (Ready start texts) ((ops P).regexMatches regex segment)
      ((Matchers.ofPool start).ops.regexMatches regex segment) := by
  intro state hstate
  refine ⟨hstate.regex_eq regex hkey segment, hstate.withPool ?_ ?_⟩
  · intro text hwildcard value
    by_cases htext : text = regex
    · rw [htext] at hwildcard ⊢
      exact RegexPool.getOrCompile_after_self fun found hfound =>
        (hstate.unambiguous hstart regex hwildcard hkey value _).mpr
          (congrArg (Except.map _) hfound)
    · exact congrArg (Except.map _) (RegexPool.getOrCompile_after_ne htext _)
  · intro text _ value
    by_cases htext : text = regex
    · rw [htext]
      exact RegexPool.getOrCompile_after_self fun found hfound => congrArg (Except.map _) hfound
    · exact congrArg (Except.map _) (RegexPool.getOrCompile_after_ne htext _)

/-- A cached lookup whose computation is right leaves a right entry behind. -/
theorem shows_wildcardEntriesMatching {node : NgTreeNodePath} {segment : Str}
    (hfind : Shows (Ready start texts)
      (NgTreeNodePath.findWildcardKey (ops P) segment (node.wildcardKeys P))
      (NgTreeNodePath.findWildcardKey (Matchers.ofPool start).ops segment
        (node.wildcardKeys P))) :
    Shows (Ready start texts)
      (NgTreeNodePath.wildcardEntriesMatching P (ops P) node segment)
      (NgTreeNodePath.wildcardEntriesMatching P (Matchers.ofPool start).ops node segment) := by
  refine shows_cacheGet wildcards (node, segment)
    (shows_bind hfind fun key _ => shows_pure (key.bind node.child?)) ?_ ?_ ?_
  · intro state hstate value hvalue
    exact hstate.wildcardCache_eq node segment value hvalue
  · intro state hstate
    exact ⟨hstate.wildcard_eq, hstate.regex_eq, hstate.wildcardCache_eq,
      hstate.segmentStartsWithCache_eq⟩
  · intro state value hstate hvalue
    refine ⟨hstate.wildcard_eq, hstate.regex_eq, ?_, hstate.segmentStartsWithCache_eq⟩
    intro other segment' value' hentry
    rcases List.mem_cons.mp hentry with heq | hold
    · cases heq
      exact hvalue
    · exact hstate.wildcardCache_eq other segment' value' hold

theorem shows_segmentStartsWith {node : NgTreeNodePath} {head : Str}
    (hscan : Shows (Ready start texts)
      (NgTreeNodePath.scanSegmentStarts (ops P) head (node.keysByLength P) false)
      (NgTreeNodePath.scanSegmentStarts (Matchers.ofPool start).ops head
        (node.keysByLength P) false)) :
    Shows (Ready start texts)
      (NgTreeNodePath.segmentStartsWith P (ops P) node head)
      (NgTreeNodePath.segmentStartsWith P (Matchers.ofPool start).ops node head) := by
  refine shows_cacheGet segmentStarts (node, head)
    (shows_bind hscan fun found _ => shows_pure (found.1.bind node.child?, found.2)) ?_ ?_ ?_
  · intro state hstate value hvalue
    exact hstate.segmentStartsWithCache_eq node head value hvalue
  · intro state hstate
    exact ⟨hstate.wildcard_eq, hstate.regex_eq, hstate.wildcardCache_eq,
      hstate.segmentStartsWithCache_eq⟩
  · intro state value hstate hvalue
    refine ⟨hstate.wildcard_eq, hstate.regex_eq, hstate.wildcardCache_eq, ?_⟩
    intro other segment value' hentry
    rcases List.mem_cons.mp hentry with heq | hold
    · cases heq
      exact hvalue
    · exact hstate.segmentStartsWithCache_eq other segment value' hold

end RouterState

namespace NgTreeNodePath

variable {texts : PatternTexts} {P : Platform}

/-! ## The search refines the stateless one -/

section Refinement

open RouterState

variable {start : RegexPool P.engine}

theorem shows_findWildcardKey (hstart : texts.Unambiguous start) (segment : Str)
    {keys : List Str} (hkeys : ∀ key ∈ keys, texts.wildcard key) :
    Shows (Ready start texts) (findWildcardKey (ops P) segment keys)
      (findWildcardKey (Matchers.ofPool start).ops segment keys) := by
  induction keys with
  | nil => exact shows_pure none
  | cons key keys ih =>
      rw [List.forall_mem_cons] at hkeys
      refine shows_bind (shows_wildcardMatches hstart hkeys.1 segment) fun accepted _ => ?_
      cases accepted with
      | true => exact shows_pure (some key)
      | false => exact ih hkeys.2

theorem shows_readRegexKeys (keys : List Str) :
    Shows (Ready start texts) (readRegexKeys (ops P) keys)
      (readRegexKeys (Matchers.ofPool start).ops keys) := by
  induction keys with
  | nil => exact shows_pure []
  | cons key keys ih =>
      rw [readRegexKeys, readRegexKeys]
      cases regexOfKey key with
      | error e => exact shows_throw e
      | ok regex => exact shows_bind ih fun rest _ => shows_pure ((key, regex) :: rest)

theorem shows_filterRegexKeys (hstart : texts.Unambiguous start) (segment : Str)
    {pairs : List (Str × Str)} (hpairs : ∀ pair ∈ pairs, texts.regex pair.2) :
    Shows (Ready start texts) (filterRegexKeys (ops P) segment pairs)
      (filterRegexKeys (Matchers.ofPool start).ops segment pairs) := by
  induction pairs with
  | nil => exact shows_pure []
  | cons pair pairs ih =>
      rw [List.forall_mem_cons] at hpairs
      refine shows_bind (shows_regexMatches hstart hpairs.1 segment) fun accepted _ => ?_
      exact shows_bind (ih hpairs.2) fun rest _ => shows_pure _

theorem shows_matchingRegexKeys (hstart : texts.Unambiguous start) {node : NgTreeNodePath}
    (hnode : texts.CoversTree node) (segment : Str) :
    Shows (Ready start texts) (matchingRegexKeys P (ops P) node segment)
      (matchingRegexKeys P (Matchers.ofPool start).ops node segment) := by
  refine shows_bind (shows_readRegexKeys _) fun pairs hpairs => ?_
  refine shows_bind (shows_filterRegexKeys hstart segment ?_) fun keys _ => shows_pure _
  intro pair hpair
  obtain ⟨hkey, htext⟩ := mem_readRegexKeys hpairs hpair
  obtain ⟨hmem, hregex⟩ := mem_regexKeys.mp hkey
  exact (hnode.of_mem_keys hmem).regex hregex pair.2 htext

theorem shows_paramEntry (hstart : texts.Unambiguous start) {node : NgTreeNodePath}
    (hnode : texts.CoversTree node) (head : Str) (pathParams : PathParams) :
    Shows (Ready start texts) (paramEntry P (ops P) node head pathParams)
      (paramEntry P (Matchers.ofPool start).ops node head pathParams) := by
  refine shows_bind (shows_matchingRegexKeys hstart hnode head) fun matching _ => ?_
  by_cases hempty : ((namedKeys P node).isEmpty && matching.isEmpty) = true
  · simp only [hempty, if_true]
    exact shows_pure _
  · simp only [hempty]
    exact shows_pure _

theorem shows_scanSegmentStarts (hstart : texts.Unambiguous start) (head : Str)
    {keys : List Str} (hkeys : ∀ key ∈ keys, texts.Covers key) (sw : Bool) :
    Shows (Ready start texts) (scanSegmentStarts (ops P) head keys sw)
      (scanSegmentStarts (Matchers.ofPool start).ops head keys sw) := by
  induction keys generalizing sw with
  | nil => exact shows_pure (none, sw)
  | cons key keys ih =>
      rw [List.forall_mem_cons] at hkeys
      rw [scanSegmentStarts, scanSegmentStarts]
      by_cases hwildcard : isWildcardKey key = true
      · rw [if_pos hwildcard, if_pos hwildcard]
        refine shows_bind (shows_wildcardMatches hstart (hkeys.1.wildcard hwildcard) head)
          fun accepted _ => ?_
        cases accepted with
        | true => exact shows_pure (some key, sw)
        | false => exact ih hkeys.2 sw
      · rw [if_neg hwildcard, if_neg hwildcard]
        by_cases hstarts : startsWith head key = true
        · rw [if_pos hstarts, if_pos hstarts]
          exact shows_pure (some key, true)
        · rw [if_neg hstarts, if_neg hstarts]
          exact ih hkeys.2 true

theorem shows_exactOrParams (hstart : texts.Unambiguous start) {node : NgTreeNodePath}
    (hnode : texts.CoversTree node) (head : Str) (pathParams : PathParams) :
    Shows (Ready start texts) (exactOrParams P (ops P) node head pathParams)
      (exactOrParams P (Matchers.ofPool start).ops node head pathParams) := by
  rw [exactOrParams, exactOrParams]
  cases node.child? head with
  | some sub => exact shows_pure _
  | none =>
      by_cases hkeys : (!(namedKeys P node).isEmpty || !(regexKeys P node).isEmpty) = true
      · simp only [hkeys, if_true]
        exact shows_paramEntry hstart hnode head pathParams
      · simp only [hkeys]
        exact shows_pure _

theorem shows_entryFor (hstart : texts.Unambiguous start) {node : NgTreeNodePath}
    (hnode : texts.CoversTree node) (head : Str) (pathParams : PathParams) :
    Shows (Ready start texts) (entryFor P (ops P) node head pathParams)
      (entryFor P (Matchers.ofPool start).ops node head pathParams) := by
  refine shows_bind (shows_exactOrParams hstart hnode head pathParams) fun found _ => ?_
  obtain ⟨bound, entry⟩ := found
  by_cases hwildcards : (entry.isNone && !(wildcardKeys P node).isEmpty) = true
  · simp only [hwildcards, if_true]
    refine shows_bind (shows_wildcardEntriesMatching
      (shows_findWildcardKey hstart head fun key hkey => ?_)) fun sub _ => shows_pure _
    obtain ⟨hmem, hwildcard⟩ := mem_wildcardKeys.mp hkey
    exact (hnode.of_mem_keys hmem).wildcard hwildcard
  · simp only [hwildcards]
    exact shows_pure _

/-- The search on the pool and the caches ends as the stateless search does, and
leaves a state from which that is true again. -/
theorem find_shows (hstart : texts.Unambiguous start) (segments : List Str)
    {node : NgTreeNodePath} (hnode : texts.CoversTree node) (endsWithSlash : Bool) (path : Str)
    (pathParams : PathParams) (exactSegments : Bool) :
    Shows (Ready start texts)
      (find P (ops P) segments node endsWithSlash path pathParams exactSegments)
      (find P (Matchers.ofPool start).ops segments node endsWithSlash path pathParams
        exactSegments) := by
  induction segments generalizing node path pathParams with
  | nil => exact shows_pure _
  | cons head tail ih =>
      rw [find, find]
      refine shows_bind (shows_entryFor hstart hnode head pathParams) fun entry hentry => ?_
      rw [entryFor_eq, map_eq_ok_iff] at hentry
      obtain ⟨⟨names, mptree⟩, hat, rfl⟩ := hentry
      cases mptree with
      | some sub =>
          have hsub := keysIn_of_entryAt hnode hat
          by_cases hempty : isEmpty sub = true
          · simp only [hempty, if_true]
            exact shows_pure _
          · by_cases hleaf : isLeaf sub = true
            · simp only [hempty, hleaf, Bool.false_eq_true, if_false, if_true]
              exact shows_pure _
            · simp only [hempty, hleaf, Bool.false_eq_true, if_false]
              refine shows_bind (ih hsub _ _) fun found _ => ?_
              obtain ⟨bound, answer⟩ := found
              cases answer <;> exact shows_pure _
      | none =>
          by_cases hstop : (endsWithSlash || isLeaf node) = true
          · simp only [hstop, if_true]
            exact shows_pure _
          · simp only [hstop, Bool.false_eq_true, if_false]
            have hkeys : ∀ key ∈ keysByLength P node, texts.Covers key := fun key hkey =>
              hnode.of_mem_keys (mem_keysByLength.mp hkey)
            refine shows_bind (shows_segmentStartsWith
              (shows_scanSegmentStarts hstart head hkeys false)) fun started hstarted => ?_
            obtain ⟨sub, prefixed⟩ := started
            rw [segmentStartsWith_eq hat, Except.ok.injEq, Prod.mk.injEq] at hstarted
            cases sub with
            | none => exact shows_pure _
            | some sub =>
                obtain ⟨key, -, hchild⟩ := Option.bind_eq_some_iff.mp hstarted.1
                have hcut : texts.CoversTree
                    (if prefixed = true then cutForPrefix exactSegments head sub else sub) := by
                  split
                  · exact keysIn_cutForPrefix exactSegments head sub
                  · exact hnode.child hchild
                refine shows_bind (ih hcut _ _) fun found _ => ?_
                obtain ⟨bound, answer⟩ := found
                cases answer <;> exact shows_pure _

end Refinement

end NgTreeNodePath

end Otoroshi
