/-
# The running search without conditions

Where the pool reads one text in two ways, the answers of a running router depend
on what was asked before, and no search without state is fixed beforehand. What a
single call did is fixed afterwards: every pattern it used is in the pool it left,
and stays there.

Matchers back a state when they answer as the patterns of its pool do, whatever
entry point is asked. `find_settles` says that a call that returns has returned
what the stateless search returns with any matchers that back the state it left,
for every table and after every history.
-/

import Otoroshi.Foundation.Backing
import Otoroshi.Router.Runtime

namespace Otoroshi

open Stateful

namespace RegexPool

variable {E : RegexEngine}

/-- A pattern that was handed out is in the pool. -/
theorem lookup_of_getOrCompile {text processed : Str} {pool : RegexPool E} {regex : Regex E}
    (h : (getOrCompile text processed pool).1 = .ok regex) :
    (getOrCompile text processed pool).2.lookup text = some regex := by
  cases hlookup : pool.lookup text with
  | some stored =>
      rw [getOrCompile_of_lookup hlookup] at h ⊢
      rw [hlookup, ← Except.ok.inj h]
  | none =>
      simp only [getOrCompile, hlookup] at h ⊢
      cases hcompile : compile E text processed with
      | error e => simp [hcompile] at h
      | ok compiled =>
          simp only [hcompile] at h ⊢
          rw [List.lookup_cons, beq_self_eq_true, ← Except.ok.inj h]

/-- A pattern in the pool stays there. -/
theorem lookup_getOrCompile_of_lookup {text other processed : Str} {pool : RegexPool E}
    {regex : Regex E} (h : pool.lookup other = some regex) :
    (getOrCompile text processed pool).2.lookup other = some regex := by
  by_cases hother : other = text
  · subst hother
    rw [getOrCompile_of_lookup h]
    exact h
  · rw [lookup_getOrCompile_ne hother, h]

end RegexPool

variable {P : Platform}

namespace RouterState

/-- The matchers answer as the patterns in the pool do. -/
def Backs (M : Matchers) (state : RouterState P) : Prop :=
  ∀ text regex, state.pool.lookup text = some regex → ∀ value,
    M.wildcard text value = .ok (regex.matchesValue value) ∧
      M.regex text value = .ok (regex.matchesValue value)

theorem backs_ofPool (state : RouterState P) : Backs (Matchers.ofPool state.pool) state := by
  intro text regex hlookup value
  constructor
  · show Except.map _ (RegexPool.getOrCompile _ _ _).1 = _
    rw [RegexPool.getOrCompile_of_lookup hlookup]
    rfl
  · show Except.map _ (RegexPool.getOrCompile _ _ _).1 = _
    rw [RegexPool.getOrCompile_of_lookup hlookup]
    rfl

/-- The caches hold what the stateless search computes, with any matchers that
back the state. -/
structure Coherent (state : RouterState P) : Prop where
  wildcardCache_eq : ∀ node segment value, ((node, segment), value) ∈ state.wildcardCache →
    ∀ M, Backs M state →
      NgTreeNodePath.wildcardEntriesMatching P M.ops node segment = .ok value
  segmentStartsWithCache_eq : ∀ node segment value,
    ((node, segment), value) ∈ state.segmentStartsWithCache → ∀ M, Backs M state →
      NgTreeNodePath.segmentStartsWith P M.ops node segment = .ok value

theorem coherent_fresh (pool : RegexPool P.engine) (choices : Nat → Option Nat) :
    Coherent (fresh pool choices) where
  wildcardCache_eq := by simp [fresh]
  segmentStartsWithCache_eq := by simp [fresh]

/-- A program of the router, and the stateless one it comes out as. -/
abbrev Settled {α : Type} (program : RouterM P α) (value : Matchers → Except JvmException α) :
    Prop :=
  Settles Coherent Backs program value

/-- What an entry point of the pool answers is what the pool keeps. -/
theorem settled_matchIn {text processed value : Str} {answers : Matchers → Except JvmException Bool}
    (hanswers : ∀ M (regex : Regex P.engine), (∀ value,
      M.wildcard text value = .ok (regex.matchesValue value) ∧
        M.regex text value = .ok (regex.matchesValue value)) →
      answers M = .ok (regex.matchesValue value)) :
    Settled (P := P) (matchIn (RegexPool.getOrCompile text processed) value) answers := by
  have hbefore : ∀ (state : RouterState P) M,
      Backs M (matchIn (RegexPool.getOrCompile text processed) value state).2 → Backs M state :=
    fun state M hM other regex hlookup =>
      hM other regex (RegexPool.lookup_getOrCompile_of_lookup hlookup)
  constructor
  · intro state hstate
    exact {
      wildcardCache_eq := fun node segment entry hentry M hM =>
        hstate.wildcardCache_eq node segment entry hentry M (hbefore state M hM)
      segmentStartsWithCache_eq := fun node segment entry hentry M hM =>
        hstate.segmentStartsWithCache_eq node segment entry hentry M (hbefore state M hM) }
  · intro state _ M hM
    exact hbefore state M hM
  · intro state _ accepted haccepted M hM
    obtain ⟨regex, hregex, rfl⟩ := map_eq_ok_iff.mp haccepted
    exact hanswers M regex (hM text regex (RegexPool.lookup_of_getOrCompile hregex))

theorem settled_wildcardMatches (key segment : Str) :
    Settled (P := P) ((ops P).wildcardMatches key segment)
      fun M => M.ops.wildcardMatches key segment :=
  settled_matchIn fun _ _ hanswers => (hanswers segment).1

theorem settled_regexMatches (regex segment : Str) :
    Settled (P := P) ((ops P).regexMatches regex segment)
      fun M => M.ops.regexMatches regex segment :=
  settled_matchIn fun _ _ hanswers => (hanswers segment).2

end RouterState

namespace NgTreeNodePath

open RouterState

theorem settled_findWildcardKey (segment : Str) (keys : List Str) :
    Settled (findWildcardKey (ops P) segment keys)
      fun M => findWildcardKey M.ops segment keys := by
  induction keys with
  | nil => exact settles_pure none
  | cons key keys ih =>
      refine settles_bind (settled_wildcardMatches key segment) fun accepted => ?_
      cases accepted with
      | true => exact settles_pure (some key)
      | false => exact ih

theorem settled_wildcardEntriesMatching (node : NgTreeNodePath) (segment : Str) :
    Settled (wildcardEntriesMatching P (ops P) node segment)
      fun M => wildcardEntriesMatching P M.ops node segment := by
  refine settles_cacheGet wildcards (node, segment)
    (settles_bind (settled_findWildcardKey segment _) fun key =>
      settles_pure (key.bind node.child?)) ?_ ?_ (fun _ _ => Iff.rfl) ?_ fun _ _ _ => Iff.rfl
  · intro state hstate value hvalue M hM
    exact hstate.wildcardCache_eq node segment value hvalue M hM
  · intro state hstate
    exact ⟨hstate.wildcardCache_eq, hstate.segmentStartsWithCache_eq⟩
  · intro state value hstate hvalue
    refine ⟨?_, hstate.segmentStartsWithCache_eq⟩
    intro other segment' value' hentry M hM
    rcases List.mem_cons.mp hentry with heq | hold
    · cases heq
      exact hvalue M hM
    · exact hstate.wildcardCache_eq other segment' value' hold M hM

theorem settled_readRegexKeys (keys : List Str) :
    Settled (readRegexKeys (ops P) keys) fun M => readRegexKeys M.ops keys := by
  induction keys with
  | nil => exact settles_pure []
  | cons key keys ih =>
      simp only [readRegexKeys]
      cases regexOfKey key with
      | error e => exact settles_throw e
      | ok regex => exact settles_bind ih fun rest => settles_pure ((key, regex) :: rest)

theorem settled_filterRegexKeys (segment : Str) (pairs : List (Str × Str)) :
    Settled (filterRegexKeys (ops P) segment pairs)
      fun M => filterRegexKeys M.ops segment pairs := by
  induction pairs with
  | nil => exact settles_pure []
  | cons pair pairs ih =>
      exact settles_bind (settled_regexMatches pair.2 segment) fun accepted =>
        settles_bind ih fun rest => settles_pure _

theorem settled_matchingRegexKeys (node : NgTreeNodePath) (segment : Str) :
    Settled (matchingRegexKeys P (ops P) node segment)
      fun M => matchingRegexKeys P M.ops node segment :=
  settles_bind (settled_readRegexKeys _) fun pairs =>
    settles_bind (settled_filterRegexKeys segment pairs) fun keys =>
      settles_pure (P.keyOrder keys)

theorem settled_paramEntry (node : NgTreeNodePath) (head : Str) (pathParams : PathParams) :
    Settled (paramEntry P (ops P) node head pathParams)
      fun M => paramEntry P M.ops node head pathParams := by
  refine settles_bind (settled_matchingRegexKeys node head) fun matching => ?_
  by_cases hempty : ((namedKeys P node).isEmpty && matching.isEmpty) = true
  · simp only [hempty, if_true]
    exact settles_pure _
  · simp only [hempty]
    exact settles_pure _

theorem settled_exactOrParams (node : NgTreeNodePath) (head : Str) (pathParams : PathParams) :
    Settled (exactOrParams P (ops P) node head pathParams)
      fun M => exactOrParams P M.ops node head pathParams := by
  simp only [exactOrParams]
  cases node.child? head with
  | some sub => exact settles_pure _
  | none =>
      by_cases hkeys : (!(namedKeys P node).isEmpty || !(regexKeys P node).isEmpty) = true
      · simp only [hkeys, if_true]
        exact settled_paramEntry node head pathParams
      · simp only [hkeys]
        exact settles_pure _

theorem settled_entryFor (node : NgTreeNodePath) (head : Str) (pathParams : PathParams) :
    Settled (entryFor P (ops P) node head pathParams)
      fun M => entryFor P M.ops node head pathParams := by
  refine settles_bind (settled_exactOrParams node head pathParams) fun found => ?_
  obtain ⟨bound, entry⟩ := found
  by_cases hwildcards : (entry.isNone && !(wildcardKeys P node).isEmpty) = true
  · simp only [hwildcards, if_true]
    exact settles_bind (settled_wildcardEntriesMatching node head) fun sub => settles_pure _
  · simp only [hwildcards]
    exact settles_pure _

theorem settled_scanSegmentStarts (head : Str) (keys : List Str) (sw : Bool) :
    Settled (scanSegmentStarts (ops P) head keys sw)
      fun M => scanSegmentStarts M.ops head keys sw := by
  induction keys generalizing sw with
  | nil => exact settles_pure (none, sw)
  | cons key keys ih =>
      simp only [scanSegmentStarts]
      by_cases hwildcard : isWildcardKey key = true
      · simp only [hwildcard, if_true]
        refine settles_bind (settled_wildcardMatches key head) fun accepted => ?_
        cases accepted with
        | true => exact settles_pure (some key, sw)
        | false => exact ih sw
      · by_cases hstarts : startsWith head key = true
        · simp only [hwildcard, hstarts, Bool.false_eq_true, if_false, if_true]
          exact settles_pure (some key, true)
        · simp only [hwildcard, hstarts, Bool.false_eq_true, if_false]
          exact ih true

theorem settled_segmentStartsWith (node : NgTreeNodePath) (head : Str) :
    Settled (segmentStartsWith P (ops P) node head)
      fun M => segmentStartsWith P M.ops node head := by
  refine settles_cacheGet segmentStarts (node, head)
    (settles_bind (settled_scanSegmentStarts head _ false) fun found =>
      settles_pure (found.1.bind node.child?, found.2)) ?_ ?_ (fun _ _ => Iff.rfl) ?_
    fun _ _ _ => Iff.rfl
  · intro state hstate value hvalue M hM
    exact hstate.segmentStartsWithCache_eq node head value hvalue M hM
  · intro state hstate
    exact ⟨hstate.wildcardCache_eq, hstate.segmentStartsWithCache_eq⟩
  · intro state value hstate hvalue
    refine ⟨hstate.wildcardCache_eq, ?_⟩
    intro other segment value' hentry M hM
    rcases List.mem_cons.mp hentry with heq | hold
    · cases heq
      exact hvalue M hM
    · exact hstate.segmentStartsWithCache_eq other segment value' hold M hM

/-- What a running search returns, the stateless search returns with any matchers
that back the state it left. -/
theorem find_settles (segments : List Str) (node : NgTreeNodePath) (endsWithSlash : Bool)
    (path : Str) (pathParams : PathParams) (exactSegments : Bool) :
    Settled (find P (ops P) segments node endsWithSlash path pathParams exactSegments)
      fun M => find P M.ops segments node endsWithSlash path pathParams exactSegments := by
  induction segments generalizing node path pathParams with
  | nil => exact settles_pure _
  | cons head tail ih =>
      simp only [find]
      refine settles_bind (settled_entryFor node head pathParams) fun entry => ?_
      obtain ⟨bound, mptree⟩ := entry
      cases mptree with
      | some sub =>
          by_cases hempty : isEmpty sub = true
          · simp only [hempty, if_true]
            exact settles_pure _
          · by_cases hleaf : isLeaf sub = true
            · simp only [hempty, hleaf, Bool.false_eq_true, if_false, if_true]
              exact settles_pure _
            · simp only [hempty, hleaf, Bool.false_eq_true, if_false]
              refine settles_bind (ih _ _ _) fun found => ?_
              obtain ⟨bound, answer⟩ := found
              cases answer <;> exact settles_pure _
      | none =>
          by_cases hstop : (endsWithSlash || isLeaf node) = true
          · simp only [hstop, if_true]
            exact settles_pure _
          · simp only [hstop, Bool.false_eq_true, if_false]
            refine settles_bind (settled_segmentStartsWith node head) fun started => ?_
            obtain ⟨sub, prefixed⟩ := started
            cases sub with
            | none => exact settles_pure _
            | some sub =>
                refine settles_bind (ih _ _ _) fun found => ?_
                obtain ⟨bound, answer⟩ := found
                cases answer <;> exact settles_pure _

end NgTreeNodePath

namespace NgTreeRouter

open RouterState

theorem settled_firstWildcard (domain : Str) (wildcards : List NgRouteDomainAndPathWrapper) :
    Settled (P := P) (firstWildcard (ops P) domain wildcards)
      fun M => firstWildcard M.ops domain wildcards := by
  induction wildcards with
  | nil => exact settles_pure none
  | cons w wildcards ih =>
      refine settles_bind (settled_wildcardMatches w.domain domain) fun accepted => ?_
      cases accepted with
      | true => exact settles_pure (some w)
      | false => exact ih

theorem settled_findInTree (ptree : NgTreeNodePath) (path : Str) (exactSegments : Bool) :
    Settled (findInTree P (ops P) ptree path exactSegments)
      fun M => findInTree P M.ops ptree path exactSegments :=
  settles_bind (NgTreeNodePath.find_settles _ ptree _ _ _ _) fun found => settles_pure found.2

theorem serve_settles (router : NgTreeRouter) (call : FindCall) :
    Settled (serve P router call) fun M =>
      find P M.ops router call.domain call.path call.trailingSlashMeansExactSegments := by
  simp only [serve, find]
  cases KeyedList.get? call.domain router.tree with
  | some ptree => exact settled_findInTree ptree _ _
  | none =>
      simp only [findWildcard]
      refine settles_bind (settled_firstWildcard call.domain _) fun found => ?_
      cases found with
      | none => exact settles_pure none
      | some w =>
          cases hw : KeyedList.get? w.domain router.tree with
          | some ptree =>
              simp only [hw]
              exact settled_findInTree ptree _ _
          | none =>
              simp only [hw]
              exact settles_pure none

/-- After any history the caches of a router are coherent. -/
theorem coherent_after (router : NgTreeRouter) (start : RegexPool P.engine)
    (choices : Nat → Option Nat) (history : List FindCall) :
    Coherent (after P router (fresh start choices) history) :=
  keeps_afterAll_of_settles (serve_settles router) (coherent_fresh start choices) history

end NgTreeRouter

end Otoroshi
