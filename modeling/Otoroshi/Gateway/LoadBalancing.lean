/-
# Load balancing strategies

A strategy selects one of the targets it is given. Some strategies count their
selections, some look at the requests that targets are working on or at the times
they took to answer, some draw numbers, and some hash a part of the request. All
of this is shared by the whole process.

What they have in common is `yields_select`: from any state of the process, a
strategy that is given some targets returns one of them. It takes an argument for
each strategy, because each computes an index of its own.
-/

import Mathlib.Logic.Function.Basic
import Otoroshi.Foundation.Stateful
import Otoroshi.Gateway.Targets

namespace Otoroshi

open Stateful

/-- Hash functions of the platform. -/
structure HashPlatform where
  /-- `MurmurHash3.stringHash` -/
  stringHash : Str → Int
  /-- `Hashing.consistentHash`: the bucket of a hash -/
  consistentHash : Int → Nat → Nat
  consistentHash_lt : ∀ hash buckets, 0 < buckets → consistentHash hash buckets < buckets

/-- Response times of a target. An average exists from its first response on. -/
structure AtomicAverage where
  count : Nat
  sum : Int
  pos : 0 < count

namespace AtomicAverage

def average (avg : AtomicAverage) : Int := avg.sum.tdiv avg.count

/-- `incrBy` on an average that may have to be created. -/
def incrBy (avg : Option AtomicAverage) (v : Int) : AtomicAverage :=
  match avg with
  | none => ⟨1, wrapLong v, Nat.one_pos⟩
  | some avg => ⟨avg.count + 1, wrapLong (avg.sum + v), Nat.succ_pos _⟩

end AtomicAverage

/-- Who counts selections. -/
inductive Counter
  | roundRobin
  | leastConnections
  | headerHash
  | cookieHash
  | queryHash
  deriving DecidableEq

/-- What the strategies share. -/
structure BalancerState where
  counters : Counter → Int
  /-- the requests that a target is working on, by its key -/
  inflight : AList fun _ : Str => Int
  /-- by route and key of the target -/
  responseTimes : AList fun _ : Str => AtomicAverage
  /-- the numbers that will be drawn -/
  draws : Nat → Nat

abbrev BalancerM (α : Type) := Stateful BalancerState GatewayException α

/-- The parts of a request that strategies and predicates read. -/
structure BalancerRequest (Predicate : Type) where
  trackingId : Str
  header : Str → Option Str
  cookie : Str → Option Str
  query : Str → Option Str
  theIpAddress : Str
  /-- `predicate.matches(reqId, request, attrs)` -/
  satisfies : Predicate → Bool

inductive LoadBalancing
  | roundRobin
  | failover
  | powerOfTwoRandomChoices
  | leastConnections
  | random
  | sticky
  | headerHash (headerName : Str)
  | cookieHash (cookieName : Str)
  | queryHash (queryName : Str)
  | ipAddressHash
  | bestResponseTime
  /-- The ratio says how often the best of so many targets is added to them. -/
  | weightedBestResponseTime (times : Nat → Int)

namespace LoadBalancing

variable {Predicate : Type}

/-- `targets.apply(index)`. -/
def apply (targets : List (Target Predicate)) (index : Int) : BalancerM (Target Predicate) :=
  match if index < 0 then none else targets[index.toNat]? with
  | some target => pure target
  | none => throw .indexOutOfBounds

/-- The index after the value of a counter. The counter wraps at 32 bits. -/
def nextIndex (counter : Counter) (size : Nat) : BalancerM Int := do
  let state ← get
  let count := longToInt (state.counters counter + 1)
  modify fun state => { state with counters := Function.update state.counters counter count }
  return count % (if 0 < size then size else 1 : Nat)

/-- `nextInt(size)`. -/
def nextInt (size : Nat) : BalancerM Int := do
  if size = 0 then throw .illegalArgument
  else do
    let state ← get
    modify fun state => { state with draws := fun i => state.draws (i + 1) }
    return (state.draws 0 % size : Nat)

/-- `inflightFor`, which starts to count. -/
def inflightFor (target : Target Predicate) : BalancerM Int := do
  let state ← get
  match state.inflight.lookup target.asKey with
  | some load => return load
  | none => do
      modify fun state => { state with inflight := state.inflight.insert target.asKey 0 }
      return 0

/-- `Math.abs` on 32 bits, where the smallest number has no opposite. -/
def absInt (n : Int) : Int := longToInt n.natAbs

variable (P : HashPlatform)

/-- The target in the bucket of a text. -/
def applyHash (targets : List (Target Predicate)) (text : Str) : BalancerM (Target Predicate) :=
  if targets.isEmpty then throw .illegalArgument
  else apply targets (P.consistentHash (absInt (P.stringHash text)) targets.length)

/-- The next target of a counter. -/
def applyNext (counter : Counter) (targets : List (Target Predicate)) :
    BalancerM (Target Predicate) := do
  apply targets (← nextIndex counter targets.length)

/-- A target that is drawn. -/
def applyRandom (targets : List (Target Predicate)) : BalancerM (Target Predicate) := do
  apply targets (← nextInt targets.length)

/-- Hash a part of the request, or count when the request lacks it. -/
def applyPart (counter : Counter) (part : Option Str) (targets : List (Target Predicate)) :
    BalancerM (Target Predicate) :=
  match part with
  | none => applyNext counter targets
  | some trackingId => applyHash P targets trackingId

def leastConnectionsSelect (targets : List (Target Predicate)) :
    BalancerM (Target Predicate) := do
  let targetsWithLoad ← targets.mapM fun t => do return (t, ← inflightFor t)
  match (targetsWithLoad.map (·.2)).min? with
  | none => throw .unsupportedOperation
  | some minLoad => do
      let leastLoadedTargets := (targetsWithLoad.filter fun t => t.2 = minLoad).map (·.1)
      applyNext .leastConnections leastLoadedTargets

def powerOfTwoSelect (targets : List (Target Predicate)) : BalancerM (Target Predicate) := do
  let targetIndex1 ← nextInt targets.length
  let drawn ← nextInt targets.length
  let targetIndex2 := if targetIndex1 = drawn then (drawn + 1) % targets.length else drawn
  let target1 ← apply targets targetIndex1
  let target2 ← apply targets targetIndex2
  let inflightTarget1 ← inflightFor target1
  let inflightTarget2 ← inflightFor target2
  return if inflightTarget1 < inflightTarget2 then target1 else target2

/-- The key of a target in the response times. -/
def responseKey (descId : Str) (target : Target Predicate) : Str :=
  descId ++ '-' :: target.asKey

/-- The first target with a key. -/
def withKey (descId : Str) (targets : List (Target Predicate)) (key : Str) :
    Option (Target Predicate) :=
  targets.find? fun t => responseKey descId t == key

/-- The entry with the smallest average, the first one of several. -/
def minByAverage : List (Str × Int) → Option (Str × Int)
  | [] => none
  | entry :: entries =>
      match minByAverage entries with
      | none => some entry
      | some best => if entry.2 ≤ best.2 then some entry else some best

/-- What both strategies on response times do first: a target without response
times is tried, and otherwise the key of the best average is looked for. -/
def bestKeyOr (descId : Str) (targets : List (Target Predicate))
    (best : Str → BalancerM (Target Predicate)) : BalancerM (Target Predicate) := do
  let state ← get
  let keys := targets.map (responseKey descId)
  let existing := state.responseTimes.entries.filter fun entry => entry.1 ∈ keys
  let nonExisting := keys.filter fun key => (state.responseTimes.lookup key).isNone
  if existing.length ≠ targets.length then
    match nonExisting.head?.bind (withKey descId targets) with
    | some target => return target
    | none => applyRandom targets
  else
    match minByAverage (existing.map fun entry => (entry.1, entry.2.average)) with
    | none => throw .unsupportedOperation
    | some (key, _) => best key

def bestResponseTimeSelect (descId : Str) (targets : List (Target Predicate)) :
    BalancerM (Target Predicate) :=
  bestKeyOr descId targets fun key =>
    match withKey descId targets key with
    | some target => return target
    | none => applyRandom targets

def weightedBestResponseTimeSelect (times : Nat → Int) (descId : Str)
    (targets : List (Target Predicate)) : BalancerM (Target Predicate) :=
  bestKeyOr descId targets fun key =>
    let fill := match withKey descId targets key with
      | some bestTarget => List.replicate (times targets.length).toNat bestTarget
      | none => []
    applyRandom (targets ++ fill)

/-- `select`. -/
def select (strategy : LoadBalancing) (request : BalancerRequest Predicate)
    (targets : List (Target Predicate)) (descId : Str) (attempts : Int) :
    BalancerM (Target Predicate) :=
  match strategy with
  | roundRobin => applyNext .roundRobin targets
  | failover =>
      let reqNumber := if 0 < attempts then attempts - 1 else 0
      apply targets (reqNumber.tmod (if targets.isEmpty then 1 else targets.length : Nat))
  | powerOfTwoRandomChoices => powerOfTwoSelect targets
  | leastConnections => leastConnectionsSelect targets
  | random => applyRandom targets
  | sticky => applyHash P targets request.trackingId
  | headerHash headerName => applyPart P .headerHash (request.header headerName) targets
  | cookieHash cookieName => applyPart P .cookieHash (request.cookie cookieName) targets
  | queryHash queryName => applyPart P .queryHash (request.query queryName) targets
  | ipAddressHash => applyHash P targets request.theIpAddress
  | bestResponseTime => bestResponseTimeSelect descId targets
  | weightedBestResponseTime times => weightedBestResponseTimeSelect times descId targets

/-! ## What a strategy returns -/

section Selected

variable {targets : List (Target Predicate)}

theorem apply_of_getElem? {target : Target Predicate} {i : Nat} (h : targets[i]? = some target) :
    apply targets i = pure target := by
  rw [apply, if_neg (by omega), Int.toNat_natCast, h]

theorem yields_apply {index : Int} (hlow : 0 ≤ index) (hhigh : index < targets.length) :
    Yields (apply targets index) (· ∈ targets) := by
  have hget : targets[index.toNat]? = some targets[index.toNat] :=
    List.getElem?_eq_getElem (by omega)
  rw [apply, if_neg (by omega), hget]
  exact yields_pure (List.getElem_mem _)

/-- A number is drawn below any bound but zero. -/
theorem yields_nextInt {size : Nat} (h : 0 < size) :
    Yields (nextInt size) fun index => 0 ≤ index ∧ index < size := by
  rw [nextInt, if_neg (by omega)]
  refine yields_bind yields_get fun state _ => ?_
  refine yields_bind (yields_modify _) fun _ _ => ?_
  refine yields_pure ⟨Int.natCast_nonneg _, ?_⟩
  exact_mod_cast Nat.mod_lt _ h

/-- A counter is turned into an index, however far it has counted. -/
theorem yields_nextIndex (counter : Counter) {size : Nat} (h : 0 < size) :
    Yields (nextIndex counter size) fun index => 0 ≤ index ∧ index < size := by
  rw [nextIndex, if_pos h]
  refine yields_bind yields_get fun state _ => ?_
  refine yields_bind (yields_modify _) fun _ _ => ?_
  exact yields_pure ⟨Int.emod_nonneg _ (by omega), Int.emod_lt_of_pos _ (by omega)⟩

theorem yields_inflightFor (target : Target Predicate) :
    Yields (inflightFor target) fun _ => True := by
  rw [inflightFor]
  refine yields_bind yields_get fun state _ => ?_
  cases state.inflight.lookup target.asKey with
  | some load => exact yields_pure trivial
  | none => exact yields_bind (yields_modify _) fun _ _ => yields_pure trivial

theorem minByAverage_ne_none {entries : List (Str × Int)} (hentries : entries ≠ []) :
    minByAverage entries ≠ none := by
  cases entries with
  | nil => exact absurd rfl hentries
  | cons entry entries =>
      rw [minByAverage]
      split
      · exact Option.some_ne_none _
      · split <;> exact Option.some_ne_none _

private theorem map_eq_of_forall₂ {loaded : List (Target Predicate × Int)}
    (h : List.Forall₂ (fun t loaded => loaded.1 = t) targets loaded) :
    loaded.map (·.1) = targets := by
  induction h with
  | nil => rfl
  | cons hfst _ ih => rw [List.map_cons, hfst, ih]

section NonEmpty

variable (h : targets ≠ [])

include h

theorem yields_applyNext (counter : Counter) :
    Yields (applyNext counter targets) (· ∈ targets) :=
  yields_bind (yields_nextIndex counter (List.length_pos_of_ne_nil h)) fun _ hindex =>
    yields_apply hindex.1 hindex.2

theorem yields_applyRandom : Yields (applyRandom targets) (· ∈ targets) :=
  yields_bind (yields_nextInt (List.length_pos_of_ne_nil h)) fun _ hindex =>
    yields_apply hindex.1 hindex.2

theorem yields_applyHash (text : Str) : Yields (applyHash P targets text) (· ∈ targets) := by
  have hlt := P.consistentHash_lt (absInt (P.stringHash text)) targets.length
    (List.length_pos_of_ne_nil h)
  rw [applyHash, if_neg (by simpa using h)]
  exact yields_apply (Int.natCast_nonneg _) (by exact_mod_cast hlt)

theorem yields_applyPart (counter : Counter) (part : Option Str) :
    Yields (applyPart P counter part targets) (· ∈ targets) := by
  cases part with
  | none => exact yields_applyNext h counter
  | some text => exact yields_applyHash P h text

theorem yields_powerOfTwoSelect : Yields (powerOfTwoSelect targets) (· ∈ targets) := by
  have hpos := List.length_pos_of_ne_nil h
  rw [powerOfTwoSelect]
  refine yields_bind (yields_nextInt hpos) fun targetIndex1 hfirst => ?_
  refine yields_bind (yields_nextInt hpos) fun drawn hdrawn => ?_
  refine yields_bind (yields_apply hfirst.1 hfirst.2) fun target1 hmem1 => ?_
  have hsecond : ∀ index : Int,
      index = (if targetIndex1 = drawn then (drawn + 1) % targets.length else drawn) →
        0 ≤ index ∧ index < targets.length := by
    rintro index rfl
    split
    · exact ⟨Int.emod_nonneg _ (by omega), Int.emod_lt_of_pos _ (by omega)⟩
    · exact hdrawn
  refine yields_bind (yields_apply (hsecond _ rfl).1 (hsecond _ rfl).2) fun target2 hmem2 => ?_
  refine yields_bind (yields_inflightFor target1) fun load1 _ => ?_
  refine yields_bind (yields_inflightFor target2) fun load2 _ => ?_
  apply yields_pure
  split
  · exact hmem1
  · exact hmem2

/-- The least loaded targets are some of the targets, and one of them is there. -/
theorem yields_leastConnectionsSelect :
    Yields (leastConnectionsSelect targets) (· ∈ targets) := by
  rw [leastConnectionsSelect]
  have hload : ∀ t ∈ targets, Yields (do return (t, ← inflightFor t)) fun loaded => loaded.1 = t :=
    fun t _ => yields_bind (yields_inflightFor t) fun _ _ => yields_pure rfl
  refine yields_bind (yields_mapM hload) fun targetsWithLoad hloaded => ?_
  have htargets : targetsWithLoad.map (·.1) = targets := map_eq_of_forall₂ hloaded
  cases hmin : (targetsWithLoad.map (·.2)).min? with
  | none =>
      rw [List.min?_eq_none_iff, List.map_eq_nil_iff] at hmin
      rw [hmin] at htargets
      exact absurd htargets.symm h
  | some minLoad =>
      obtain ⟨loaded, hmem, hload⟩ := List.mem_map.mp (List.min?_mem hmin)
      have hleast : ((targetsWithLoad.filter fun t => t.2 = minLoad).map (·.1)) ≠ [] :=
        List.ne_nil_of_mem (List.mem_map_of_mem (List.mem_filter.mpr ⟨hmem, by simpa using hload⟩))
      refine (yields_applyNext hleast .leastConnections).mono fun target htarget => ?_
      obtain ⟨chosen, hchosen, rfl⟩ := List.mem_map.mp htarget
      rw [← htargets]
      exact List.mem_map_of_mem (List.mem_filter.mp hchosen).1

/-- Response times are compared when there are as many as targets, so that there
are some. -/
theorem yields_bestKeyOr (descId : Str) {best : Str → BalancerM (Target Predicate)}
    (hbest : ∀ key, Yields (best key) (· ∈ targets)) :
    Yields (bestKeyOr descId targets best) (· ∈ targets) := by
  rw [bestKeyOr]
  refine yields_bind yields_get fun state _ => ?_
  dsimp only
  split
  · split
    · rename_i target hfind
      obtain ⟨key, -, hkey⟩ := Option.bind_eq_some_iff.mp hfind
      exact yields_pure (List.mem_of_find?_eq_some hkey)
    · exact yields_applyRandom h
  · rename_i hsize
    split
    · rename_i hnone
      refine absurd hnone (minByAverage_ne_none ?_)
      intro hnil
      rw [List.map_eq_nil_iff] at hnil
      rw [hnil, not_not, List.length_nil] at hsize
      exact h (List.length_eq_zero_iff.mp hsize.symm)
    · exact hbest _

theorem yields_bestResponseTimeSelect (descId : Str) :
    Yields (bestResponseTimeSelect descId targets) (· ∈ targets) := by
  refine yields_bestKeyOr h descId fun key => ?_
  split
  · rename_i target hfind
    exact yields_pure (List.mem_of_find?_eq_some hfind)
  · exact yields_applyRandom h

/-- The copies that are added are copies of a target. -/
theorem yields_weightedBestResponseTimeSelect (times : Nat → Int) (descId : Str) :
    Yields (weightedBestResponseTimeSelect times descId targets) (· ∈ targets) := by
  refine yields_bestKeyOr h descId fun key => ?_
  dsimp only
  refine (yields_applyRandom (by simp [h])).mono fun target htarget => ?_
  rcases List.mem_append.mp htarget with hmem | hfill
  · exact hmem
  · split at hfill
    · rename_i bestTarget hfind
      rw [List.eq_of_mem_replicate hfill]
      exact List.mem_of_find?_eq_some hfind
    · exact absurd hfill List.not_mem_nil

/-- A strategy that is given some targets returns one of them. -/
theorem yields_select (strategy : LoadBalancing) (request : BalancerRequest Predicate)
    (descId : Str) (attempts : Int) :
    Yields (select P strategy request targets descId attempts) (· ∈ targets) := by
  have hpos := List.length_pos_of_ne_nil h
  cases strategy with
  | roundRobin => exact yields_applyNext h _
  | failover =>
      have hsize : ((if targets.isEmpty = true then 1 else targets.length : Nat) : Int) =
          targets.length := by rw [if_neg (by simpa using h)]
      have hnumber : (0 : Int) ≤ if 0 < attempts then attempts - 1 else 0 := by split <;> omega
      rw [select, hsize]
      exact yields_apply (Int.tmod_nonneg _ hnumber) (Int.tmod_lt_of_pos _ (by omega))
  | powerOfTwoRandomChoices => exact yields_powerOfTwoSelect h
  | leastConnections => exact yields_leastConnectionsSelect h
  | random => exact yields_applyRandom h
  | sticky => exact yields_applyHash P h _
  | headerHash headerName => exact yields_applyPart P h _ _
  | cookieHash cookieName => exact yields_applyPart P h _ _
  | queryHash queryName => exact yields_applyPart P h _ _
  | ipAddressHash => exact yields_applyHash P h _
  | bestResponseTime => exact yields_bestResponseTimeSelect h descId
  | weightedBestResponseTime times => exact yields_weightedBestResponseTimeSelect h times descId

end NonEmpty

end Selected

end LoadBalancing

end Otoroshi
