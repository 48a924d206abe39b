/-
# The best response time

The strategy compares how many of the targets have response times with how many targets there are.
When the numbers differ it takes a target without response times, or draws a target if there is
none of that kind. A target that is given more than once, as every target of a greater weight is,
has its response times under one key, so the numbers differ for good.

`selects_best_iff` says for which targets the strategy returns one with the least average,
whatever is drawn.
-/

import Mathlib.Data.List.Dedup
import Otoroshi.Gateway.CircuitBreakers

namespace Otoroshi

namespace LoadBalancing

open Stateful

variable {Predicate : Type}

/-! ## The entry with the least average -/

theorem minByAverage_spec {entries : List (Str × Int)} {best : Str × Int}
    (h : minByAverage entries = some best) :
    best ∈ entries ∧ ∀ entry ∈ entries, best.2 ≤ entry.2 := by
  induction entries generalizing best with
  | nil => cases h
  | cons entry entries ih =>
      rw [minByAverage] at h
      cases hrest : minByAverage entries with
      | none =>
          rw [hrest] at h
          obtain rfl : entries = [] := by
            by_contra hne
            exact minByAverage_ne_none hne hrest
          cases h
          exact ⟨List.mem_cons_self, fun other hother => by rw [List.mem_singleton.mp hother]⟩
      | some first =>
          obtain ⟨hmem, hleast⟩ := ih hrest
          rw [hrest] at h
          dsimp only at h
          split at h
          · cases h
            rename_i hle
            refine ⟨List.mem_cons_self, List.forall_mem_cons.mpr ⟨Int.le_refl _, ?_⟩⟩
            exact fun other hother => Int.le_trans hle (hleast other hother)
          · cases h
            rename_i hlt
            refine ⟨List.mem_cons_of_mem _ hmem, List.forall_mem_cons.mpr ⟨?_, hleast⟩⟩
            exact Int.le_of_lt (Int.not_le.mp hlt)

/-! ## What is recorded -/

section Recorded

variable (state : BalancerState) (descId : Str) (targets : List (Target Predicate))

/-- The recorded average of a target. -/
def recordedAverage (target : Target Predicate) : Option Int :=
  (state.responseTimes.lookup (responseKey descId target)).map AtomicAverage.average

/-- All targets have response times. -/
def Recorded : Prop :=
  ∀ target ∈ targets, (state.responseTimes.lookup (responseKey descId target)).isSome = true

/-- One of the targets, whose average is the least one among them. -/
def IsBest (target : Target Predicate) : Prop :=
  target ∈ targets ∧ ∃ average, recordedAverage state descId target = some average ∧
    ∀ other ∈ targets, ∀ average', recordedAverage state descId other = some average' →
      average ≤ average'

/-- The entries of the response times that belong to the targets. -/
def existing : List (Σ _ : Str, AtomicAverage) :=
  state.responseTimes.entries.filter fun entry => entry.1 ∈ targets.map (responseKey descId)

variable {state descId targets}

theorem mem_existing_iff {entry : Σ _ : Str, AtomicAverage} :
    entry ∈ existing state descId targets ↔
      state.responseTimes.lookup entry.1 = some entry.2 ∧
        ∃ target ∈ targets, responseKey descId target = entry.1 := by
  rw [existing, List.mem_filter, decide_eq_true_eq, List.mem_map, AList.mem_lookup_iff.symm]
  rfl

/-- There are as many entries as there are different keys. -/
theorem length_existing (h : Recorded state descId targets) :
    (existing state descId targets).length =
      (targets.map (responseKey descId)).dedup.length := by
  have hnodup : ((existing state descId targets).map (·.1)).Nodup :=
    state.responseTimes.nodupKeys.sublist List.filter_sublist
  have hperm : ((existing state descId targets).map (·.1)).Perm
      (targets.map (responseKey descId)).dedup := by
    rw [List.perm_ext_iff_of_nodup hnodup (List.nodup_dedup _)]
    intro key
    rw [List.mem_dedup, List.mem_map, List.mem_map]
    constructor
    · rintro ⟨entry, hentry, rfl⟩
      exact (mem_existing_iff.mp hentry).2
    · rintro ⟨target, htarget, rfl⟩
      obtain ⟨average, haverage⟩ := Option.isSome_iff_exists.mp (h target htarget)
      exact ⟨⟨_, average⟩, mem_existing_iff.mpr ⟨haverage, target, htarget, rfl⟩, rfl⟩
  rw [← hperm.length_eq, List.length_map]

theorem length_existing_eq_iff (h : Recorded state descId targets) :
    (existing state descId targets).length = targets.length ↔
      (targets.map (responseKey descId)).Nodup := by
  rw [length_existing h, ← List.dedup_eq_self]
  constructor
  · intro hlength
    exact (List.dedup_sublist _).eq_of_length (by rw [hlength, List.length_map])
  · intro hself
    rw [hself, List.length_map]

/-- All targets are recorded, so that none is left to be tried. -/
theorem nonExisting_eq_nil (h : Recorded state descId targets) :
    (targets.map (responseKey descId)).filter
      (fun key => (state.responseTimes.lookup key).isNone) = [] := by
  rw [List.filter_eq_nil_iff]
  intro key hkey
  obtain ⟨target, htarget, rfl⟩ := List.mem_map.mp hkey
  rw [← Option.not_isSome, h target htarget]
  exact Bool.false_ne_true

/-! ## The selection -/

theorem bestResponseTimeSelect_apply :
    bestResponseTimeSelect descId targets state =
      (if (existing state descId targets).length ≠ targets.length then
        match ((targets.map (responseKey descId)).filter fun key =>
          (state.responseTimes.lookup key).isNone).head?.bind (withKey descId targets) with
        | some target => pure target
        | none => applyRandom targets
      else
        match minByAverage ((existing state descId targets).map fun entry =>
          (entry.1, entry.2.average)) with
        | none => throw .unsupportedOperation
        | some (key, _) =>
            match withKey descId targets key with
            | some target => pure target
            | none => applyRandom targets : BalancerM (Target Predicate)) state := rfl

/-- The target that is found under the best key has the least average. -/
theorem exists_withKey_isBest {best : Str × Int}
    (hbest : minByAverage ((existing state descId targets).map fun entry =>
      (entry.1, entry.2.average)) = some best) :
    ∃ target, withKey descId targets best.1 = some target ∧
      IsBest state descId targets target := by
  obtain ⟨hmem, hleast⟩ := minByAverage_spec hbest
  obtain ⟨entry, hentry, rfl⟩ := List.mem_map.mp hmem
  obtain ⟨hlookup, owner, howner, hkey⟩ := mem_existing_iff.mp hentry
  have hfound : (withKey descId targets entry.1).isSome = true :=
    List.find?_isSome.mpr ⟨owner, howner, beq_iff_eq.mpr hkey⟩
  obtain ⟨target, htarget⟩ := Option.isSome_iff_exists.mp hfound
  have hfind : targets.find? (fun t => responseKey descId t == entry.1) = some target := htarget
  have hsame : responseKey descId target = entry.1 := by simpa using List.find?_some hfind
  refine ⟨target, htarget, List.mem_of_find?_eq_some htarget, entry.2.average, ?_, ?_⟩
  · rw [recordedAverage, hsame, hlookup, Option.map_some]
  · intro other hother average haverage
    obtain ⟨avg, hlookup', rfl⟩ := Option.map_eq_some_iff.mp haverage
    have hexists : (⟨responseKey descId other, avg⟩ : Σ _ : Str, AtomicAverage) ∈
        existing state descId targets := mem_existing_iff.mpr ⟨hlookup', other, hother, rfl⟩
    exact hleast _ (List.mem_map_of_mem hexists)

/-- With targets that have keys of their own, a target with the least average is selected. -/
theorem bestResponseTimeSelect_of_nodup (h : Recorded state descId targets) (hne : targets ≠ [])
    (hnodup : (targets.map (responseKey descId)).Nodup) :
    ∃ target, bestResponseTimeSelect descId targets state = (.ok target, state) ∧
      IsBest state descId targets target := by
  have hlength := (length_existing_eq_iff h).mpr hnodup
  have hsome : (existing state descId targets).map (fun entry => (entry.1, entry.2.average)) ≠
      [] := by
    intro hnil
    rw [List.map_eq_nil_iff.mp hnil, List.length_nil] at hlength
    exact hne (List.length_eq_zero_iff.mp hlength.symm)
  obtain ⟨best, hbest⟩ := Option.ne_none_iff_exists'.mp (minByAverage_ne_none hsome)
  obtain ⟨target, htarget, hisBest⟩ := exists_withKey_isBest hbest
  refine ⟨target, ?_, hisBest⟩
  rw [bestResponseTimeSelect_apply, if_neg (not_not_intro hlength), hbest]
  dsimp only
  rw [htarget]
  rfl

/-- With targets that share a key, one is drawn. -/
theorem bestResponseTimeSelect_of_not_nodup (h : Recorded state descId targets)
    (hnodup : ¬ (targets.map (responseKey descId)).Nodup) :
    bestResponseTimeSelect descId targets state = applyRandom targets state := by
  rw [bestResponseTimeSelect_apply, if_pos ((length_existing_eq_iff h).not.mpr hnodup),
    nonExisting_eq_nil h]
  rfl

theorem applyRandom_apply {target : Target Predicate}
    (h : targets[state.draws 0 % targets.length]? = some target) :
    applyRandom targets state =
      (.ok target, { state with draws := fun i => state.draws (i + 1) }) := by
  have hpos : targets.length ≠ 0 := by
    intro hzero
    rw [List.length_eq_zero_iff.mp hzero] at h
    cases h
  have hdraw : nextInt targets.length state = (.ok (state.draws 0 % targets.length : Nat),
      { state with draws := fun i => state.draws (i + 1) }) := by
    rw [nextInt, if_neg hpos]
    rfl
  rw [applyRandom, bind_of_ok hdraw, apply_of_getElem? h]
  rfl

/-! ## All draws -/

/-- The state with other numbers to be drawn. -/
def drawing (state : BalancerState) (draws : Nat → Nat) : BalancerState :=
  { state with draws }

/-- Whatever is drawn, the strategy returns a target whose recorded average is the least one. -/
def SelectsBest (state : BalancerState) (descId : Str) (targets : List (Target Predicate)) : Prop :=
  ∀ draws, ∃ target after,
    bestResponseTimeSelect descId targets (drawing state draws) = (.ok target, after) ∧
      IsBest state descId targets target

/-- All targets have the same average. -/
def SameAverages (state : BalancerState) (descId : Str) (targets : List (Target Predicate)) :
    Prop :=
  ∀ target ∈ targets, ∀ other ∈ targets,
    recordedAverage state descId target = recordedAverage state descId other

theorem sameAverages_of_isBest (h : ∀ target ∈ targets, IsBest state descId targets target) :
    SameAverages state descId targets := by
  intro target htarget other hother
  obtain ⟨-, average, haverage, hleast⟩ := h target htarget
  obtain ⟨-, average', haverage', hleast'⟩ := h other hother
  rw [haverage, haverage', Int.le_antisymm (hleast other hother average' haverage')
    (hleast' target htarget average haverage)]

theorem isBest_of_sameAverages (h : Recorded state descId targets)
    (hsame : SameAverages state descId targets) {target : Target Predicate}
    (htarget : target ∈ targets) : IsBest state descId targets target := by
  obtain ⟨avg, havg⟩ := Option.isSome_iff_exists.mp (h target htarget)
  have haverage : recordedAverage state descId target = some avg.average := by
    rw [recordedAverage, havg, Option.map_some]
  refine ⟨htarget, avg.average, haverage, fun other hother average' haverage' => ?_⟩
  rw [hsame other hother target htarget, haverage] at haverage'
  exact Int.le_of_eq (Option.some.inj haverage')

/-- Of recorded targets a best one is selected for sure exactly when there are some and they have
keys of their own or all the same average. -/
theorem selects_best_iff (h : Recorded state descId targets) :
    SelectsBest state descId targets ↔ targets ≠ [] ∧
      ((targets.map (responseKey descId)).Nodup ∨ SameAverages state descId targets) := by
  have hrecorded : ∀ draws, Recorded (drawing state draws) descId targets := fun _ => h
  constructor
  · intro hbest
    refine ⟨?_, or_iff_not_imp_left.mpr fun hnodup => ?_⟩
    · rintro rfl
      obtain ⟨target, -, -, hmem, -⟩ := hbest state.draws
      exact absurd hmem List.not_mem_nil
    · refine sameAverages_of_isBest fun target htarget => ?_
      obtain ⟨i, hi, rfl⟩ := List.mem_iff_getElem.mp htarget
      obtain ⟨target, after, hrun, hisBest⟩ := hbest fun _ => i
      have hget : targets[(drawing state fun _ => i).draws 0 % targets.length]? =
          some targets[i] := by
        rw [drawing, Nat.mod_eq_of_lt hi]
        exact List.getElem?_eq_getElem hi
      rw [bestResponseTimeSelect_of_not_nodup (hrecorded _) hnodup, applyRandom_apply hget] at hrun
      cases hrun
      exact hisBest
  · rintro ⟨hne, hnodup | hsame⟩ draws
    · obtain ⟨target, hrun, hisBest⟩ :=
        bestResponseTimeSelect_of_nodup (hrecorded draws) hne hnodup
      exact ⟨target, _, hrun, hisBest⟩
    · obtain ⟨target, after, hrun, hmem⟩ :=
        yields_bestResponseTimeSelect hne descId (drawing state draws)
      exact ⟨target, after, hrun, isBest_of_sameAverages h hsame hmem⟩

end Recorded

/-! ## A target of weight two -/

/-- A target that takes ten milliseconds on average, given twice. -/
def slowTarget : Target Unit := { host := "a".toList, weight := 2, predicate := () }

/-- A target that takes one millisecond. -/
def fastTarget : Target Unit := { host := "b".toList, predicate := () }

/-- The response times of both. -/
def timedState : BalancerState where
  counters := fun _ => 0
  inflight := ∅
  responseTimes := (AList.insert (responseKey [] slowTarget) ⟨1, 10, Nat.one_pos⟩ ∅).insert
    (responseKey [] fastTarget) ⟨1, 1, Nat.one_pos⟩
  draws := fun _ => 0

theorem lookup_timedState :
    timedState.responseTimes.lookup (responseKey [] slowTarget) = some ⟨1, 10, Nat.one_pos⟩ ∧
      timedState.responseTimes.lookup (responseKey [] fastTarget) = some ⟨1, 1, Nat.one_pos⟩ := by
  have hne : responseKey [] slowTarget ≠ responseKey [] fastTarget := by
    decide
  exact ⟨(AList.lookup_insert_ne hne).trans (AList.lookup_insert _), AList.lookup_insert _⟩

theorem recorded_expand_timed :
    Recorded timedState [] (ServiceDescriptorCircuitBreaker.expand [slowTarget, fastTarget]) := by
  have htargets : ServiceDescriptorCircuitBreaker.expand [slowTarget, fastTarget] =
      [slowTarget, slowTarget, fastTarget] := rfl
  simp [htargets, Recorded, lookup_timedState]

/-- The slow target can be drawn when it is given twice. -/
theorem not_selectsBest_of_weight :
    Recorded timedState [] (ServiceDescriptorCircuitBreaker.expand [slowTarget, fastTarget]) ∧
      ¬ SelectsBest timedState []
        (ServiceDescriptorCircuitBreaker.expand [slowTarget, fastTarget]) := by
  refine ⟨recorded_expand_timed, fun hbest => ?_⟩
  have htargets : ServiceDescriptorCircuitBreaker.expand [slowTarget, fastTarget] =
      [slowTarget, slowTarget, fastTarget] := rfl
  have hnodup : ¬ ([slowTarget, slowTarget, fastTarget].map (responseKey [])).Nodup := by
    simp
  have hrecorded := recorded_expand_timed
  rw [htargets] at hbest hrecorded
  obtain ⟨target, after, hrun, -, average, haverage, hleast⟩ := hbest timedState.draws
  change bestResponseTimeSelect [] [slowTarget, slowTarget, fastTarget] timedState = _ at hrun
  have hdrawn : [slowTarget, slowTarget, fastTarget][timedState.draws 0 % 3]? =
      some slowTarget := rfl
  rw [bestResponseTimeSelect_of_not_nodup hrecorded hnodup, applyRandom_apply hdrawn] at hrun
  cases hrun
  rw [recordedAverage, lookup_timedState.1] at haverage
  have hless := hleast fastTarget (by simp) 1 (by rw [recordedAverage, lookup_timedState.2]; rfl)
  cases haverage
  exact absurd hless (by decide)

/-- Each of the two given once. -/
theorem selects_best_iff_of_two : SelectsBest timedState [] [slowTarget, fastTarget] := by
  have hrecorded : Recorded timedState [] [slowTarget, fastTarget] := by
    simp [Recorded, lookup_timedState]
  refine (selects_best_iff hrecorded).mpr ⟨List.cons_ne_nil _ _, .inl ?_⟩
  decide

end LoadBalancing

end Otoroshi
