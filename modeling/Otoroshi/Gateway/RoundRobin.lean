/-
# Round robin

The counter of the selections is shared by all requests and has 32 bits. The index of the next
target is its value modulo the number of targets, rounded down, so that an index is never negative.

`selectAll` makes selections one after the other. As long as the counter does not go past its
greatest value, as many selections as there are targets choose each of them once
(`bounded_and_fair`).
-/

import Mathlib.Data.List.Perm.Subperm
import Otoroshi.Gateway.LoadBalancing

namespace Otoroshi

namespace LoadBalancing

open Stateful

variable {Predicate : Type}

/-! ## Residues of consecutive numbers -/

/-- The residue of the `i`-th number from `start` on. -/
def residue (start : Int) (n i : Nat) : Nat := ((start + i) % n).toNat

theorem residue_lt (start : Int) {n : Nat} (h : 0 < n) (i : Nat) : residue start n i < n := by
  have hlow := Int.emod_nonneg (start + i) (b := n) (by omega)
  have hhigh := Int.emod_lt_of_pos (start + i) (b := n) (by omega)
  rw [residue]
  omega

theorem residue_inj (start : Int) {n i j : Nat} (hi : i < n) (hj : j < n)
    (h : residue start n i = residue start n j) : i = j := by
  have hmod : (start + i) % n = (start + j) % n := by
    have hleft := Int.emod_nonneg (start + i) (b := n) (by omega)
    have hright := Int.emod_nonneg (start + j) (b := n) (by omega)
    rw [residue, residue] at h
    omega
  have hcancel := Int.emod_add_cancel_left.mp hmod
  rw [Int.emod_eq_of_lt (by omega) (by omega), Int.emod_eq_of_lt (by omega) (by omega)] at hcancel
  exact_mod_cast hcancel

/-- Any `n` consecutive numbers have every residue modulo `n` once. -/
theorem perm_residues (start : Int) (n : Nat) :
    ((List.range n).map (residue start n)).Perm (List.range n) := by
  have hnodup : ((List.range n).map (residue start n)).Nodup := by
    refine List.Nodup.map_on (fun i hi j hj h => ?_) List.nodup_range
    exact residue_inj start (List.mem_range.mp hi) (List.mem_range.mp hj) h
  have hsubset : (List.range n).map (residue start n) ⊆ List.range n := by
    intro r hr
    obtain ⟨i, hi, rfl⟩ := List.mem_map.mp hr
    exact List.mem_range.mpr (residue_lt start (Nat.zero_lt_of_lt (List.mem_range.mp hi)) i)
  exact (List.subperm_of_subset hnodup hsubset).perm_of_length_le (by simp)

/-! ## One selection -/

/-- What a selection is given apart from the targets. -/
structure SelectCall (Predicate : Type) where
  request : BalancerRequest Predicate
  descId : Str
  attempts : Int

/-- The value that the next selection counts. -/
def nextCount (state : BalancerState) : Int := longToInt (state.counters .roundRobin + 1)

/-- The state after a selection. -/
def counted (state : BalancerState) : BalancerState :=
  { state with counters := Function.update state.counters .roundRobin (nextCount state) }

theorem nextCount_counted {state : BalancerState} (h : nextCount state + 1 < 2 ^ 31) :
    nextCount (counted state) = nextCount state + 1 := by
  have hlow : -2 ^ 31 ≤ nextCount state :=
    Int.le_bmod (x := state.counters .roundRobin + 1) (m := 2 ^ 32) (by decide)
  have hcounter : (counted state).counters .roundRobin = nextCount state := by
    simp only [counted, Function.update_self]
  rw [nextCount.eq_def (counted state), hcounter, longToInt]
  exact Int.bmod_eq_of_le (by omega) (by omega)

variable (P : HashPlatform) {targets : List (Target Predicate)}

/-- A selection returns the target at the residue of the next count. -/
theorem select_roundRobin (call : SelectCall Predicate) (h : targets ≠ []) (state : BalancerState) :
    ∃ target, targets[residue (nextCount state) targets.length 0]? = some target ∧
      select P .roundRobin call.request targets call.descId call.attempts state =
        (.ok target, counted state) := by
  have hpos := List.length_pos_of_ne_nil h
  have hlt := residue_lt (nextCount state) hpos 0
  have hindex : nextCount state % (if 0 < targets.length then targets.length else 1 : Nat) =
      residue (nextCount state) targets.length 0 := by
    have hlow := Int.emod_nonneg (nextCount state) (b := targets.length) (by omega)
    rw [if_pos hpos, residue, Int.natCast_zero, Int.add_zero, Int.toNat_of_nonneg hlow]
  have hget : targets[residue (nextCount state) targets.length 0]? = some targets[residue
      (nextCount state) targets.length 0] := List.getElem?_eq_getElem hlt
  have hcount : nextIndex .roundRobin targets.length state =
      (.ok (residue (nextCount state) targets.length 0 : Int), counted state) := by
    rw [← hindex]
    rfl
  refine ⟨_, hget, ?_⟩
  rw [select, applyNext, bind_of_ok hcount, apply_of_getElem? hget]
  rfl

/-! ## Selections in a row -/

/-- Selections one after the other. -/
def selectAll (targets : List (Target Predicate)) (calls : List (SelectCall Predicate)) :
    BalancerM (List (Target Predicate)) :=
  calls.mapM fun call => select P .roundRobin call.request targets call.descId call.attempts

/-- While the counter does not wrap, the selections are at the residues of consecutive numbers. -/
theorem selectAll_eq (h : targets ≠ []) (calls : List (SelectCall Predicate))
    (state : BalancerState) (hwrap : nextCount state + calls.length ≤ 2 ^ 31) :
    ∃ chosen after, selectAll P targets calls state = (.ok chosen, after) ∧
      List.Forall₂ (fun (i : Nat) target => targets[i]? = some target)
        ((List.range calls.length).map (residue (nextCount state) targets.length)) chosen := by
  induction calls generalizing state with
  | nil => exact ⟨[], state, rfl, .nil⟩
  | cons call calls ih =>
      obtain ⟨target, htarget, hselect⟩ := select_roundRobin P call h state
      rw [List.length_cons] at hwrap
      cases calls with
      | nil =>
          refine ⟨[target], counted state, ?_, .cons htarget .nil⟩
          rw [selectAll, List.mapM_cons, bind_of_ok hselect]
          rfl
      | cons following calls =>
          have hnext : nextCount (counted state) = nextCount state + 1 :=
            nextCount_counted (by rw [List.length_cons] at hwrap; omega)
          obtain ⟨chosen, after, hrest, hchosen⟩ := ih (counted state) (by rw [hnext]; omega)
          refine ⟨target :: chosen, after, ?_, ?_⟩
          · rw [selectAll] at hrest
            rw [selectAll, List.mapM_cons, bind_of_ok hselect, bind_of_ok hrest]
            rfl
          · have hshift : residue (nextCount state) targets.length ∘ Nat.succ =
                residue (nextCount (counted state)) targets.length := by
              funext i
              rw [Function.comp, residue, residue, hnext, Nat.succ_eq_add_one]
              push_cast
              rw [Int.add_assoc, Int.add_comm 1]
            rw [List.length_cons, List.range_succ_eq_map, List.map_cons, List.map_map, hshift]
            exact .cons htarget hchosen

/-- An index is among the targets for every value of the counter, and as many selections as there
are targets are of each target once when the counter does not wrap among them. -/
theorem bounded_and_fair (h : targets ≠ []) :
    (∀ counter, Yields (nextIndex counter targets.length) fun index =>
      0 ≤ index ∧ index < targets.length) ∧
    ∀ calls state, calls.length = targets.length →
      nextCount state + targets.length ≤ 2 ^ 31 →
        ∃ chosen after indices, selectAll P targets calls state = (.ok chosen, after) ∧
          List.Forall₂ (fun (i : Nat) target => targets[i]? = some target) indices chosen ∧
            indices.Perm (List.range targets.length) := by
  refine ⟨fun counter => yields_nextIndex counter (List.length_pos_of_ne_nil h), ?_⟩
  intro calls state hcalls hwrap
  rw [← hcalls] at hwrap
  obtain ⟨chosen, after, hrun, hchosen⟩ := selectAll_eq P h calls state hwrap
  refine ⟨chosen, after, _, hrun, hchosen, ?_⟩
  rw [hcalls]
  exact perm_residues (nextCount state) targets.length

/-- Two targets, right after the counter went past its greatest value. -/
theorem bounded_and_fair_after_wrap :
    let P : HashPlatform := ⟨fun _ => 0, fun _ _ => 0, fun _ _ h => h⟩
    let targets : List (Target Unit) :=
      [{ host := "a".toList, predicate := () }, { host := "b".toList, predicate := () }]
    let call : SelectCall Unit := ⟨⟨[], fun _ => none, fun _ => none, fun _ => none, [],
      fun _ => true⟩, [], 1⟩
    let state : BalancerState := ⟨fun _ => 2 ^ 31 - 1, ∅, ∅, fun _ => 0⟩
    ∃ chosen after indices, selectAll P targets [call, call] state = (.ok chosen, after) ∧
      List.Forall₂ (fun (i : Nat) target => targets[i]? = some target) indices chosen ∧
        indices.Perm (List.range 2) := by
  intro P targets call state
  exact (bounded_and_fair P (List.cons_ne_nil _ _)).2 [call, call] state rfl (by decide)

end LoadBalancing

end Otoroshi
