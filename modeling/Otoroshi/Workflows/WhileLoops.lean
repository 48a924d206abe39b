/-
# While loops

A while node runs its body as long as its predicate says so. The loop calls itself when the
body has ended, whatever the body has answered, and the promise of the node takes the first
answer that it gets: the error of a budget that is used up, or `null` when the predicate is
false. No answer ends the loop.

`respects_iff` says for which loops the budget and the errors of the body are respected.
-/

import Otoroshi.Workflows.Nodes

namespace Otoroshi

namespace Workflows

/-- A loop under way, with what its body has answered so far. -/
structure Loop where
  memory : Memory
  count : Nat := 0
  executed : List (Except WorkflowError JsValue) := []
  promise : Option (Except WorkflowError JsValue) := none
  /-- the loop does not call itself again -/
  stopped : Bool := false
  /-- the predicate has thrown before there was a future -/
  thrown : Bool := false

/-- What the node answers, if it has answered. -/
def Loop.answer (loop : Loop) : Option Ended :=
  if loop.thrown then some .thrown else loop.promise.map fun result => result.casesOn .left .right

namespace WhileNode

variable (E : WorkflowEnv) (info : NodeInfo) (predicate : Option JsValue)
  (body : Memory → Ran (Except WorkflowError JsValue)) (maxBudget : Nat)

def exceeded : WorkflowError where
  message := "while loop '".toList ++ Nat.toDigits 10 maxBudget ++
    "' exceeds maximum budget".toList
  nodeId := some info.id

/-- `next`. An exception in a later turn is lost, and the promise stays as it is. -/
def next (loop : Loop) : Loop :=
  if loop.stopped then loop
  else
    let promise :=
      if loop.count = maxBudget then loop.promise.or (some (.error (exceeded info maxBudget)))
      else loop.promise
    match passes E predicate loop.memory with
    | none => { loop with
        count := loop.count + 1
        promise := promise
        stopped := true
        thrown := loop.executed.isEmpty }
    | some false => { loop with
        count := loop.count + 1
        promise := promise.or (some (.ok .null))
        stopped := true }
    | some true => { loop with
        memory := (body loop.memory).memory
        count := loop.count + 1
        executed := loop.executed ++ [(body loop.memory).result]
        promise := promise }

/-- The loop after some turns. -/
def loopAfter (memory : Memory) : Nat → Loop
  | 0 => { memory := memory }
  | turns + 1 => next E info predicate body maxBudget (loopAfter memory turns)

/-- The memory after some executions of the body. -/
def memoryAt (memory : Memory) : Nat → Memory
  | 0 => memory
  | turns + 1 => (body (memoryAt memory turns)).memory

/-- What the body answers when it is executed once more. -/
def resultAt (memory : Memory) (turns : Nat) : Except WorkflowError JsValue :=
  (body (memoryAt body memory turns)).result

/-- The predicate is true up to here. -/
def GoesOn (memory : Memory) (turns : Nat) : Prop :=
  ∀ turn < turns, passes E predicate (memoryAt body memory turn) = some true

/-- The predicate becomes false after so many executions of the body. -/
def BecomesFalse (memory : Memory) (turns : Nat) : Prop :=
  GoesOn E predicate body memory turns ∧
    passes E predicate (memoryAt body memory turns) = some false

/-- The body is executed as often as the budget allows, the first error of the body is the end
of the loop and its answer, and otherwise the answer is a success exactly when the predicate
became false within the budget. -/
structure Respects (memory : Memory) : Prop where
  executions : ∀ turns,
    (loopAfter E info predicate body maxBudget memory turns).executed.length ≤ maxBudget
  stops : ∀ turns idx err,
    (loopAfter E info predicate body maxBudget memory turns).executed[idx]? = some (.error err) →
      (loopAfter E info predicate body maxBudget memory turns).executed.length = idx + 1 ∧
        ∃ later, (loopAfter E info predicate body maxBudget memory later).answer = some (.left err)
  answers : (∀ turns err,
      .error err ∉ (loopAfter E info predicate body maxBudget memory turns).executed) →
    ∃ turns ended, (loopAfter E info predicate body maxBudget memory turns).answer = some ended ∧
      ((∃ res, ended = .right res) ↔
        ∃ within < maxBudget, BecomesFalse E predicate body memory within)

/-- The loop ends by itself within its budget: the predicate becomes false, or throws where
there is no budget to wait for, and the body never answers with an error before (but for the
very error of the budget, when it is used up). -/
def EndsWithin (memory : Memory) : Prop :=
  ∃ turns ≤ maxBudget, GoesOn E predicate body memory turns ∧
    (passes E predicate (memoryAt body memory turns) = some false ∨
      passes E predicate (memoryAt body memory turns) = none ∧ (turns = 0 ∨ turns = maxBudget)) ∧
    ∀ turn < turns, ∀ err, resultAt body memory turn = .error err →
      turn + 1 = maxBudget ∧ err = exceeded info maxBudget

/-! ## The turns of a loop -/

variable {E info predicate body maxBudget} {memory : Memory}

/-- A loop whose predicate has been true so far. -/
theorem loopAfter_of_goesOn {turns : Nat} (h : GoesOn E predicate body memory turns) :
    loopAfter E info predicate body maxBudget memory turns = {
      memory := memoryAt body memory turns
      count := turns
      executed := (List.range turns).map (resultAt body memory)
      promise := if maxBudget < turns then some (.error (exceeded info maxBudget)) else none } := by
  induction turns with
  | zero => rfl
  | succ turns ih =>
      have hbefore : GoesOn E predicate body memory turns :=
        fun turn hturn => h turn (Nat.lt_succ_of_lt hturn)
      have hpass := h turns (Nat.lt_succ_self turns)
      rw [loopAfter, ih hbefore, next]
      simp only [Bool.false_eq_true, if_false, hpass]
      congr 1
      · rw [List.range_succ, List.map_append]
        rfl
      · obtain hlt | rfl | hlt := Nat.lt_trichotomy maxBudget turns
        · rw [if_neg hlt.ne', if_pos hlt, if_pos (Nat.lt_succ_of_lt hlt)]
        · rw [if_pos rfl, if_neg (Nat.lt_irrefl _), if_pos (Nat.lt_succ_self _)]
          rfl
        · rw [if_neg hlt.ne, if_neg hlt.not_gt, if_neg (by omega)]

theorem next_of_stopped {loop : Loop} (h : loop.stopped = true) :
    next E info predicate body maxBudget loop = loop := by
  rw [next, if_pos h]

/-- A loop that has stopped stays as it is. -/
theorem loopAfter_of_stopped {turns later : Nat}
    (h : (loopAfter E info predicate body maxBudget memory turns).stopped = true)
    (hle : turns ≤ later) :
    loopAfter E info predicate body maxBudget memory later =
      loopAfter E info predicate body maxBudget memory turns := by
  induction later, hle using Nat.le_induction with
  | base => rfl
  | succ later hle ih => rw [loopAfter, ih, next_of_stopped h]

/-- What a used up budget answers. -/
def budgetAnswer (info : NodeInfo) (maxBudget turns : Nat) :
    Option (Except WorkflowError JsValue) :=
  if maxBudget ≤ turns then some (.error (exceeded info maxBudget)) else none

theorem promise_eq (info : NodeInfo) (maxBudget turns : Nat) :
    (if turns = maxBudget then
      (if maxBudget < turns then some (.error (exceeded info maxBudget)) else none).or
        (some (.error (exceeded info maxBudget)))
    else if maxBudget < turns then some (.error (exceeded info maxBudget)) else none) =
      budgetAnswer info maxBudget turns := by
  rw [budgetAnswer]
  obtain hlt | rfl | hlt := Nat.lt_trichotomy maxBudget turns
  · rw [if_neg hlt.ne', if_pos hlt, if_pos hlt.le]
  · rw [if_pos rfl, if_neg (Nat.lt_irrefl _), if_pos le_rfl]
    rfl
  · rw [if_neg hlt.ne, if_neg hlt.not_gt, if_neg hlt.not_ge]

/-- The turn in which the predicate is false. -/
theorem loopAfter_of_false {turns : Nat} (h : BecomesFalse E predicate body memory turns) :
    loopAfter E info predicate body maxBudget memory (turns + 1) = {
      memory := memoryAt body memory turns
      count := turns + 1
      executed := (List.range turns).map (resultAt body memory)
      promise := (budgetAnswer info maxBudget turns).or (some (.ok .null))
      stopped := true } := by
  rw [loopAfter, loopAfter_of_goesOn h.1, next]
  simp only [Bool.false_eq_true, if_false, h.2, promise_eq]

/-- The turn in which the predicate throws. -/
theorem loopAfter_of_thrown {turns : Nat} (h : GoesOn E predicate body memory turns)
    (hthrown : passes E predicate (memoryAt body memory turns) = none) :
    loopAfter E info predicate body maxBudget memory (turns + 1) = {
      memory := memoryAt body memory turns
      count := turns + 1
      executed := (List.range turns).map (resultAt body memory)
      promise := budgetAnswer info maxBudget turns
      stopped := true
      thrown := ((List.range turns).map (resultAt body memory)).isEmpty } := by
  rw [loopAfter, loopAfter_of_goesOn h, next]
  simp only [Bool.false_eq_true, if_false, hthrown, promise_eq]

/-- The loop stops when the predicate is not true. -/
theorem stopped_of_not_passes {turns : Nat} (h : GoesOn E predicate body memory turns)
    (hpass : passes E predicate (memoryAt body memory turns) ≠ some true) :
    (loopAfter E info predicate body maxBudget memory (turns + 1)).stopped = true ∧
      (loopAfter E info predicate body maxBudget memory (turns + 1)).executed =
        (List.range turns).map (resultAt body memory) := by
  cases hvalue : passes E predicate (memoryAt body memory turns) with
  | none =>
      rw [loopAfter_of_thrown h hvalue]
      exact ⟨rfl, rfl⟩
  | some pass =>
      cases pass with
      | true => contradiction
      | false =>
          rw [loopAfter_of_false ⟨h, hvalue⟩]
          exact ⟨rfl, rfl⟩

theorem executed_eq {turns : Nat} (h : GoesOn E predicate body memory turns)
    (hpass : passes E predicate (memoryAt body memory turns) ≠ some true) (later : Nat) :
    (loopAfter E info predicate body maxBudget memory later).executed =
      (List.range (min later turns)).map (resultAt body memory) := by
  obtain hlt | hle := Nat.lt_or_ge turns later
  · obtain ⟨hstopped, hexecuted⟩ :=
      @stopped_of_not_passes E info predicate body maxBudget memory turns h hpass
    rw [loopAfter_of_stopped hstopped hlt, hexecuted, Nat.min_eq_right hlt.le]
  · have hbefore : GoesOn E predicate body memory later :=
      fun turn hturn => h turn (hturn.trans_le hle)
    rw [loopAfter_of_goesOn hbefore, Nat.min_eq_left hle]

/-- A budget that is not exceeded ends the loop. -/
theorem exists_not_passes
    (h : ∀ turns,
      (loopAfter E info predicate body maxBudget memory turns).executed.length ≤ maxBudget) :
    ∃ turns ≤ maxBudget, GoesOn E predicate body memory turns ∧
      passes E predicate (memoryAt body memory turns) ≠ some true := by
  by_contra hnone
  have hall : ∀ turns ≤ maxBudget + 1, GoesOn E predicate body memory turns := by
    intro turns hturns
    induction turns with
    | zero => nofun
    | succ turns ih =>
        have hbefore := ih (Nat.le_of_succ_le hturns)
        intro turn hturn
        obtain hlt | rfl := Nat.lt_succ_iff_lt_or_eq.mp hturn
        · exact hbefore turn hlt
        · by_contra hpass
          exact hnone ⟨turn, by omega, hbefore, hpass⟩
  have hlength := h (maxBudget + 1)
  rw [loopAfter_of_goesOn (hall _ le_rfl), List.length_map, List.length_range] at hlength
  omega

/-- What a loop answers that ends after so many executions of its body. -/
def endAnswer (E : WorkflowEnv) (info : NodeInfo) (predicate : Option JsValue)
    (body : Memory → Ran (Except WorkflowError JsValue)) (maxBudget : Nat) (memory : Memory)
    (turns : Nat) : Option Ended :=
  if passes E predicate (memoryAt body memory turns) = none ∧ turns = 0 then some .thrown
  else if maxBudget ≤ turns then some (.left (exceeded info maxBudget))
  else if passes E predicate (memoryAt body memory turns) = none then none
  else some (.right .null)

theorem answer_of_end {turns later : Nat} (h : GoesOn E predicate body memory turns)
    (hpass : passes E predicate (memoryAt body memory turns) ≠ some true)
    (hlater : turns < later) :
    (loopAfter E info predicate body maxBudget memory later).answer =
      endAnswer E info predicate body maxBudget memory turns := by
  rw [loopAfter_of_stopped (stopped_of_not_passes h hpass).1 hlater, endAnswer]
  cases hvalue : passes E predicate (memoryAt body memory turns) with
  | none =>
      rw [loopAfter_of_thrown h hvalue, Loop.answer, budgetAnswer]
      cases turns with
      | zero => rfl
      | succ turns =>
          rw [List.range_succ_eq_map]
          split <;> simp_all
  | some pass =>
      cases pass with
      | true => contradiction
      | false =>
          rw [loopAfter_of_false ⟨h, hvalue⟩, Loop.answer, budgetAnswer]
          split <;> simp_all

/-- Before its end a loop only answers that the budget is used up. -/
theorem answer_of_goesOn {turns : Nat} (h : GoesOn E predicate body memory turns) :
    (loopAfter E info predicate body maxBudget memory turns).answer =
      if maxBudget < turns then some (.left (exceeded info maxBudget)) else none := by
  rw [loopAfter_of_goesOn h, Loop.answer]
  split <;> rfl

/-- A loop that ends within its budget answers when it has ended. -/
theorem exists_answer_iff {turns : Nat} (h : GoesOn E predicate body memory turns)
    (hpass : passes E predicate (memoryAt body memory turns) ≠ some true)
    (hle : turns ≤ maxBudget) (ended : Ended) :
    (∃ later, (loopAfter E info predicate body maxBudget memory later).answer = some ended) ↔
      endAnswer E info predicate body maxBudget memory turns = some ended := by
  constructor
  · rintro ⟨later, hanswer⟩
    obtain hlt | hge := Nat.lt_or_ge turns later
    · rwa [answer_of_end h hpass hlt] at hanswer
    · have hbefore : GoesOn E predicate body memory later :=
        fun turn hturn => h turn (hturn.trans_le hge)
      rw [answer_of_goesOn hbefore, if_neg (by omega)] at hanswer
      cases hanswer
  · intro hanswer
    refine ⟨turns + 1, ?_⟩
    rw [answer_of_end h hpass (Nat.lt_succ_self turns), hanswer]

theorem mem_executed_iff {turns : Nat} (h : GoesOn E predicate body memory turns)
    (hpass : passes E predicate (memoryAt body memory turns) ≠ some true) (later idx : Nat)
    (result : Except WorkflowError JsValue) :
    (loopAfter E info predicate body maxBudget memory later).executed[idx]? = some result ↔
      idx < min later turns ∧ resultAt body memory idx = result := by
  rw [executed_eq h hpass, List.getElem?_map, Option.map_eq_some_iff]
  constructor
  · rintro ⟨turn, hturn, rfl⟩
    obtain ⟨hlt, rfl⟩ := List.getElem?_eq_some_iff.mp hturn
    rw [List.length_range] at hlt
    rw [List.getElem_range]
    exact ⟨hlt, rfl⟩
  · rintro ⟨hlt, rfl⟩
    exact ⟨idx, List.getElem?_range hlt, rfl⟩

/-- No other number of executions makes the predicate false. -/
theorem becomesFalse_iff {turns : Nat} (h : GoesOn E predicate body memory turns)
    (hpass : passes E predicate (memoryAt body memory turns) ≠ some true) :
    (∃ within < maxBudget, BecomesFalse E predicate body memory within) ↔
      turns < maxBudget ∧ passes E predicate (memoryAt body memory turns) = some false := by
  constructor
  · rintro ⟨other, hother, hgoesOn, hfalse⟩
    obtain hlt | rfl | hlt := Nat.lt_trichotomy other turns
    · rw [h other hlt] at hfalse
      cases hfalse
    · exact ⟨hother, hfalse⟩
    · exact absurd (hgoesOn turns hlt) hpass
  · rintro ⟨hlt, hfalse⟩
    exact ⟨turns, hlt, h, hfalse⟩

/-- A loop whose body was executed answers an error only if its budget is used up. -/
theorem endAnswer_eq_left_iff {turns : Nat} (hturns : turns ≠ 0) (err : WorkflowError) :
    endAnswer E info predicate body maxBudget memory turns = some (.left err) ↔
      maxBudget ≤ turns ∧ err = exceeded info maxBudget := by
  rw [endAnswer, if_neg (fun h => hturns h.2)]
  by_cases hbudget : maxBudget ≤ turns
  · rw [if_pos hbudget]
    constructor
    · intro h
      cases h
      exact ⟨hbudget, rfl⟩
    · rintro ⟨-, rfl⟩
      rfl
  · rw [if_neg hbudget]
    constructor
    · intro h
      split at h <;> cases h
    · exact fun h => absurd h.1 hbudget

/-- A loop never answers if its predicate throws in a later turn of its budget. -/
theorem endAnswer_eq_none_iff {turns : Nat} :
    endAnswer E info predicate body maxBudget memory turns = none ↔
      passes E predicate (memoryAt body memory turns) = none ∧ turns ≠ 0 ∧ turns < maxBudget := by
  rw [endAnswer]
  split
  · next h => exact ⟨nofun, fun hnone => absurd h.2 hnone.2.1⟩
  · next h =>
      split
      · next hbudget => exact ⟨nofun, fun hnone => absurd hnone.2.2 hbudget.not_gt⟩
      · next hbudget =>
          split
          · next hthrown => exact ⟨fun _ => ⟨hthrown, fun hzero => h ⟨hthrown, hzero⟩, by omega⟩,
              fun _ => rfl⟩
          · next hthrown => exact ⟨nofun, fun hnone => absurd hnone.1 hthrown⟩

/-- A loop answers a success only if the predicate is false before the budget is used up. -/
theorem endAnswer_eq_right {turns : Nat} {ended : Ended}
    (h : endAnswer E info predicate body maxBudget memory turns = some ended)
    (hpass : passes E predicate (memoryAt body memory turns) ≠ some true) :
    (∃ res, ended = .right res) ↔
      turns < maxBudget ∧ passes E predicate (memoryAt body memory turns) = some false := by
  rw [endAnswer] at h
  split at h
  · next hthrown =>
      cases h
      exact ⟨nofun, fun hfalse => absurd (hthrown.1.symm.trans hfalse.2) nofun⟩
  · split at h
    · next hbudget =>
        cases h
        exact ⟨nofun, fun hfalse => absurd hfalse.1 hbudget.not_gt⟩
    · next hbudget =>
        split at h
        · cases h
        · next hthrown =>
            cases h
            refine ⟨fun _ => ⟨by omega, ?_⟩, fun _ => ⟨_, rfl⟩⟩
            cases hvalue : passes E predicate (memoryAt body memory turns) with
            | none => contradiction
            | some pass =>
                cases pass with
                | true => contradiction
                | false => rfl

/-- The first error of the body, if there is one, comes last and is the answer, and otherwise
there is an answer, which is a success if the predicate became false within the budget. -/
theorem respects_iff_of_end {turns : Nat} (h : GoesOn E predicate body memory turns)
    (hpass : passes E predicate (memoryAt body memory turns) ≠ some true)
    (hle : turns ≤ maxBudget) :
    Respects E info predicate body maxBudget memory ↔
      (∀ idx < turns, ∀ err, resultAt body memory idx = .error err → idx + 1 = turns ∧
        endAnswer E info predicate body maxBudget memory turns = some (.left err)) ∧
      ((∀ idx < turns, ∀ err, resultAt body memory idx ≠ .error err) → ∃ ended,
        endAnswer E info predicate body maxBudget memory turns = some ended ∧
          ((∃ res, ended = .right res) ↔
            turns < maxBudget ∧ passes E predicate (memoryAt body memory turns) = some false)) := by
  have hmem := @mem_executed_iff E info predicate body maxBudget memory turns h hpass
  have hanswer := @exists_answer_iff E info predicate body maxBudget memory turns h hpass hle
  have hexecuted := @executed_eq E info predicate body maxBudget memory turns h hpass
  have herrors : (∀ later err,
      .error err ∉ (loopAfter E info predicate body maxBudget memory later).executed) ↔
        ∀ idx < turns, ∀ err, resultAt body memory idx ≠ .error err := by
    constructor
    · intro hnone idx hidx err herr
      exact hnone turns err (List.mem_of_getElem? ((hmem turns idx _).mpr ⟨by simpa, herr⟩))
    · intro hnone later err hin
      obtain ⟨idx, hidx⟩ := List.getElem?_of_mem hin
      obtain ⟨hlt, herr⟩ := (hmem later idx _).mp hidx
      exact hnone idx (by omega) err herr
  constructor
  · intro hrespects
    constructor
    · intro idx hidx err herr
      obtain ⟨hlength, hleft⟩ :=
        hrespects.stops turns idx err ((hmem turns idx _).mpr ⟨by simpa, herr⟩)
      rw [hexecuted, List.length_map, List.length_range, Nat.min_self] at hlength
      exact ⟨hlength.symm, (hanswer _).mp hleft⟩
    · intro hnone
      obtain ⟨later, ended, hended, hsuccess⟩ := hrespects.answers (herrors.mpr hnone)
      rw [becomesFalse_iff h hpass] at hsuccess
      exact ⟨ended, (hanswer ended).mp ⟨later, hended⟩, hsuccess⟩
  · rintro ⟨hstops, hanswers⟩
    constructor
    · intro later
      rw [hexecuted, List.length_map, List.length_range]
      omega
    · intro later idx err hin
      obtain ⟨hlt, herr⟩ := (hmem later idx _).mp hin
      obtain ⟨hlast, hleft⟩ := hstops idx (by omega) err herr
      rw [hexecuted, List.length_map, List.length_range]
      exact ⟨by omega, (hanswer _).mpr hleft⟩
    · intro hnone
      obtain ⟨ended, hended, hsuccess⟩ := hanswers (herrors.mp hnone)
      obtain ⟨later, hlater⟩ := (hanswer ended).mpr hended
      rw [becomesFalse_iff h hpass]
      exact ⟨later, ended, hlater, hsuccess⟩

end WhileNode

open WhileNode

/-- A while loop respects its budget and the errors of its body exactly if it ends by itself
within its budget, without an error of its body. -/
theorem respects_iff_endsWithin (E : WorkflowEnv) (info : NodeInfo) (predicate : Option JsValue)
    (body : Memory → Ran (Except WorkflowError JsValue)) (maxBudget : Nat) (memory : Memory) :
    Respects E info predicate body maxBudget memory ↔
      EndsWithin E info predicate body maxBudget memory := by
  constructor
  · intro hrespects
    obtain ⟨turns, hle, hgoesOn, hpass⟩ := exists_not_passes hrespects.executions
    obtain ⟨hstops, hanswers⟩ := (respects_iff_of_end hgoesOn hpass hle).mp hrespects
    have hsome : endAnswer E info predicate body maxBudget memory turns ≠ none := by
      by_cases hnone : ∀ idx < turns, ∀ err, resultAt body memory idx ≠ .error err
      · obtain ⟨ended, hended, -⟩ := hanswers hnone
        rw [hended]
        nofun
      · push Not at hnone
        obtain ⟨idx, hidx, err, herr⟩ := hnone
        rw [(hstops idx hidx err herr).2]
        nofun
    refine ⟨turns, hle, hgoesOn, ?_, ?_⟩
    · cases hvalue : passes E predicate (memoryAt body memory turns) with
      | none =>
          right
          refine ⟨rfl, ?_⟩
          by_contra hturns
          exact hsome (endAnswer_eq_none_iff.mpr ⟨hvalue, by omega, by omega⟩)
      | some pass =>
          cases pass with
          | true => contradiction
          | false => exact .inl rfl
    · intro idx hidx err herr
      obtain ⟨hlast, hleft⟩ := hstops idx hidx err herr
      obtain ⟨hbudget, hexceeded⟩ := (endAnswer_eq_left_iff (by omega) err).mp hleft
      exact ⟨by omega, hexceeded⟩
  · rintro ⟨turns, hle, hgoesOn, hend, herrors⟩
    have hpass : passes E predicate (memoryAt body memory turns) ≠ some true := by
      obtain hfalse | ⟨hthrown, -⟩ := hend
      · rw [hfalse]
        nofun
      · rw [hthrown]
        nofun
    rw [respects_iff_of_end hgoesOn hpass hle]
    constructor
    · intro idx hidx err herr
      obtain ⟨hlast, hexceeded⟩ := herrors idx hidx err herr
      exact ⟨by omega, (endAnswer_eq_left_iff (by omega) err).mpr ⟨by omega, hexceeded⟩⟩
    · intro _
      cases hended : endAnswer E info predicate body maxBudget memory turns with
      | none =>
          obtain ⟨hthrown, hzero, hlt⟩ := endAnswer_eq_none_iff.mp hended
          obtain hfalse | ⟨-, hturns⟩ := hend
          · exact absurd (hfalse.symm.trans hthrown) nofun
          · omega
      | some ended => exact ⟨ended, rfl, endAnswer_eq_right hended hpass⟩

section Examples

def answers (memory : Memory) : Ran (Except WorkflowError JsValue) := ⟨.ok .null, memory, []⟩

/-- A loop whose predicate stays true goes on after its budget. -/
theorem exists_not_respects :
    ¬ ∀ (E : WorkflowEnv) (info : NodeInfo) (predicate : Option JsValue)
      (body : Memory → Ran (Except WorkflowError JsValue)) (maxBudget : Nat) (memory : Memory),
        Respects E info predicate body maxBudget memory := by
  intro h
  have hlength := (h plainEnv { id := "while".toList } (some (.bool true)) answers 3
    (fun _ => none)).executions 4
  exact absurd hlength (by decide)

end Examples

end Workflows

end Otoroshi
