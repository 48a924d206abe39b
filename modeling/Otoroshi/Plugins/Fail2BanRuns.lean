/-
# Counting and banning over runs

A run is a list of calls of the plugin, the newest first, of any requests on any routes. The calls
of several requests may stand between each other.

`counted` are the calls that count a failure, and `failures` those of one identifier. The counter of
an identifier is a restarting window over its failures (`counters_after`), and it is banned for the
ban time after the last failure that tripped the window (`isBanned_after`). Both are kept under the
identifier alone, so the routes that evaluate to it share them.
-/

import Otoroshi.Foundation.RestartingWindow
import Otoroshi.Plugins.Fail2Ban

namespace Otoroshi

namespace Fail2BanPlugin

variable {E : Fail2BanEnv}


/-- The identifier is neither ignored nor blocked. -/
def watched (call : Fail2BanCall E) : Bool :=
  !call.conf.isIgnored E (ip call) && !call.conf.isBlocked E (ip call)

def isTransform (call : Fail2BanCall E) : Bool :=
  match call.phase with
  | .transformResponse _ | .transformError _ => true
  | _ => false

def isAfterRequest (call : Fail2BanCall E) : Bool :=
  match call.phase with
  | .afterRequest .. => true
  | _ => false

/-- The call has a failure before it, in scope and of an identifier that is watched. -/
def sees (call : Fail2BanCall E) : Bool :=
  watched call &&
    match call.phase with
    | .access => false
    | .transformResponse status | .transformError status =>
        call.conf.isUrlInScope E call.thePath && call.conf.isFailedStatus status
    | .afterRequest elCtx triggerStatus trigger =>
        elCtx.any fun elCtx => triggered call elCtx triggerStatus trigger

/-- The call counts a failure. -/
def counts (call : Fail2BanCall E) (world : Fail2BanWorld) : Bool :=
  sees call && !(isAfterRequest call && world.alreadyCounted call.request)

/-- The call refuses a client because it is banned. -/
def refuses (call : Fail2BanCall E) (world : Fail2BanWorld) : Bool :=
  match call.phase with
  | .access => watched call && (world.state.isBanned (ip call) call.now).1
  | _ => false

/-- The calls of a run that counted a failure. -/
def counted : List (Fail2BanCall E) → List (Fail2BanCall E)
  | [] => []
  | call :: calls =>
      if counts call (after calls) then call :: counted calls else counted calls

/-- The failures of an identifier. -/
def failures (identifier : Str) (calls : List (Fail2BanCall E)) : List (Fail2BanCall E) :=
  (counted calls).filter fun call => ip call == identifier

/-- A request was refused because its client was banned. -/
def refused (request : Nat) : List (Fail2BanCall E) → Bool
  | [] => false
  | call :: calls =>
      (call.request == request && refuses call (after calls)) || refused request calls

variable (E) in
/-- The window of a failure is that of its route. -/
def window : WindowRule (Fail2BanCall E) where
  instant call := call.now
  width call := call.conf.detectTimeMs
  limit call := call.conf.maxRetry

/-- The end of the ban of an identifier with these failures. -/
def banEnd (failures : List (Fail2BanCall E)) : Option Int :=
  ((window E).lastTrip failures).map fun ban => ban.now + ban.conf.banTimeMs

/-- The counter of an identifier with these failures. -/
def counterOf (failures : List (Fail2BanCall E)) : Option RollingWindowCounter :=
  ((window E).start failures).map fun begun =>
    ⟨if (window E).trips failures then 0 else ((window E).counted failures).length, begun⟩

/-! ## One call -/

section Step

variable (call : Fail2BanCall E) (world : Fail2BanWorld)

theorem transform_eq (status : Int) : transform call world status =
    if watched call && (call.conf.isUrlInScope E call.thePath && call.conf.isFailedStatus status) then
      { state := world.state.count (ip call) call.now call.conf
        alreadyCounted := Function.update world.alreadyCounted call.request true }
    else world := by
  rw [transform, watched]
  cases call.conf.isIgnored E (ip call) with
  | true => rfl
  | false =>
      cases call.conf.isBlocked E (ip call) with
      | true => rfl
      | false => rfl

theorem afterRequest_eq (elCtx : Option (List (Str × Str))) (triggerStatus : Option Int)
    (trigger : Option Str) : afterRequest call world elCtx triggerStatus trigger =
      if (watched call && elCtx.any fun elCtx => triggered call elCtx triggerStatus trigger) &&
          !world.alreadyCounted call.request then
        { world with state := world.state.count (ip call) call.now call.conf }
      else world := by
  unfold afterRequest
  rw [← watched]
  cases watched call with
  | false => rfl
  | true =>
      cases world.alreadyCounted call.request with
      | true => simp
      | false =>
          cases elCtx with
          | none => rfl
          | some elCtx => simp

theorem access_eq : (access call world).2 =
    if watched call then
      { state := (world.state.isBanned (ip call) call.now).2
        alreadyCounted := if (world.state.isBanned (ip call) call.now).1 then
            Function.update world.alreadyCounted call.request true
          else world.alreadyCounted }
    else world := by
  rw [access, watched]
  cases call.conf.isIgnored E (ip call) with
  | true => rfl
  | false =>
      cases call.conf.isBlocked E (ip call) with
      | true => rfl
      | false =>
          cases hbanned : (world.state.isBanned (ip call) call.now).1 with
          | true => simp [hbanned]
          | false => simp [hbanned]

end Step

variable {call : Fail2BanCall E} {world : Fail2BanWorld}

/-- A call that counts adds its failure to its identifier, and a transformer puts the mark. -/
theorem step_of_counts (h : counts call world = true) : step call world =
    { state := world.state.count (ip call) call.now call.conf
      alreadyCounted := if isTransform call then
          Function.update world.alreadyCounted call.request true
        else world.alreadyCounted } := by
  rw [counts, sees, isAfterRequest] at h
  rw [step, isTransform]
  cases hphase : call.phase with
  | access => simp [hphase] at h
  | transformResponse status =>
      simp only [hphase, Bool.false_and, Bool.not_false, Bool.and_true] at h
      exact (transform_eq call world status).trans (if_pos h)
  | transformError status =>
      simp only [hphase, Bool.false_and, Bool.not_false, Bool.and_true] at h
      exact (transform_eq call world status).trans (if_pos h)
  | afterRequest elCtx triggerStatus trigger =>
      simp only [hphase, Bool.true_and] at h
      exact (afterRequest_eq call world elCtx triggerStatus trigger).trans (if_pos h)

/-- Any other call than a refusal does nothing if it does not count. -/
theorem step_of_not_counts (haccess : call.phase ≠ .access) (h : counts call world = false) :
    step call world = world := by
  rw [counts, sees, isAfterRequest] at h
  rw [step]
  cases hphase : call.phase with
  | access => exact absurd hphase haccess
  | transformResponse status =>
      simp only [hphase, Bool.false_and, Bool.not_false, Bool.and_true] at h
      exact (transform_eq call world status).trans (if_neg (Bool.eq_false_iff.mp h))
  | transformError status =>
      simp only [hphase, Bool.false_and, Bool.not_false, Bool.and_true] at h
      exact (transform_eq call world status).trans (if_neg (Bool.eq_false_iff.mp h))
  | afterRequest elCtx triggerStatus trigger =>
      simp only [hphase, Bool.true_and] at h
      exact (afterRequest_eq call world elCtx triggerStatus trigger).trans
        (if_neg (Bool.eq_false_iff.mp h))

theorem counts_of_access (h : call.phase = .access) : counts call world = false := by
  simp [counts, sees, h]

theorem step_of_access (h : call.phase = .access) : step call world =
    { state := if watched call then (world.state.isBanned (ip call) call.now).2 else world.state
      alreadyCounted := if refuses call world then
          Function.update world.alreadyCounted call.request true
        else world.alreadyCounted } := by
  have hstep : step call world = (access call world).2 := by rw [step, h]
  rw [hstep, access_eq, refuses, h]
  cases watched call with
  | false => rfl
  | true => rfl

theorem isBanned_counters (identifier : Str) (now : Int) (state : Fail2BanState) :
    (state.isBanned identifier now).2.counters = state.counters := by
  unfold Fail2BanState.isBanned
  split
  · rfl
  · split_ifs <;> rfl

/-- The mark of a request is put by a refusal and by a transformer that counts. -/
theorem step_alreadyCounted (request : Nat) : (step call world).alreadyCounted request =
    ((call.request == request && (refuses call world || (isTransform call && counts call world))) ||
      world.alreadyCounted request) := by
  have hmark : ∀ put : Bool,
      (if put then Function.update world.alreadyCounted call.request true
        else world.alreadyCounted) request =
        ((call.request == request && put) || world.alreadyCounted request) := by
    intro put
    cases put with
    | false => simp
    | true =>
        by_cases hrequest : call.request = request
        · simp [hrequest]
        · simp [Function.update_of_ne (Ne.symm hrequest), hrequest]
  by_cases haccess : call.phase = .access
  · rw [step_of_access haccess, counts_of_access haccess, Bool.and_false, Bool.or_false]
    exact hmark _
  · have hrefuses : refuses call world = false := by
      unfold refuses
      split
      · contradiction
      · rfl
    rw [hrefuses, Bool.false_or]
    cases hcounts : counts call world with
    | true =>
        rw [step_of_counts hcounts, Bool.and_true]
        exact hmark _
    | false => rw [step_of_not_counts haccess hcounts, Bool.and_false, Bool.and_false, Bool.false_or]

/-! ## The counter and the ban of an identifier -/

/-- A failure is counted in the window of its identifier. -/
theorem increment_counterOf (call : Fail2BanCall E) (older : List (Fail2BanCall E)) :
    some (((counterOf older).getD ⟨0, call.now⟩).increment call.now call.conf.detectTimeMs) =
      ((window E).start (call :: older)).map fun begun =>
        ⟨((window E).counted (call :: older)).length, begun⟩ := by
  rw [counterOf, RollingWindowCounter.increment, WindowRule.start_cons, WindowRule.counted_cons]
  cases hstart : (window E).start older with
  | none =>
      have hnew : ∀ counter : RollingWindowCounter, counter.count = 0 →
          counter.windowStart = call.now → (if call.conf.detectTimeMs ≤ call.now - counter.windowStart
            then (⟨1, call.now⟩ : RollingWindowCounter)
            else { counter with count := counter.count + 1 }) = ⟨1, call.now⟩ := by
        rintro ⟨_, _⟩ rfl rfl
        split_ifs <;> rfl
      exact congrArg some (hnew _ rfl rfl)
  | some begun =>
      have hbegins : (window E).begins call (some begun) =
          decide (call.conf.detectTimeMs ≤ call.now - begun) := rfl
      simp only [Option.map_some, Option.getD_some, hbegins, decide_eq_true_eq]
      by_cases hover : call.conf.detectTimeMs ≤ call.now - begun
      · simp [hover]
        rfl
      · cases htrips : (window E).trips older with
        | true => simp [hover]
        | false => simp [hover]

/-- What is counted for an identifier becomes its counter, and a ban where its window trips. -/
theorem count_eq {state : Fail2BanState} {older : List (Fail2BanCall E)}
    (h : state.counters (ip call) = counterOf older) :
    state.count (ip call) call.now call.conf =
      { counters := Function.update state.counters (ip call) (counterOf (call :: older))
        bannedUntil := if (window E).trips (call :: older) then
            Function.update state.bannedUntil (ip call) (some (call.now + call.conf.banTimeMs))
          else state.bannedUntil } := by
  obtain ⟨begun, hstart⟩ := Option.ne_none_iff_exists'.mp
    (mt WindowRule.start_eq_none.mp (List.cons_ne_nil call older) : (window E).start _ ≠ none)
  have hincrement := increment_counterOf call older
  rw [hstart, Option.map_some, Option.some_inj] at hincrement
  have htrips : (window E).trips (call :: older) = decide ((window E).limit call ≤
      ((window E).counted (call :: older)).length) := WindowRule.trips_cons
  have hlimit : (window E).limit call = call.conf.maxRetry := rfl
  rw [Fail2BanState.count, Fail2BanState.counterFor, h, hincrement, counterOf, hstart, htrips, hlimit]
  simp only [decide_eq_true_eq, Option.map_some]
  split_ifs
  · rfl
  · rfl

theorem counted_cons (call : Fail2BanCall E) (calls : List (Fail2BanCall E)) :
    counted (call :: calls) =
      if counts call (after calls) then call :: counted calls else counted calls := rfl

/-- A call that counts is a failure of its own identifier and of no other. -/
theorem failures_of_counts {calls : List (Fail2BanCall E)} (h : counts call (after calls) = true)
    (identifier : Str) : failures identifier (call :: calls) =
      if ip call = identifier then call :: failures identifier calls
      else failures identifier calls := by
  rw [failures, counted_cons, if_pos h, List.filter_cons]
  simp only [beq_iff_eq]
  rfl

theorem failures_of_not_counts {calls : List (Fail2BanCall E)}
    (h : counts call (after calls) = false) (identifier : Str) :
    failures identifier (call :: calls) = failures identifier calls := by
  rw [failures, counted_cons, h, if_neg Bool.false_ne_true, failures]

/-- The counters of the process are the windows of the identifiers. -/
theorem counters_after (calls : List (Fail2BanCall E)) (identifier : Str) :
    (after calls).state.counters identifier = counterOf (failures identifier calls) := by
  induction calls generalizing identifier with
  | nil => rfl
  | cons call calls ih =>
      rw [after]
      cases hcounts : counts call (after calls) with
      | true =>
          rw [step_of_counts hcounts, count_eq (ih _), failures_of_counts hcounts]
          by_cases hip : ip call = identifier
          · subst hip
            rw [if_pos rfl]
            exact Function.update_self ..
          · rw [if_neg hip, ← ih]
            exact Function.update_of_ne (Ne.symm hip) ..
      | false =>
          rw [failures_of_not_counts hcounts, ← ih]
          by_cases haccess : call.phase = .access
          · rw [step_of_access haccess]
            simp only
            split_ifs
            · rw [isBanned_counters]
            · rfl
          · rw [step_of_not_counts haccess hcounts]

/-- The end of a ban is kept, or was over when it was forgotten. -/
def Kept (calls : List (Fail2BanCall E)) (kept banEnd : Option Int) : Prop :=
  kept = banEnd ∨ kept = none ∧ ∀ ts ∈ banEnd, ∃ call ∈ calls, ts < call.now

theorem Kept.cons {calls : List (Fail2BanCall E)} {kept banEnd : Option Int}
    (h : Kept calls kept banEnd) (call : Fail2BanCall E) : Kept (call :: calls) kept banEnd := by
  refine h.imp id (And.imp id fun hover ts hts => ?_)
  obtain ⟨other, hother, hlt⟩ := hover ts hts
  exact ⟨other, List.mem_cons_of_mem _ hother, hlt⟩

theorem banEnd_cons (call : Fail2BanCall E) (older : List (Fail2BanCall E)) :
    banEnd (call :: older) =
      if (window E).trips (call :: older) then some (call.now + call.conf.banTimeMs)
      else banEnd older := by
  rw [banEnd, WindowRule.lastTrip]
  split_ifs <;> rfl

theorem kept_isBanned {calls : List (Fail2BanCall E)} {state : Fail2BanState} {identifier : Str}
    {banEnd : Option Int} (h : Kept calls (state.bannedUntil identifier) banEnd)
    (call : Fail2BanCall E) :
    Kept (call :: calls) ((state.isBanned (ip call) call.now).2.bannedUntil identifier) banEnd := by
  rw [Fail2BanState.isBanned]
  cases hts : state.bannedUntil (ip call) with
  | none => exact h.cons call
  | some ts =>
      simp only
      split_ifs with hover
      · by_cases hip : ip call = identifier
        · subst hip
          refine Or.inr ⟨Function.update_self .., fun other hother => ?_⟩
          rcases h with hkept | ⟨hnone, _⟩
          · rw [← hkept, hts] at hother
            cases hother
            exact ⟨call, List.mem_cons_self, hover⟩
          · rw [hts] at hnone
            cases hnone
        · have hother := Function.update_of_ne (Ne.symm hip) (none : Option Int) state.bannedUntil
          simp only [hother]
          exact h.cons call
      · exact h.cons call

/-- The bans of the process are those of the failures that tripped a window. -/
theorem kept_after (calls : List (Fail2BanCall E)) (identifier : Str) :
    Kept calls ((after calls).state.bannedUntil identifier)
      (banEnd (failures identifier calls)) := by
  induction calls with
  | nil => exact Or.inl rfl
  | cons call calls ih =>
      rw [after]
      cases hcounts : counts call (after calls) with
      | true =>
          rw [step_of_counts hcounts, count_eq (counters_after calls _), failures_of_counts hcounts]
          by_cases hip : ip call = identifier
          · subst hip
            rw [if_pos rfl, banEnd_cons]
            simp only
            split_ifs
            · exact Or.inl (Function.update_self ..)
            · exact ih.cons call
          · rw [if_neg hip]
            simp only
            split_ifs
            · rw [Function.update_of_ne (Ne.symm hip)]
              exact ih.cons call
            · exact ih.cons call
      | false =>
          rw [failures_of_not_counts hcounts]
          by_cases haccess : call.phase = .access
          · rw [step_of_access haccess]
            simp only
            split_ifs
            · exact kept_isBanned ih call
            · exact ih.cons call
          · rw [step_of_not_counts haccess hcounts]
            exact ih.cons call

/-- An identifier is banned until the end of the ban of its last failure that tripped. -/
theorem isBanned_after {calls : List (Fail2BanCall E)} {now : Int}
    (hnow : ∀ call ∈ calls, call.now ≤ now) (identifier : Str) :
    ((after calls).state.isBanned identifier now).1 = true ↔
      ∃ ban ∈ (window E).lastTrip (failures identifier calls),
        now ≤ ban.now + ban.conf.banTimeMs := by
  have hbanned : ((after calls).state.isBanned identifier now).1 = true ↔
      ∃ ts ∈ (after calls).state.bannedUntil identifier, now ≤ ts := by
    unfold Fail2BanState.isBanned
    cases (after calls).state.bannedUntil identifier with
    | none => simp
    | some ts =>
        simp only
        split_ifs with hover
        · simpa using hover
        · simpa using hover
  have hend : (∃ ban ∈ (window E).lastTrip (failures identifier calls),
        now ≤ ban.now + ban.conf.banTimeMs) ↔
      ∃ ts ∈ banEnd (failures identifier calls), now ≤ ts := by
    rw [banEnd]
    cases (window E).lastTrip (failures identifier calls) <;> simp
  rw [hbanned, hend]
  rcases kept_after calls identifier with hkept | ⟨hnone, hover⟩
  · rw [hkept]
  · rw [hnone]
    constructor
    · rintro ⟨ts, hts, _⟩
      cases hts
    · rintro ⟨ts, hts, hle⟩
      obtain ⟨call, hcall, hlt⟩ := hover ts hts
      exact absurd (hnow call hcall) (by omega)

/-! ## The calls for one request -/

/-- The calls for a request. -/
def callsOf (request : Nat) (calls : List (Fail2BanCall E)) : List (Fail2BanCall E) :=
  calls.filter fun call => call.request == request

/-- How often a request was counted. -/
def timesCounted (request : Nat) (calls : List (Fail2BanCall E)) : Nat :=
  (counted calls).countP fun call => call.request == request

/-- A transformer of the answers sees a failure. -/
def transformed (call : Fail2BanCall E) : Bool := isTransform call && sees call

/-- `afterRequest` sees a failure. -/
def ended (call : Fail2BanCall E) : Bool := isAfterRequest call && sees call

/-- Nothing is called for a request after `afterRequest`, and one transformer at most sees it fail. -/
structure SeenOnce (own : List (Fail2BanCall E)) : Prop where
  last : own.Pairwise fun _ earlier => isAfterRequest earlier = false
  once : own.countP transformed ≤ 1

theorem isAfterRequest_of_isTransform (h : isTransform call = true) :
    isAfterRequest call = false := by
  rw [isTransform] at h
  rw [isAfterRequest]
  cases hphase : call.phase with
  | afterRequest => simp [hphase] at h
  | _ => rfl

theorem counts_of_isTransform (h : isTransform call = true) : counts call world = sees call := by
  rw [counts, isAfterRequest_of_isTransform h, Bool.false_and, Bool.not_false, Bool.and_true]

theorem refuses_of_ne_access (h : call.phase ≠ .access) : refuses call world = false := by
  unfold refuses
  split
  · contradiction
  · rfl

theorem callsOf_cons (request : Nat) (call : Fail2BanCall E) (calls : List (Fail2BanCall E)) :
    callsOf request (call :: calls) =
      if call.request == request then call :: callsOf request calls else callsOf request calls :=
  List.filter_cons

/-- A mark says that a transformer saw the request fail, or that it was refused. -/
theorem alreadyCounted_after (calls : List (Fail2BanCall E)) (request : Nat) :
    (after calls).alreadyCounted request =
      (refused request calls || (callsOf request calls).any transformed) := by
  induction calls with
  | nil => rfl
  | cons call calls ih =>
      have htransformed : (isTransform call && counts call (after calls)) = transformed call := by
        rw [transformed]
        cases hcall : isTransform call with
        | false => rfl
        | true => rw [counts_of_isTransform hcall]
      rw [after, step_alreadyCounted, ih, htransformed, refused, callsOf_cons]
      cases call.request == request with
      | false => rfl
      | true =>
          rw [if_pos rfl, List.any_cons]
          cases refuses call (after calls) <;> cases refused request calls <;>
            cases transformed call <;> rfl

/-- Nothing but a transformer and `afterRequest` sees a failure. -/
theorem sees_eq (call : Fail2BanCall E) : sees call = (transformed call || ended call) := by
  rw [transformed, ended, ← Bool.and_or_distrib_right]
  rw [sees, isTransform, isAfterRequest]
  cases call.phase <;> simp

theorem timesCounted_cons (request : Nat) (call : Fail2BanCall E)
    (calls : List (Fail2BanCall E)) : timesCounted request (call :: calls) =
      timesCounted request calls +
        if call.request == request && counts call (after calls) then 1 else 0 := by
  rw [timesCounted, counted_cons, timesCounted]
  cases counts call (after calls) with
  | false => rw [if_neg Bool.false_ne_true, Bool.and_false, if_neg Bool.false_ne_true, Nat.add_zero]
  | true => rw [if_pos rfl, List.countP_cons, Bool.and_true]

/-- A call after which nothing more is called for the request decides with what came before. -/
theorem counts_eq {calls : List (Fail2BanCall E)} :
    counts call (after calls) = (transformed call || (ended call &&
      !(refused call.request calls || (callsOf call.request calls).any transformed))) := by
  cases hcall : isTransform call with
  | true =>
      rw [counts_of_isTransform hcall, transformed, ended, hcall,
        isAfterRequest_of_isTransform hcall, Bool.true_and,
        Bool.false_and, Bool.false_and, Bool.or_false]
  | false =>
      rw [counts, sees_eq, transformed, hcall, Bool.false_and, Bool.false_or, Bool.false_or,
        ← alreadyCounted_after, ended]
      cases isAfterRequest call <;> simp

/-- A request is counted once, where a transformer sees it fail or `afterRequest` does by itself. -/
theorem timesCounted_eq {request : Nat} {calls : List (Fail2BanCall E)}
    (h : SeenOnce (callsOf request calls)) : timesCounted request calls =
      if (callsOf request calls).any transformed ||
          ((callsOf request calls).any ended && !refused request calls) then 1
      else 0 := by
  induction calls with
  | nil => rfl
  | cons call calls ih =>
      rw [timesCounted_cons, callsOf_cons, refused]
      rw [callsOf_cons] at h
      by_cases hrequest : call.request = request
      · subst hrequest
        rw [if_pos (beq_self_eq_true _)] at h
        have hlast := List.pairwise_cons.mp h.last
        have honce := h.once
        rw [List.countP_cons] at honce
        have hended : (callsOf call.request calls).any ended = false := by
          rw [List.any_eq_false]
          intro earlier hearlier
          rw [ended, hlast.1 earlier hearlier]
          exact Bool.false_ne_true
        rw [ih ⟨hlast.2, (Nat.le_add_right _ _).trans honce⟩, hended, counts_eq, beq_self_eq_true,
          if_pos rfl, List.any_cons, List.any_cons, hended]
        cases htransformed : transformed call with
        | true =>
            have hnone : (callsOf call.request calls).any transformed = false := by
              rw [htransformed, if_pos rfl] at honce
              rw [List.any_eq_false]
              exact List.countP_eq_zero.mp (by omega)
            rw [hnone]
            rfl
        | false =>
            cases hcall : ended call with
            | true =>
                have hrefuses : refuses call (after calls) = false := by
                  refine refuses_of_ne_access fun haccess => ?_
                  simp [ended, isAfterRequest, haccess] at hcall
                rw [hrefuses]
                cases (callsOf call.request calls).any transformed <;>
                  cases refused call.request calls <;> rfl
            | false => simp
      · have hne : (call.request == request) = false := beq_false_of_ne hrequest
        rw [hne, if_neg Bool.false_ne_true] at h
        rw [ih h, hne]
        rfl

/-! ## The law of the plugin -/

/-- What holds after the calls of a run. -/
structure Law (calls : List (Fail2BanCall E)) : Prop where
  countedOnce : ∀ request, SeenOnce (callsOf request calls) → timesCounted request calls =
    if (callsOf request calls).any transformed ||
        ((callsOf request calls).any ended && !refused request calls) then 1
    else 0
  banned : ∀ identifier now, (∀ call ∈ calls, call.now ≤ now) →
    (((after calls).state.isBanned identifier now).1 = true ↔
      ∃ ban ∈ (window E).lastTrip (failures identifier calls),
        now ≤ ban.now + ban.conf.banTimeMs)
  /-- a ban needs the failures of one detect time, -/
  within : ∀ identifier ban older, ban :: older <:+ failures identifier calls →
    (window E).trips (ban :: older) → ∃ group, group <+: ban :: older ∧
      ban.conf.maxRetry ≤ group.length ∧ (group = [ban] ∨
        ∀ failure ∈ group, ban.now - failure.now < ban.conf.detectTimeMs)
  /-- and nearly twice as many of them are sure to ban. -/
  crowded : ∀ identifier newer recent older detectTimeMs maxRetry,
    failures identifier calls = newer ++ (recent ++ older) → recent ≠ [] →
    (∀ failure ∈ recent,
      failure.conf.detectTimeMs = detectTimeMs ∧ failure.conf.maxRetry = maxRetry) →
    (∀ first ∈ recent, ∀ second ∈ recent, first.now - second.now < detectTimeMs) →
    2 * maxRetry - 1 ≤ recent.length →
      ∃ later ban rest, recent = later ++ ban :: rest ∧ (window E).trips (ban :: (rest ++ older))

theorem counted_sublist (calls : List (Fail2BanCall E)) : (counted calls).Sublist calls := by
  induction calls with
  | nil => exact .slnil
  | cons call calls ih =>
      rw [counted_cons]
      split_ifs
      · exact ih.cons_cons call
      · exact ih.cons call

/-- The law holds after every run in which the time does not go back. -/
theorem law (calls : List (Fail2BanCall E))
    (hnow : calls.Pairwise fun later earlier => earlier.now ≤ later.now) : Law calls where
  countedOnce _ := timesCounted_eq
  banned identifier _ hlast := isBanned_after hlast identifier
  within identifier ban older hsuffix htrips := by
    have hordered : (window E).Ordered (failures identifier calls) :=
      hnow.sublist (List.filter_sublist.trans (counted_sublist calls))
    exact WindowRule.within_of_trips (hordered.sublist hsuffix.sublist) htrips
  crowded _ _ _ _ _ _ _ hrecent hrule hcrowd hlength :=
    WindowRule.trips_of_crowded hrecent hrule hcrowd hlength

/-! ## A window that restarts, and one for all routes -/

/-- An expression language on texts without expressions. -/
def literalEnv : Fail2BanEnv where
  Attrs := Unit
  evaluateEl text _ := text
  regexMatches _ _ := false
  equalsIgnoreCase first second := first == second
  matchesRules _ _ := false
  toInt _ := none

def route : Fail2BanConfig := { identifier := "client".toList, detectTimeMs := 10, maxRetry := 3 }

/-- The answer to a request of the client on a route is 401. -/
def unauthorized (conf : Fail2BanConfig) (request : Nat) (now : Int) : Fail2BanCall literalEnv :=
  { request := request, conf := conf, attrs := (), now := now, phase := .transformResponse 401 }

theorem law_example :
    Law [unauthorized route 2 9, unauthorized route 1 5, unauthorized route 0 0] ∧
      ((after [unauthorized route 2 9, unauthorized route 1 5,
        unauthorized route 0 0]).state.isBanned "client".toList 9).1 = true :=
  ⟨law _ (by decide), by decide +kernel⟩

/-- As many failures on a route as it allows fall within its detect time. -/
def Crowded (conf : Fail2BanConfig) (identifier : Str) (calls : List (Fail2BanCall E)) : Prop :=
  ∃ group : List (Fail2BanCall E), group.Sublist (failures identifier calls) ∧
    (∀ failure ∈ group, failure.conf = conf) ∧ conf.maxRetry ≤ group.length ∧
    ∀ first ∈ group, ∀ second ∈ group, first.now - second.now ≤ conf.detectTimeMs

/-- A new window cuts a crowd in two, and a client is banned on a route where it never failed. -/
theorem exists_not_crowded :
    (∃ calls, (window literalEnv).Ordered calls ∧ Crowded route "client".toList calls ∧
      ((after calls).state.isBanned "client".toList 12).1 = false) ∧
    ∃ calls, (window literalEnv).Ordered calls ∧
      ¬ Crowded { route with maxRetry := 1 } "client".toList calls ∧
      ((after calls).state.isBanned "client".toList 9).1 = true := by
  constructor
  · refine ⟨[unauthorized route 3 12, unauthorized route 2 11, unauthorized route 1 9,
      unauthorized route 0 0], by decide, ⟨[unauthorized route 3 12, unauthorized route 2 11,
        unauthorized route 1 9], ?_, ?_, ?_, ?_⟩, by decide +kernel⟩
    · exact List.sublist_append_left _ [unauthorized route 0 0]
    · simp [unauthorized]
    · decide
    · simp [unauthorized, route]
  · refine ⟨[unauthorized route 2 9, unauthorized route 1 5, unauthorized route 0 0], by decide, ?_,
      by decide +kernel⟩
    rintro ⟨group, hgroup, hconf, hlength, -⟩
    cases group with
    | nil => cases hlength
    | cons failure group =>
        have hmem := (hgroup.trans (List.filter_sublist.trans (counted_sublist _))).subset
          List.mem_cons_self
        have hroute : failure.conf = route := by
          simp only [List.mem_cons, List.not_mem_nil, or_false] at hmem
          rcases hmem with rfl | rfl | rfl <;> rfl
        have hother := hconf failure List.mem_cons_self
        rw [hroute] at hother
        exact absurd hother (by decide)

end Fail2BanPlugin

end Otoroshi
