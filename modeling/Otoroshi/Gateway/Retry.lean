/-
# Trying again

A call to a target that fails is made again, after a pause that grows by a factor each time. The
program counts the calls that are left down to zero and looks at nothing but whether the count is
zero, so a negative number of calls is counted down through all numbers of 32 bits.

`retry` gives the run as a list of what is done in order. The operation is described by what it
does each time it is called. `withinBudget_retry_iff` says for which inputs a run is the one that
the configuration asks for.
-/

import Otoroshi.Foundation.Json

namespace Otoroshi

/-! ## The configuration -/

/-- What a client configuration says about repeated calls. -/
structure RetryConfig where
  retries : Int32
  retryInitialDelay : Long
  backoffFactor : Long
  deriving DecidableEq

/-- What `NgClientConfig.format` reads, with its defaults. -/
def RetryConfig.reads (json : JsValue) : RetryConfig where
  retries := (json.select "retries").asOptOrElse .int 1
  retryInitialDelay := (json.select "retry_initial_delay").asOptOrElse .long ⟨50, rfl⟩
  backoffFactor := (json.select "backoff_factor").asOptOrElse .long ⟨2, isLong_two⟩

/-! ## The loop -/

/-- How a call of the operation ends: with a future that succeeds or fails, or with an exception
and no future. -/
inductive Outcome (T E : Type) where
  | success (t : T)
  | failure (e : E)
  | thrown (e : E)
  deriving DecidableEq

/-- What is done: a call with the number of its attempt, or a pause in milliseconds. -/
inductive RetryEvent where
  | call (attempt : Int)
  | wait (delay : Int)
  deriving DecidableEq

/-- What becomes of the promise. -/
inductive RetryResult (T E : Type) where
  | success (t : T)
  | failure (e : E)
  /-- `RuntimeException("Failure, but lost track of exception :-(")` -/
  | lostTrack
  /-- it is never completed -/
  | pending
  deriving DecidableEq

/-- What was done, and what it came to. -/
structure Retried (T E : Type) where
  events : List RetryEvent
  result : RetryResult T E
  deriving DecidableEq

/-- The events come first. -/
def Retried.after {T E : Type} (events : List RetryEvent) (later : Retried T E) : Retried T E where
  events := events ++ later.events
  result := later.result

/-- `delay.millis` is a duration, and the scheduler takes it. A duration has no more than 2^63
nanoseconds, and a scheduler may throw for a delay that is too long for it. -/
def schedulable (scheduler : Int → Bool) (delay : Int) : Bool :=
  delay.natAbs ≤ 9223372036854 && scheduler delay

theorem toNat_sub_one_lt {times : Int32} (h : times ≠ 0) :
    (times - 1).toBitVec.toNat < times.toBitVec.toNat := by
  have hne : times.toBitVec ≠ 0 := fun hzero => h (Int32.toBitVec_inj.mp hzero)
  rw [Int32.toBitVec_sub, Int32.toBitVec_one]
  bv_omega

namespace Retry

variable {T E : Type}

section Definitions

variable (scheduler : Int → Bool) (f : Nat → Outcome T E) (totalCalls : Int32) (factor : Long)

/-- `retryPromise`, where `made` is the number of calls so far. What throws when the future has
failed already leaves the promise as it is. -/
def retryPromise (times : Int32) (delay : Int) (failure : Option E) (made : Nat) : Retried T E :=
  if times = 0 then
    match failure with
    | some e => { events := [], result := .failure e }
    | none => { events := [], result := .lostTrack }
  else
    .after [.call (totalCalls - times + 1).toInt]
      (match f made with
      | .thrown e => { events := [], result := .failure e }
      | .success t => { events := [], result := .success t }
      | .failure e =>
          if delay = 0 then retryPromise (times - 1) 0 (some e) (made + 1)
          else if schedulable scheduler delay then
            .after [.wait delay]
              (retryPromise (times - 1) (wrapLong (delay * factor)) (some e) (made + 1))
          else { events := [], result := .pending })
termination_by times.toBitVec.toNat
decreasing_by all_goals exact toNat_sub_one_lt ‹_›

/-- `retry`. -/
def retry (times : Int32) (delay factor : Long) : Retried T E :=
  retryPromise scheduler f times factor times delay none 0

end Definitions

/-! ## What the configuration asks for -/

/-- Whether a future failed. -/
def Failed (outcome : Outcome T E) : Prop := ∃ e, outcome = .failure e

/-- A pause between two calls. No pause is made for no time at all. -/
def pause (delay : Int) : List RetryEvent := if delay = 0 then [] else [.wait delay]

/-- A call and so many repeats, with a pause before each of them. The first call is the one after
`made` others. -/
def callsAfter (delays : Nat → Int) (made : Nat) : Nat → List RetryEvent
  | 0 => [.call (made + 1)]
  | repeats + 1 =>
      .call (made + 1) :: (pause (delays made) ++ callsAfter delays (made + 1) repeats)

/-- The result of the last call is the result of all. A failed future is the last one when there
are no calls left. -/
def EndsAs (last : Outcome T E) (spent : Prop) (result : RetryResult T E) : Prop :=
  match last with
  | .success t => result = .success t
  | .failure e => spent ∧ result = .failure e
  | .thrown e => result = .failure e

/-- After `made` calls, the run makes one call and some repeats, no more than the budget in all,
the pauses before the repeats are the ones that are asked for, all calls but the last one fail, and
the last one gives the result. -/
def Keeps (f : Nat → Outcome T E) (delays : Nat → Int) (made budget : Nat) (run : Retried T E) :
    Prop :=
  ∃ repeats trailing, repeats + 1 ≤ budget ∧
    run.events = callsAfter delays made repeats ++ trailing ∧
    (∀ attempt, .call attempt ∉ trailing) ∧ (∀ k < repeats, Failed (f (made + k))) ∧
    EndsAs (f (made + repeats)) (repeats + 1 = budget) run.result

/-- The run is within the budget of the configuration. -/
def WithinBudget (f : Nat → Outcome T E) (times : Int32) (delay factor : Long)
    (run : Retried T E) : Prop :=
  Keeps f (fun k => delay * factor ^ k) 0 (max 1 times.toInt.toNat) run

/-! ## One call -/

section Steps

variable {scheduler : Int → Bool} {f : Nat → Outcome T E} {totalCalls times : Int32} {factor : Long}
  {delay : Int} {failure : Option E} {made : Nat}

/-- The pause is none, or the scheduler makes it. -/
def Accepted (scheduler : Int → Bool) (delay : Int) : Prop :=
  delay = 0 ∨ schedulable scheduler delay = true

instance : Decidable (Accepted scheduler delay) :=
  inferInstanceAs (Decidable (_ ∨ _))

theorem retryPromise_of_success {t : T} (h : times ≠ 0) (hf : f made = .success t) :
    retryPromise scheduler f totalCalls factor times delay failure made =
      ⟨[.call (totalCalls - times + 1).toInt], .success t⟩ := by
  rw [retryPromise.eq_def, if_neg h, hf]
  rfl

theorem retryPromise_of_thrown {e : E} (h : times ≠ 0) (hf : f made = .thrown e) :
    retryPromise scheduler f totalCalls factor times delay failure made =
      ⟨[.call (totalCalls - times + 1).toInt], .failure e⟩ := by
  rw [retryPromise.eq_def, if_neg h, hf]
  rfl

theorem retryPromise_zero {e : E} :
    retryPromise scheduler f totalCalls factor 0 delay (some e) made = ⟨[], .failure e⟩ := by
  rw [retryPromise.eq_def, if_pos rfl]

/-- A failed future is followed by a pause, even when no call is left, and a pause that is refused
is the end. -/
theorem retryPromise_of_failure {e : E} (h : times ≠ 0) (hf : f made = .failure e) :
    retryPromise scheduler f totalCalls factor times delay failure made =
      .after [.call (totalCalls - times + 1).toInt]
        (if Accepted scheduler delay then
          .after (pause delay) (retryPromise scheduler f totalCalls factor (times - 1)
            (wrapLong (delay * factor)) (some e) (made + 1))
        else ⟨[], .pending⟩) := by
  nth_rewrite 1 [retryPromise.eq_def]
  rw [if_neg h, hf]
  by_cases hdelay : delay = 0
  · have hnone : wrapLong (0 * factor.1) = 0 := by rw [Int.zero_mul]; rfl
    subst hdelay
    simp only [hnone, Accepted, pause, true_or, if_true, Retried.after, List.nil_append]
  · simp only [Accepted, pause, hdelay, false_or, if_false]

end Steps

/-! ## A whole run -/

section Runs

variable {scheduler : Int → Bool} {f : Nat → Outcome T E} {totalCalls times : Int32} {factor : Long}
  {failure : Option E} {made left : Nat} {delays : Nat → Int} {run : Retried T E} {delay : Int}

theorem callsAfter_eq_cons (delays : Nat → Int) (made repeats : Nat) :
    ∃ later, callsAfter delays made repeats = .call (made + 1) :: later := by
  cases repeats with
  | zero => exact ⟨_, rfl⟩
  | succ repeats => exact ⟨_, rfl⟩

/-- A pause before a call can be told from the events. -/
theorem pause_append_call_inj {delay delay' attempt attempt' : Int}
    {events events' : List RetryEvent}
    (h : pause delay ++ .call attempt :: events = pause delay' ++ .call attempt' :: events') :
    delay = delay' ∧ RetryEvent.call attempt :: events = .call attempt' :: events' := by
  unfold pause at h
  split at h <;> split at h <;> simp_all

/-- Where the first call does not fail, it is the only one. -/
theorem keeps_one (hspent : ¬ Failed (f made)) (hbudget : 0 < left)
    (hends : EndsAs (f made) True run.result) (hevents : run.events = [.call (made + 1)]) :
    Keeps f delays made left run := by
  refine ⟨0, [], hbudget, by rw [hevents]; rfl, fun _ => List.not_mem_nil,
    fun k hk => absurd hk (Nat.not_lt_zero k), ?_⟩
  rw [Nat.add_zero]
  cases hf : f made with
  | success t => rwa [hf] at hends
  | thrown e => rwa [hf] at hends
  | failure e => exact absurd ⟨e, hf⟩ hspent

/-- A run that leaves its promise alone is not within any budget. -/
theorem not_keeps_of_pending (h : run.result = .pending) : ¬ Keeps f delays made left run := by
  rintro ⟨repeats, trailing, -, -, -, -, hends⟩
  rw [h] at hends
  cases hf : f (made + repeats) with
  | success t => rw [hf] at hends; cases hends
  | thrown e => rw [hf] at hends; cases hends
  | failure e => rw [hf] at hends; cases hends.2

/-- The last call of the budget fails. -/
theorem keeps_last {e : E} (hf : f made = .failure e) :
    Keeps f delays made 1 (.after [.call (made + 1)] (.after (pause delay) ⟨[], .failure e⟩)) := by
  refine ⟨0, pause delay, Nat.le_refl 1, ?_, ?_, fun k hk => absurd hk (Nat.not_lt_zero k), ?_⟩
  · rw [Retried.after, Retried.after, List.append_nil]
    rfl
  · intro attempt
    unfold pause
    split <;> simp
  · rw [Nat.add_zero, hf]
    exact ⟨rfl, rfl⟩

/-- A call that fails is repeated as it should be if the pause is the one that is asked for and the
rest of the run is within the rest of the budget. -/
theorem keeps_after_failure_iff {e : E} (hf : f made = .failure e) (hleft : 0 < left)
    (hrun : ∃ attempt later, run.events = .call attempt :: later) :
    Keeps f delays made (left + 1) (.after [.call (made + 1)] (.after (pause delay) run)) ↔
      delay = delays made ∧ Keeps f delays (made + 1) left run := by
  constructor
  · rintro ⟨repeats, trailing, hbudget, hevents, htrailing, hfailed, hends⟩
    cases repeats with
    | zero =>
        rw [Nat.add_zero, hf] at hends
        exact absurd hends.1 (by omega)
    | succ repeats =>
        obtain ⟨attempt, later, hlater⟩ := hrun
        obtain ⟨rest, hrest⟩ := callsAfter_eq_cons delays (made + 1) repeats
        have hpauses : pause delay ++ .call attempt :: later =
            pause (delays made) ++ .call ((made + 1 : Nat) + 1) :: (rest ++ trailing) := by
          simpa [Retried.after, callsAfter, hlater, hrest] using hevents
        obtain ⟨hdelay, hcalls⟩ := pause_append_call_inj hpauses
        refine ⟨hdelay, repeats, trailing, by omega, ?_, htrailing, fun k hk => ?_, ?_⟩
        · rw [hlater, hcalls, hrest]
          rfl
        · rw [Nat.add_assoc, Nat.add_comm 1 k]
          exact hfailed (k + 1) (by omega)
        · rw [Nat.add_assoc, Nat.add_comm 1 repeats]
          simpa [Retried.after] using hends
  · rintro ⟨rfl, repeats, trailing, hbudget, hevents, htrailing, hfailed, hends⟩
    refine ⟨repeats + 1, trailing, by omega, ?_, htrailing, fun k hk => ?_, ?_⟩
    · simp [Retried.after, callsAfter, hevents]
    · cases k with
      | zero => exact ⟨e, hf⟩
      | succ k =>
          have hk := hfailed k (by omega)
          rwa [Nat.add_assoc, Nat.add_comm 1 k] at hk
    · rw [Nat.add_assoc, Nat.add_comm 1 repeats] at hends
      simpa [Retried.after] using hends

/-- The pauses of the program: each one is the one before it times the factor, in 64 bits. -/
theorem wrapLong_pow_succ (delay factor : Int) (k : Nat) :
    wrapLong (wrapLong (delay * factor ^ k) * factor) = wrapLong (delay * factor ^ (k + 1)) := by
  rw [pow_succ, ← Int.mul_assoc]
  exact Int.bmod_mul_bmod

/-- The number of an attempt counts the calls before it. -/
theorem toInt_attempt (htimes : times.toInt = left) (htotal : totalCalls.toInt = made + left)
    (hleft : 0 < left) : (totalCalls - times + 1).toInt = made + 1 := by
  have htop := totalCalls.toInt_lt
  have hmade : (totalCalls - times).toInt = made := by
    rw [Int32.toInt_sub, htimes, htotal, Int.add_sub_cancel]
    exact Int.bmod_eq_of_le (by omega) (by omega)
  have hone : (1 : Int32).toInt = 1 := rfl
  rw [Int32.toInt_add, hmade, hone]
  exact Int.bmod_eq_of_le (by omega) (by omega)

/-- What has to hold of the failures from a call on, with the pauses that are asked for and the
pauses of the program. -/
def Covers (scheduler : Int → Bool) (f : Nat → Outcome T E) (delays wrapped : Nat → Int)
    (made left : Nat) : Prop :=
  ∀ k < left, (∀ j ≤ k, Failed (f (made + j))) →
    Accepted scheduler (wrapped (made + k)) ∧
      (k + 1 < left → wrapped (made + k) = delays (made + k))

theorem covers_of_not_failed {wrapped : Nat → Int} (h : ¬ Failed (f made)) :
    Covers scheduler f delays wrapped made left :=
  fun _ _ hfailed => absurd (hfailed 0 (Nat.zero_le _)) h

theorem covers_succ_iff {wrapped : Nat → Int} (h : Failed (f made)) :
    Covers scheduler f delays wrapped made (left + 1) ↔
      Accepted scheduler (wrapped made) ∧ (0 < left → wrapped made = delays made) ∧
        Covers scheduler f delays wrapped (made + 1) left := by
  constructor
  · intro hcovers
    have hfirst := hcovers 0 (Nat.succ_pos left) fun j hj => by
      rwa [Nat.le_zero.mp hj]
    refine ⟨hfirst.1, fun hleft => hfirst.2 (Nat.succ_lt_succ hleft), fun k hk hfailed => ?_⟩
    have hnext := hcovers (k + 1) (Nat.succ_lt_succ hk) fun j hj => by
      cases j with
      | zero => exact h
      | succ j =>
          simpa [Nat.add_assoc, Nat.add_comm 1 j] using hfailed j (Nat.le_of_succ_le_succ hj)
    rw [Nat.add_assoc, Nat.add_comm 1 k]
    exact ⟨hnext.1, fun hmore => hnext.2 (Nat.succ_lt_succ hmore)⟩
  · rintro ⟨haccepted, hdelay, hcovers⟩ k hk hfailed
    cases k with
    | zero => exact ⟨haccepted, fun hleft => hdelay (Nat.lt_of_succ_lt_succ hleft)⟩
    | succ k =>
        have hnext := hcovers k (Nat.lt_of_succ_lt_succ hk) fun j hj => by
          rw [Nat.add_assoc, Nat.add_comm 1 j]
          exact hfailed (j + 1) (Nat.succ_le_succ hj)
        rw [Nat.add_assoc, Nat.add_comm 1 k] at hnext
        exact ⟨hnext.1, fun hmore => hnext.2 (Nat.lt_of_succ_lt_succ hmore)⟩

/-- A call that does not fail ends the run as it should. -/
theorem keeps_retryPromise_of_not_failed (h : times ≠ 0) (hf : ¬ Failed (f made))
    (hattempt : (totalCalls - times + 1).toInt = made + 1) (hleft : 0 < left) :
    Keeps f delays made left
      (retryPromise scheduler f totalCalls factor times delay failure made) := by
  cases hcall : f made with
  | success t =>
      rw [retryPromise_of_success h hcall, hattempt]
      exact keeps_one hf hleft (by rw [hcall]; rfl) rfl
  | thrown e =>
      rw [retryPromise_of_thrown h hcall, hattempt]
      exact keeps_one hf hleft (by rw [hcall]; rfl) rfl
  | failure e => exact absurd ⟨e, hcall⟩ hf

/-- While calls are left, what is done next is a call. -/
theorem exists_retryPromise_events (h : times ≠ 0) :
    ∃ attempt later, (retryPromise scheduler f totalCalls factor times delay failure made).events =
      .call attempt :: later := by
  cases hcall : f made with
  | success t => exact ⟨_, _, congrArg Retried.events (retryPromise_of_success h hcall)⟩
  | thrown e => exact ⟨_, _, congrArg Retried.events (retryPromise_of_thrown h hcall)⟩
  | failure e => exact ⟨_, _, congrArg Retried.events (retryPromise_of_failure h hcall)⟩

/-- What is left to show of one call is what follows a failure with a pause that is made. -/
theorem keeps_retryPromise_step {wrapped : Nat → Int} (h : times ≠ 0)
    (hattempt : (totalCalls - times + 1).toInt = made + 1)
    (hrest : ∀ e, f made = .failure e →
      (Keeps f delays made (left + 1) (.after [.call (made + 1)] (.after (pause (wrapped made))
          (retryPromise scheduler f totalCalls factor (times - 1)
            (wrapLong (wrapped made * factor)) (some e) (made + 1)))) ↔
        (0 < left → wrapped made = delays made) ∧
          Covers scheduler f delays wrapped (made + 1) left)) :
    Keeps f delays made (left + 1)
        (retryPromise scheduler f totalCalls factor times (wrapped made) failure made) ↔
      Covers scheduler f delays wrapped made (left + 1) := by
  by_cases hf : Failed (f made)
  · obtain ⟨e, hcall⟩ := hf
    rw [covers_succ_iff ⟨e, hcall⟩, retryPromise_of_failure h hcall, hattempt]
    by_cases haccepted : Accepted scheduler (wrapped made)
    · rw [if_pos haccepted, hrest e hcall, and_iff_right haccepted]
    · rw [if_neg haccepted]
      exact iff_of_false (not_keeps_of_pending rfl) fun hcovers => haccepted hcovers.1
  · exact iff_of_true (keeps_retryPromise_of_not_failed h hf hattempt (Nat.succ_pos left))
      (covers_of_not_failed hf)

theorem ne_zero_of_toInt {n : Nat} (h : times.toInt = (n + 1 : Nat)) : times ≠ 0 := by
  rintro rfl
  exact absurd h (Int.ne_of_lt (Int.natCast_pos.mpr n.succ_pos))

theorem toInt_sub_one {n : Nat} (h : times.toInt = (n + 1 : Nat)) : (times - 1).toInt = n := by
  have hone : (1 : Int32).toInt = 1 := rfl
  have htop := times.toInt_lt
  rw [Int32.toInt_sub, h, hone, Int.natCast_succ, Int.add_sub_cancel]
  exact Int.bmod_eq_of_le (by omega) (by omega)

/-- From any call on, a run is within what is left of the budget if and only if the pauses after
its failures can be made, and are the ones that are asked for. -/
theorem keeps_retryPromise_iff (wrapped : Nat → Int)
    (hwrapped : ∀ k, wrapped (k + 1) = wrapLong (wrapped k * factor))
    (htimes : times.toInt = (left + 1 : Nat))
    (htotal : totalCalls.toInt = made + (left + 1 : Nat)) :
    Keeps f delays made (left + 1)
        (retryPromise scheduler f totalCalls factor times (wrapped made) failure made) ↔
      Covers scheduler f delays wrapped made (left + 1) := by
  have hattempt := toInt_attempt htimes htotal left.succ_pos
  induction left generalizing times failure made with
  | zero =>
      refine keeps_retryPromise_step (ne_zero_of_toInt htimes) hattempt fun e hcall => ?_
      have hnext : times - 1 = 0 := Int32.toInt_inj.mp (toInt_sub_one htimes)
      rw [hnext, retryPromise_zero]
      exact iff_of_true (keeps_last hcall) ⟨nofun, fun _ hk => absurd hk (Nat.not_lt_zero _)⟩
  | succ left ih =>
      have hnext := toInt_sub_one htimes
      have hrest : totalCalls.toInt = (made + 1 : Nat) + (left + 1 : Nat) := by omega
      refine keeps_retryPromise_step (ne_zero_of_toInt htimes) hattempt fun e hcall => ?_
      have htail : Keeps f delays (made + 1) (left + 1) (retryPromise scheduler f totalCalls factor
          (times - 1) (wrapped (made + 1)) (some e) (made + 1)) ↔
            Covers scheduler f delays wrapped (made + 1) (left + 1) :=
        ih hnext hrest (toInt_attempt hnext hrest left.succ_pos)
      rw [keeps_after_failure_iff hcall left.succ_pos
          (exists_retryPromise_events (ne_zero_of_toInt hnext)), ← hwrapped made, htail]
      simp

/-- A budget that is negative allows one call, and it is repeated if it fails. -/
theorem keeps_one_iff_of_neg (htimes : times.toInt < 0) :
    Keeps f delays 0 1 (retryPromise scheduler f times factor times delay failure 0) ↔
      ¬ Failed (f 0) := by
  have h : times ≠ 0 := by
    rintro rfl
    exact absurd htimes (Int.lt_irrefl 0)
  have hattempt : (times - times + 1).toInt = (0 : Nat) + 1 := by
    rw [Int32.sub_self]
    rfl
  refine ⟨?_, fun hf => keeps_retryPromise_of_not_failed h hf hattempt Nat.one_pos⟩
  rintro hkeeps ⟨e, hcall⟩
  have hrest : times - 1 ≠ 0 := by
    intro hone
    have hsame : times = 1 := by
      rw [← Int32.sub_add_cancel times 1, hone]
      rfl
    rw [hsame] at htimes
    exact absurd htimes (by decide)
  rw [retryPromise_of_failure h hcall] at hkeeps
  by_cases haccepted : Accepted scheduler delay
  · rw [if_pos haccepted] at hkeeps
    obtain ⟨repeats, trailing, hbudget, hevents, htrailing, -⟩ := hkeeps
    have hevents' : ∃ attempt later, (retryPromise scheduler f times factor (times - 1)
        (wrapLong (delay * factor)) (some e) (0 + 1)).events = .call attempt :: later :=
      exists_retryPromise_events hrest
    obtain ⟨attempt, later, hlater⟩ := hevents'
    obtain rfl : repeats = 0 := by omega
    have hrepeat : .call attempt ∈ trailing := by
      have hpauses : trailing = pause delay ++ .call attempt :: later := by
        simpa [Retried.after, callsAfter, hlater] using (List.cons.inj hevents).2.symm
      rw [hpauses]
      exact List.mem_append_right _ List.mem_cons_self
    exact htrailing attempt hrepeat
  · rw [if_neg haccepted] at hkeeps
    exact not_keeps_of_pending rfl hkeeps

/-! ## The budget -/

section Budget

variable (scheduler : Int → Bool) (f : Nat → Outcome T E) (times : Int32) (delay factor : Long)

/-- The configured number is not zero, a first call under a negative number does not fail, and the
pauses after the calls that fail can be made and, where a repeat follows, fit a `Long`. -/
structure Covered : Prop where
  ne_zero : times ≠ 0
  not_failed_of_neg : times.toInt < 0 → ¬ Failed (f 0)
  pauses : ∀ k < times.toInt.toNat, (∀ j ≤ k, Failed (f j)) →
    Accepted scheduler (wrapLong (delay * factor ^ k)) ∧
      (k + 1 < times.toInt.toNat → isLong (delay * factor ^ k) = true)

theorem wrapLong_eq_self_iff {n : Int} : wrapLong n = n ↔ isLong n = true :=
  ⟨fun h => h ▸ isLong_wrapLong n, wrapLong_of_isLong⟩

/-- The pauses of the program against the pauses of the configuration. -/
theorem covers_iff (n : Nat) :
    Covers scheduler f (fun k => delay * factor ^ k) (fun k => wrapLong (delay * factor ^ k)) 0 n ↔
      ∀ k < n, (∀ j ≤ k, Failed (f j)) → Accepted scheduler (wrapLong (delay * factor ^ k)) ∧
        (k + 1 < n → isLong (delay * factor ^ k) = true) := by
  simp only [Covers, Nat.zero_add, wrapLong_eq_self_iff]

theorem not_keeps_of_no_events {delays : Nat → Int} {made left : Nat} {run : Retried T E}
    (h : run.events = []) : ¬ Keeps f delays made left run := by
  rintro ⟨repeats, trailing, -, hevents, -⟩
  obtain ⟨later, hlater⟩ := callsAfter_eq_cons delays made repeats
  rw [h, hlater] at hevents
  cases hevents

/-- The run of a configuration is within its budget exactly when the configuration covers the
failures of the operation. -/
theorem withinBudget_retry_iff :
    WithinBudget f times delay factor (retry scheduler f times delay factor) ↔
      Covered scheduler f times delay factor := by
  rw [WithinBudget, retry]
  rcases Int.lt_trichotomy times.toInt 0 with hneg | hzero | hpos
  · have hnone : times.toInt.toNat = 0 := Int.toNat_of_nonpos (Int.le_of_lt hneg)
    have hne : times ≠ 0 := by
      rintro rfl
      exact absurd hneg (Int.lt_irrefl 0)
    rw [hnone, Nat.max_zero, keeps_one_iff_of_neg hneg]
    constructor
    · intro hf
      refine ⟨hne, fun _ => hf, fun k hk => ?_⟩
      rw [hnone] at hk
      exact absurd hk (Nat.not_lt_zero k)
    · intro hcovered
      exact hcovered.not_failed_of_neg hneg
  · obtain rfl : times = 0 := Int32.toInt_inj.mp hzero
    refine iff_of_false (not_keeps_of_no_events f ?_) fun hcovered => hcovered.ne_zero rfl
    rw [retryPromise.eq_def, if_pos rfl]
  · obtain ⟨left, hleft⟩ : ∃ left : Nat, times.toInt = (left + 1 : Nat) :=
      ⟨times.toInt.toNat - 1, by omega⟩
    have hbudget : times.toInt.toNat = left + 1 := by rw [hleft]; rfl
    have hdelay : wrapLong (delay * factor ^ 0) = delay := by
      rw [pow_zero, Int.mul_one, wrapLong_of_isLong delay.2]
    have hrun : Keeps f (fun k => delay * factor ^ k) 0 (left + 1) (retryPromise scheduler f times
        factor times (wrapLong (delay * factor ^ 0)) none 0) ↔ Covers scheduler f
          (fun k => delay * factor ^ k) (fun k => wrapLong (delay * factor ^ k)) 0 (left + 1) :=
      keeps_retryPromise_iff (fun k => wrapLong (delay * factor ^ k))
        (fun k => (wrapLong_pow_succ delay factor k).symm) hleft
        (by rw [hleft, Int.natCast_zero, Int.zero_add])
    rw [hdelay] at hrun
    rw [hbudget, Nat.max_eq_right (Nat.succ_pos left), hrun, covers_iff]
    constructor
    · intro hpauses
      exact ⟨ne_zero_of_toInt hleft, fun hneg => absurd hneg (by omega), by rwa [hbudget]⟩
    · intro hcovered
      rw [← hbudget]
      exact hcovered.pauses

/-- A negative number of retries is read from a configuration, and an operation that fails once is
called again. -/
theorem not_withinBudget_of_negative_retries :
    let config := RetryConfig.reads (Json.obj [("retries", Json.int (-1))])
    let f : Nat → Outcome Unit Unit := fun k => if k = 0 then .failure () else .success ()
    ¬ WithinBudget f config.retries config.retryInitialDelay config.backoffFactor
      (retry (fun _ => true) f config.retries config.retryInitialDelay config.backoffFactor) := by
  intro config f
  have hretries : config.retries = -1 := by
    simp only [config, RetryConfig.reads, select_obj_cons, if_true]
    rw [asOptOrElse_of_ok (reads_int (-1))]
  have hbudget : max 1 (-1 : Int32).toInt.toNat = 1 := rfl
  rw [hretries, WithinBudget, hbudget, retry, keeps_one_iff_of_neg (by decide)]
  exact not_not_intro ⟨(), rfl⟩

end Budget

end Runs

end Retry

end Otoroshi
