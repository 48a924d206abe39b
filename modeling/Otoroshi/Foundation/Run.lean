/-
# Runs of a machine

A machine takes events one after the other. `Along` says that something holds at
every event of a run, about the state the event meets and the events that are
still to come. What holds along a run can be proved from what holds along every
end of it (`along_of_suffix`), so an argument about the rest of a run needs no
induction of its own.
-/

import Mathlib.Data.List.Basic

namespace Otoroshi

variable {σ ι : Type}

/-- It holds at every event of the run, of the state before the event, the event
and the events after it. -/
def Along (run : ι → σ → σ) (holds : σ → ι → List ι → Prop) : σ → List ι → Prop
  | _, [] => True
  | state, event :: rest => holds state event rest ∧ Along run holds (run event state) rest

instance Along.decidable (run : ι → σ → σ) (holds : σ → ι → List ι → Prop)
    [∀ state event rest, Decidable (holds state event rest)] :
    ∀ state events, Decidable (Along run holds state events)
  | _, [] => isTrue trivial
  | state, event :: rest =>
      have := Along.decidable run holds (run event state) rest
      inferInstanceAs (Decidable (holds state event rest ∧ Along run holds (run event state) rest))

variable {run : ι → σ → σ} {holds other : σ → ι → List ι → Prop} {state : σ} {events : List ι}

/-- What follows from a whole end of the run, at each of its events. -/
theorem along_of_suffix
    (h : ∀ state event rest, Along run holds state (event :: rest) → other state event rest)
    (hrun : Along run holds state events) : Along run other state events := by
  induction events generalizing state with
  | nil => exact trivial
  | cons event rest ih => exact ⟨h state event rest hrun, ih hrun.2⟩

theorem along_and (hholds : Along run holds state events) (hother : Along run other state events) :
    Along run (fun state event rest => holds state event rest ∧ other state event rest) state
      events := by
  induction events generalizing state with
  | nil => exact trivial
  | cons event rest ih => exact ⟨⟨hholds.1, hother.1⟩, ih hholds.2 hother.2⟩

/-- What holds of every event holds along every run. -/
theorem along_of_forall {allowed : ι → Prop} (h : ∀ event ∈ events, allowed event) :
    Along run (fun _ event _ => allowed event) state events := by
  induction events generalizing state with
  | nil => exact trivial
  | cons event rest ih =>
      exact ⟨h event List.mem_cons_self, ih fun later hlater =>
        h later (List.mem_cons_of_mem event hlater)⟩

/-- The state after the events. -/
def runAll (run : ι → σ → σ) (state : σ) (events : List ι) : σ :=
  events.foldl (fun state event => run event state) state

theorem runAll_append (first second : List ι) :
    runAll run state (first ++ second) = runAll run (runAll run state first) second :=
  List.foldl_append ..

/-- An invariant that every event keeps, if it meets what holds along the run, is there
at its end. -/
theorem runAll_invariant {inv : σ → Prop}
    (hstep : ∀ state event rest, inv state → holds state event rest → inv (run event state))
    (hrun : Along run holds state events) (h : inv state) : inv (runAll run state events) := by
  induction events generalizing state with
  | nil => exact h
  | cons event rest ih => exact ih hrun.2 (hstep state event rest h hrun.1)

/-- What every event of a run gives exactly when it meets something, as long as an invariant
is there, all events of a run give exactly when they all meet that. -/
theorem along_iff_of_inv {inv : σ → Prop} {gives meets : σ → ι → Prop}
    (hstep : ∀ state event, inv state → (gives state event ↔ meets state event))
    (hnext : ∀ state event, inv state → gives state event → inv (run event state))
    (h : inv state) :
    Along run (fun state event _ => gives state event) state events ↔
      Along run (fun state event _ => meets state event) state events := by
  induction events generalizing state with
  | nil => exact Iff.rfl
  | cons event rest ih =>
      rw [Along, Along, hstep state event h]
      apply and_congr_right
      intro hmeets
      exact ih (hnext state event h ((hstep state event h).mpr hmeets))

/-- An invariant that an event keeps exactly when it meets something is there after every
event of a run exactly when every event meets that. -/
theorem along_inv_iff {inv : σ → Prop} {meets : σ → ι → Prop}
    (hstep : ∀ state event, inv state → (inv (run event state) ↔ meets state event))
    (h : inv state) :
    Along run (fun state event _ => inv (run event state)) state events ↔
      Along run (fun state event _ => meets state event) state events :=
  along_iff_of_inv hstep (fun _ _ _ hinv => hinv) h

/-! ## Steps that may fail -/

/-- The items are taken one after the other, each with a step that is possible. -/
def Steps (step : ι → σ → σ → Prop) : List ι → σ → σ → Prop
  | [], before, after => before = after
  | item :: items, before, after =>
      ∃ middle, step item before middle ∧ Steps step items middle after

end Otoroshi
