/-
# Computations that others come between

A resumption takes one step after the other on a state that it shares. Between two of its steps
others can change the state in any way, so each step may find any state. A step can leave events
behind.

`Yields` says which events a whole run leaves and which value it ends with; it follows the way a
resumption is put together. `Reaches` says what of a resumption is left after some of its steps.
What has been left behind at any time is the beginning of what a whole run leaves
(`Reaches.exists_yields`), so it is enough to know the whole runs.
-/

import Mathlib.Data.List.Basic

namespace Otoroshi

/-- A value, or a step that changes the state and leaves events. -/
inductive Resumption (σ ε α : Type)
  | ends (value : α)
  | steps (change : σ → σ) (emits : σ → List ε) (rest : σ → Resumption σ ε α)

namespace Resumption

variable {σ ε α β : Type}

def bind (next : α → Resumption σ ε β) : Resumption σ ε α → Resumption σ ε β
  | ends value => next value
  | steps change emits rest => steps change emits fun state => (rest state).bind next

instance : Monad (Resumption σ ε) where
  pure := ends
  bind first next := bind next first

/-- One step, with the value it computes. -/
def perform (step : σ → α × σ) (emits : α → List ε) : Resumption σ ε α :=
  steps (fun state => (step state).2) (fun state => emits (step state).1)
    fun state => ends (step state).1

/-- A whole run: its events and the value it ends with. -/
inductive Yields : Resumption σ ε α → List ε → α → Prop
  | ends (value : α) : Yields (ends value) [] value
  | steps {change : σ → σ} {emits : σ → List ε} {rest : σ → Resumption σ ε α} {events : List ε}
      {value : α} (state : σ) (h : Yields (rest state) events value) :
      Yields (steps change emits rest) (emits state ++ events) value

/-- What is left of a resumption after some of its steps, and the events they have left. -/
inductive Reaches (start : Resumption σ ε α) : List ε → Resumption σ ε α → Prop
  | refl : Reaches start [] start
  | step {events : List ε} {change : σ → σ} {emits : σ → List ε} {rest : σ → Resumption σ ε α}
      (h : Reaches start events (steps change emits rest)) (state : σ) :
      Reaches start (events ++ emits state) (rest state)

variable {first : Resumption σ ε α} {next : α → Resumption σ ε β} {events : List ε}

theorem yields_ends_iff {value other : α} :
    Yields (ends value : Resumption σ ε α) events other ↔ events = [] ∧ other = value := by
  constructor
  · intro h
    cases h
    exact ⟨rfl, rfl⟩
  · rintro ⟨rfl, rfl⟩
    exact .ends other

theorem yields_perform_iff {step : σ → α × σ} {emits : α → List ε} {value : α} :
    Yields (perform step emits) events value ↔
      ∃ state, value = (step state).1 ∧ events = emits value := by
  constructor
  · intro h
    cases h with
    | steps state h =>
        obtain ⟨rfl, rfl⟩ := yields_ends_iff.mp h
        exact ⟨state, rfl, List.append_nil _⟩
  · rintro ⟨state, rfl, rfl⟩
    exact List.append_nil (emits (step state).1) ▸ .steps state (.ends _)

/-- A whole run of a sequence is one of each part. -/
theorem yields_bind_iff {value : β} :
    Yields (first >>= next) events value ↔ ∃ middle before after,
      events = before ++ after ∧ Yields first before middle ∧
        Yields (next middle) after value := by
  constructor
  · intro h
    induction first generalizing events with
    | ends a => exact ⟨a, [], events, rfl, .ends a, h⟩
    | steps change emits rest ih =>
        cases h with
        | steps state h =>
            obtain ⟨middle, before, after, rfl, hfirst, hnext⟩ := ih state h
            exact ⟨middle, emits state ++ before, after, (List.append_assoc ..).symm,
              .steps state hfirst, hnext⟩
  · rintro ⟨middle, before, after, rfl, hfirst, hnext⟩
    induction hfirst with
    | ends a => exact hnext
    | steps state h ih =>
        rw [List.append_assoc]
        exact .steps state (ih hnext)

/-- What is left can be run to its end, and makes up a whole run with what has been done. -/
theorem Reaches.yields {left : Resumption σ ε α} {more : List ε} {value : α}
    (h : Reaches first events left) (hleft : Yields left more value) :
    Yields first (events ++ more) value := by
  induction h generalizing more with
  | refl => exact hleft
  | step h state ih =>
      rw [List.append_assoc]
      exact ih (.steps state hleft)

theorem Reaches.yields_ends {value : α} (h : Reaches first events (.ends value)) :
    Yields first events value :=
  List.append_nil events ▸ h.yields (.ends value)

theorem exists_yields [Nonempty σ] (first : Resumption σ ε α) :
    ∃ events value, Yields first events value := by
  induction first with
  | ends value => exact ⟨[], value, .ends value⟩
  | steps change emits rest ih =>
      obtain ⟨state⟩ := ‹Nonempty σ›
      obtain ⟨events, value, h⟩ := ih state
      exact ⟨emits state ++ events, value, .steps state h⟩

/-- What has been left behind is the beginning of what a whole run leaves. -/
theorem Reaches.exists_yields [Nonempty σ] {left : Resumption σ ε α}
    (h : Reaches first events left) : ∃ more value, Yields first (events ++ more) value := by
  obtain ⟨more, value, hleft⟩ := Resumption.exists_yields left
  exact ⟨more, value, h.yields hleft⟩

/-- A run that nothing comes between: its value, the state afterwards and its events. -/
def alone : Resumption σ ε α → σ → α × σ × List ε
  | ends value, state => (value, state, [])
  | steps change emits rest, state =>
      let (value, after, events) := (rest state).alone (change state)
      (value, after, emits state ++ events)

end Resumption

end Otoroshi
