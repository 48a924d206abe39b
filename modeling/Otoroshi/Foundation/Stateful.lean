/-
# Computations over a hidden state

A computation reads and changes a state, and either returns a value or stops
with an exception; what it did to the state before an exception stays done.

Caches and pools make a computation stateful without changing what it computes.
`Shows` says so: from every state that satisfies an invariant, the computation
ends as a fixed stateless one does, and the invariant still holds. It composes
along `do` blocks, so a stateful search built from lookups that show their
values shows the value of the same search over stateless lookups.
-/

import Mathlib.Data.List.Basic

namespace Otoroshi

/-! ## Stateless computations -/

section Except

variable {ε α β : Type}

@[simp]
theorem ok_bind (value : α) (next : α → Except ε β) :
    ((Except.ok value : Except ε α) >>= next) = next value := rfl

@[simp]
theorem error_bind (e : ε) (next : α → Except ε β) :
    ((Except.error e : Except ε α) >>= next) = .error e := rfl

@[simp]
theorem pure_eq_ok (value : α) : (pure value : Except ε α) = .ok value := rfl

@[simp]
theorem map_ok (f : α → β) (value : α) :
    Except.map f (.ok value : Except ε α) = .ok (f value) := rfl

@[simp]
theorem map_error (f : α → β) (e : ε) :
    Except.map f (.error e : Except ε α) = .error e := rfl

/-- A sequence returns a value exactly when both of its parts do. -/
theorem bind_eq_ok_iff {program : Except ε α} {next : α → Except ε β} {value : β} :
    (program >>= next) = .ok value ↔ ∃ a, program = .ok a ∧ next a = .ok value := by
  cases program <;> simp

theorem map_eq_ok_iff {program : Except ε α} {f : α → β} {value : β} :
    Except.map f program = .ok value ↔ ∃ a, program = .ok a ∧ f a = value := by
  cases program <;> simp

theorem mapError_eq_ok_iff {ε' : Type} {program : Except ε α} {f : ε → ε'} {value : α} :
    program.mapError f = .ok value ↔ program = .ok value := by
  cases program <;> simp [Except.mapError]

theorem map_injective {f : α → β} (hf : Function.Injective f) :
    Function.Injective (Except.map f : Except ε α → Except ε β) := by
  intro first second h
  cases first with
  | error e =>
      cases second with
      | error e' => simpa using h
      | ok b => cases h
  | ok a =>
      cases second with
      | error e' => cases h
      | ok b => exact congrArg Except.ok (hf (Except.ok.inj h))

end Except

/-! ## Computations with a state -/

/-- A computation over a state that may stop with an exception. -/
def Stateful (σ ε α : Type) := σ → Except ε α × σ

namespace Stateful

variable {σ ε α β : Type}

instance : Monad (Stateful σ ε) where
  pure value := fun state => (.ok value, state)
  bind program next := fun state =>
    match program state with
    | (.ok value, after) => next value after
    | (.error e, after) => (.error e, after)

instance : LawfulMonad (Stateful σ ε) := by
  refine LawfulMonad.mk' (Stateful σ ε) ?_ ?_ ?_
  · intro α program
    funext state
    change (match program state with
      | (.ok value, after) => (Except.ok value, after)
      | (.error e, after) => (.error e, after)) = program state
    rcases program state with ⟨_ | _, _⟩ <;> rfl
  · intros
    rfl
  · intro α β γ program next last
    funext state
    simp only [bind]
    rcases program state with ⟨_ | _, _⟩ <;> rfl

/-- Read the state. -/
def get : Stateful σ ε σ := fun state => (.ok state, state)

/-- Change the state. -/
def modify (f : σ → σ) : Stateful σ ε Unit := fun state => (.ok (), f state)

/-- Stop with an exception. -/
def throw (e : ε) : Stateful σ ε α := fun state => (.error e, state)

/-- A first part that returns hands its value and its state on. -/
theorem bind_of_ok {program : Stateful σ ε α} {next : α → Stateful σ ε β} {state after : σ}
    {value : α} (h : program state = (.ok value, after)) :
    (program >>= next) state = next value after := by
  simp only [bind, h]

theorem get_bind_apply (next : σ → Stateful σ ε α) (state : σ) :
    ((get : Stateful σ ε σ) >>= next) state = next state state := rfl

/-- A first part that throws is all there is. -/
theorem bind_of_error {program : Stateful σ ε α} {next : α → Stateful σ ε β} {state after : σ}
    {e : ε} (h : program state = (.error e, after)) :
    (program >>= next) state = (.error e, after) := by
  simp only [bind, h]

/-- A sequence that returns has a first part that does. -/
theorem exists_of_bind {program : Stateful σ ε α} {next : α → Stateful σ ε β} {state after : σ}
    {value : β} (h : (program >>= next) state = (.ok value, after)) :
    ∃ first middle, program state = (.ok first, middle) ∧
      next first middle = (.ok value, after) := by
  simp only [bind] at h
  rcases hrun : program state with ⟨e | first, middle⟩
  · rw [hrun] at h
    cases h
  · rw [hrun] at h
    exact ⟨first, middle, rfl, h⟩

theorem bind_bind (program : Stateful σ ε α) {γ : Type} (next : α → Stateful σ ε β)
    (last : β → Stateful σ ε γ) :
    ((program >>= next) >>= last) = program >>= fun a => next a >>= last := by
  funext state
  rcases hrun : program state with ⟨e | a, after⟩
  · rw [bind_of_error hrun, bind_of_error (bind_of_error hrun)]
  · rw [bind_of_ok hrun]
    simp only [bind, hrun]

theorem pure_bind_eq (value : α) (next : α → Stateful σ ε β) :
    ((pure value : Stateful σ ε α) >>= next) = next value := rfl

/-- A result that does not depend on the state. -/
def ofExcept (result : Except ε α) : Stateful σ ε α := fun state => (result, state)

@[simp]
theorem pure_apply (value : α) (state : σ) :
    (pure value : Stateful σ ε α) state = (.ok value, state) := rfl

@[simp]
theorem ofExcept_ok_bind_apply (value : α) (next : α → Stateful σ ε β) (state : σ) :
    (ofExcept (.ok value) >>= next) state = next value state := rfl

@[simp]
theorem ofExcept_error_bind_apply (e : ε) (next : α → Stateful σ ε β) (state : σ) :
    (ofExcept (.error e) >>= next) state = (.error e, state) := rfl

@[simp]
theorem modify_bind_apply (f : σ → σ) (next : Unit → Stateful σ ε β) (state : σ) :
    (modify f >>= next) state = next () (f state) := rfl

@[simp]
theorem map_modify_apply (value : α) (f : σ → σ) (state : σ) :
    ((fun _ => value) <$> (modify f : Stateful σ ε Unit)) state = (.ok value, f state) := rfl

/-- A program as a part of one with other exceptions. -/
def mapError {δ : Type} (f : ε → δ) (program : Stateful σ ε α) : Stateful σ δ α := fun state =>
  ((program state).1.mapError f, (program state).2)

theorem mapError_of_ok {δ : Type} {program : Stateful σ ε α} {state after : σ} {value : α}
    (h : program state = (.ok value, after)) (f : ε → δ) :
    mapError f program state = (.ok value, after) := by
  rw [mapError, h]
  rfl

/-- A program on the first of two states. -/
def onFirst {τ : Type} (program : Stateful σ ε α) : Stateful (σ × τ) ε α := fun state =>
  ((program state.1).1, (program state.1).2, state.2)

theorem onFirst_of_ok {τ : Type} {program : Stateful σ ε α} {state after : σ} {value : α}
    (h : program state = (.ok value, after)) (other : τ) :
    onFirst program (state, other) = (.ok value, after, other) := by
  rw [onFirst, h]

theorem eq_ok_of_onFirst {τ : Type} {program : Stateful σ ε α} {state after : σ × τ} {value : α}
    (h : onFirst program state = (.ok value, after)) :
    program state.1 = (.ok value, after.1) := by
  rw [onFirst, Prod.mk.injEq] at h
  rw [← h.1, ← h.2]

/-- What comes after a program on the first state finds the second one as it was. -/
theorem second_of_bind_onFirst {τ : Type} {program : Stateful σ ε α}
    {next : α → Stateful (σ × τ) ε β} {state : σ × τ} (holds : τ → Prop) (hthrows : holds state.2)
    (hreturns : ∀ value after, program state.1 = (.ok value, after) →
      holds (next value (after, state.2)).2.2) :
    holds ((onFirst program >>= next) state).2.2 := by
  rcases hrun : program state.1 with ⟨e | value, after⟩
  · have hfirst : onFirst program state = (.error e, after, state.2) := by
      rw [onFirst, hrun]
    rw [bind_of_error hfirst]
    exact hthrows
  · rw [bind_of_ok (onFirst_of_ok hrun state.2)]
    exact hreturns value after hrun

/-- Read the second of two states. -/
def getSecond {τ : Type} : Stateful (σ × τ) ε τ := fun state => (.ok state.2, state)

/-- Change the second of two states, and answer what it was: `getAndUpdate`. -/
def getAndUpdateSecond {τ : Type} (f : τ → τ) : Stateful (σ × τ) ε τ := fun state =>
  (.ok state.2, state.1, f state.2)

/-- A list is gone through by programs that only read the state. -/
theorem mapM_of_reads {program : α → Stateful σ ε β} {state : σ} {f : α → β}
    (h : ∀ item, program item state = (.ok (f item), state)) (items : List α) :
    items.mapM program state = (.ok (items.map f), state) := by
  induction items with
  | nil => rfl
  | cons item items ih =>
      rw [List.mapM_cons, bind_of_ok (h item), bind_of_ok ih]
      rfl

/-- A program whose value is mapped at the end. -/
theorem bind_pure_apply (program : Stateful σ ε α) (f : α → β) (state : σ) :
    (do pure (f (← program)) : Stateful σ ε β) state =
      ((program state).1.map f, (program state).2) := by
  simp only [bind]
  rcases program state with ⟨result, after⟩
  cases result with
  | error e => rfl
  | ok a => rfl

/-- From every state where `keeps` holds the program ends with `value`, and
`keeps` holds again afterwards. -/
def Shows (keeps : σ → Prop) (program : Stateful σ ε α) (value : Except ε α) : Prop :=
  ∀ state, keeps state → (program state).1 = value ∧ keeps (program state).2

variable {keeps : σ → Prop}

theorem Shows.result {program : Stateful σ ε α} {value : Except ε α}
    (h : Shows keeps program value) {state : σ} (hstate : keeps state) :
    (program state).1 = value :=
  (h state hstate).1

theorem Shows.state {program : Stateful σ ε α} {value : Except ε α}
    (h : Shows keeps program value) {state : σ} (hstate : keeps state) :
    keeps (program state).2 :=
  (h state hstate).2

theorem shows_pure (value : α) :
    Shows keeps (pure value : Stateful σ ε α) (pure value : Except ε α) :=
  fun _ hstate => ⟨rfl, hstate⟩

theorem shows_throw (e : ε) :
    Shows keeps (throw e : Stateful σ ε α) (Except.error e) :=
  fun _ hstate => ⟨rfl, hstate⟩

/-- Sequencing: the continuation only has to be considered on the value the
first part shows. -/
theorem shows_bind {program : Stateful σ ε α} {value : Except ε α}
    {next : α → Stateful σ ε β} {nextValue : α → Except ε β}
    (first : Shows keeps program value)
    (rest : ∀ a, value = .ok a → Shows keeps (next a) (nextValue a)) :
    Shows keeps (program >>= next) (value >>= nextValue) := by
  intro state hstate
  obtain ⟨hresult, hafter⟩ := first state hstate
  simp only [bind]
  rcases hrun : program state with ⟨result, after⟩
  rw [hrun] at hresult hafter
  subst hresult
  cases result with
  | error e => exact ⟨rfl, hafter⟩
  | ok a => exact rest a rfl after hafter

/-- Run programs one after the other for what they do to the state, whatever
they return or throw. -/
def afterAll {ι : Type} (program : ι → Stateful σ ε α) (state : σ) (calls : List ι) : σ :=
  calls.foldl (fun state call => (program call state).2) state

/-- An invariant that every program keeps holds after any history of them. -/
theorem keeps_afterAll {ι : Type} {program : ι → Stateful σ ε α} {value : ι → Except ε α}
    (hprogram : ∀ call, Shows keeps (program call) (value call)) {state : σ}
    (hstate : keeps state) (calls : List ι) : keeps (afterAll program state calls) := by
  induction calls generalizing state with
  | nil => exact hstate
  | cons call calls ih => exact ih ((hprogram call).state hstate)

/-! ## Invariants of programs -/

/-- The program leaves the invariant alone, whatever it returns or throws. -/
def Keeps (keeps : σ → Prop) (program : Stateful σ ε α) : Prop :=
  ∀ state, keeps state → keeps (program state).2

theorem keeps_pure (value : α) : Keeps keeps (pure value : Stateful σ ε α) :=
  fun _ hstate => hstate

theorem keeps_throw (e : ε) : Keeps keeps (throw e : Stateful σ ε α) := fun _ hstate => hstate

theorem keeps_get : Keeps keeps (get : Stateful σ ε σ) := fun _ hstate => hstate

theorem keeps_modify {f : σ → σ} (hf : ∀ state, keeps state → keeps (f state)) :
    Keeps keeps (modify f : Stateful σ ε Unit) := hf

/-- Sequencing. The second part only has to be considered on the values that the
first one returns under the invariant; a first part that always throws has none. -/
theorem keeps_bind {program : Stateful σ ε α} {next : α → Stateful σ ε β}
    (first : Keeps keeps program)
    (rest : ∀ value state, keeps state → (program state).1 = .ok value →
      Keeps keeps (next value)) : Keeps keeps (program >>= next) := by
  intro state hstate
  have hafter := first state hstate
  simp only [bind]
  rcases hrun : program state with ⟨result, after⟩
  rw [hrun] at hafter
  cases result with
  | error e => exact hafter
  | ok value =>
      apply rest value state hstate _ after hafter
      rw [hrun]

/-- An invariant that each of some programs keeps holds after all of them. -/
theorem keeps_of_forall {ι : Type} {program : ι → Stateful σ ε α} {calls : List ι}
    (hprogram : ∀ call ∈ calls, Keeps keeps (program call)) {state : σ} (hstate : keeps state) :
    keeps (afterAll program state calls) := by
  induction calls generalizing state with
  | nil => exact hstate
  | cons call calls ih =>
      rw [List.forall_mem_cons] at hprogram
      exact ih hprogram.2 (hprogram.1 state hstate)

/-! ## Before and after -/

section Triple

/-- From a state with the precondition the program returns a value in a state with the
postcondition, or it throws in a state with the other one. -/
def Triple (before : σ → Prop) (program : Stateful σ ε α) (done : α → σ → Prop)
    (failed : σ → Prop) : Prop :=
  ∀ state, before state →
    (∀ value after, program state = (.ok value, after) → done value after) ∧
      ∀ e after, program state = (.error e, after) → failed after

variable {before failed : σ → Prop} {done : α → σ → Prop}

theorem triple_pure {value : α} (h : ∀ state, before state → done value state) :
    Triple before (pure value : Stateful σ ε α) done failed := by
  intro state hstate
  constructor
  · intro value' after hrun
    cases hrun
    exact h state hstate
  · intro e after hrun
    cases hrun

/-- Sequencing. The second part starts where the first one returned. -/
theorem triple_bind {program : Stateful σ ε α} {next : α → Stateful σ ε β} {last : β → σ → Prop}
    (first : Triple before program done failed)
    (rest : ∀ value, Triple (done value) (next value) last failed) :
    Triple before (program >>= next) last failed := by
  intro state hstate
  obtain ⟨hdone, hfailed⟩ := first state hstate
  rcases hrun : program state with ⟨e | value, after⟩
  · rw [bind_of_error hrun]
    constructor
    · intro value last hlast
      cases hlast
    · intro e' last hlast
      cases hlast
      exact hfailed e after hrun
  · rw [bind_of_ok hrun]
    exact rest value after (hdone value after hrun)

/-- A program that keeps an invariant, with what the invariant is good for if it
throws. -/
theorem Keeps.triple {program : Stateful σ ε α} (h : Keeps keeps program)
    (hfailed : ∀ state, keeps state → failed state) :
    Triple keeps program (fun _ => keeps) failed := by
  intro state hstate
  have hafter := h state hstate
  constructor
  · intro value after hrun
    rw [hrun] at hafter
    exact hafter
  · intro e after hrun
    rw [hrun] at hafter
    exact hfailed after hafter

end Triple

/-! ## Programs that return -/

section Yields

/-- From every state the program returns a value with the property. -/
def Yields (program : Stateful σ ε α) (holds : α → Prop) : Prop :=
  ∀ state, ∃ value after, program state = (.ok value, after) ∧ holds value

variable {holds : α → Prop}

theorem yields_pure {value : α} (h : holds value) :
    Yields (pure value : Stateful σ ε α) holds :=
  fun state => ⟨value, state, rfl, h⟩

theorem yields_get : Yields (get : Stateful σ ε σ) fun _ => True :=
  fun state => ⟨state, state, rfl, trivial⟩

theorem yields_modify (f : σ → σ) : Yields (modify f : Stateful σ ε Unit) fun _ => True :=
  fun state => ⟨(), f state, rfl, trivial⟩

/-- Sequencing: the second part only has to be considered on the values of the
first one. -/
theorem yields_bind {program : Stateful σ ε α} {next : α → Stateful σ ε β} {after : β → Prop}
    (first : Yields program holds) (rest : ∀ value, holds value → Yields (next value) after) :
    Yields (program >>= next) after := by
  intro state
  obtain ⟨value, middle, hrun, hvalue⟩ := first state
  rw [bind_of_ok hrun]
  exact rest value hvalue middle

theorem Yields.mono {program : Stateful σ ε α} {after : α → Prop} (h : Yields program holds)
    (himp : ∀ value, holds value → after value) : Yields program after := by
  intro state
  obtain ⟨value, last, hrun, hvalue⟩ := h state
  exact ⟨value, last, hrun, himp value hvalue⟩

/-- A list is gone through item by item. -/
theorem yields_mapM {program : α → Stateful σ ε β} {related : α → β → Prop} {items : List α}
    (h : ∀ item ∈ items, Yields (program item) (related item)) :
    Yields (items.mapM program) (List.Forall₂ related items) := by
  induction items with
  | nil => exact yields_pure .nil
  | cons item items ih =>
      rw [List.forall_mem_cons] at h
      rw [List.mapM_cons]
      refine yields_bind h.1 fun value hvalue => ?_
      refine yields_bind (ih h.2) fun values hvalues => ?_
      exact yields_pure (.cons hvalue hvalues)

end Yields

/-! ## Two computations side by side -/

section Couples

variable {τ : Type} {related : σ → τ → Prop}

/-- From related states both programs end alike, and in related states. -/
def Couples (related : σ → τ → Prop) (program : Stateful σ ε α) (other : Stateful τ ε α) : Prop :=
  ∀ state state', related state state' →
    (program state).1 = (other state').1 ∧ related (program state).2 (other state').2

theorem couples_pure (value : α) :
    Couples related (pure value : Stateful σ ε α) (pure value : Stateful τ ε α) :=
  fun _ _ h => ⟨rfl, h⟩

theorem couples_throw (e : ε) :
    Couples related (throw e : Stateful σ ε α) (throw e : Stateful τ ε α) :=
  fun _ _ h => ⟨rfl, h⟩

theorem couples_modify {f : σ → σ} {g : τ → τ}
    (h : ∀ state state', related state state' → related (f state) (g state')) :
    Couples related (modify f : Stateful σ ε Unit) (modify g : Stateful τ ε Unit) :=
  fun state state' hstates => ⟨rfl, h state state' hstates⟩

/-- Sequencing: the two second parts are only run on the same value. -/
theorem couples_bind {program : Stateful σ ε α} {other : Stateful τ ε α}
    {next : α → Stateful σ ε β} {otherNext : α → Stateful τ ε β}
    (first : Couples related program other)
    (rest : ∀ value, Couples related (next value) (otherNext value)) :
    Couples related (program >>= next) (other >>= otherNext) := by
  intro state state' hstates
  obtain ⟨hresult, hafter⟩ := first state state' hstates
  simp only [bind]
  rcases hrun : program state with ⟨result, after⟩
  rcases hrun' : other state' with ⟨result', after'⟩
  rw [hrun, hrun'] at hresult hafter
  subst hresult
  cases result with
  | error e => exact ⟨rfl, hafter⟩
  | ok value => exact rest value after after' hafter

end Couples

section Mirrors

variable {γ : Type} {f : α → γ} {g : β → γ}

/-- From the state both programs end in the same state, and alike as far as the results
are looked at. -/
def Mirrors (f : α → γ) (g : β → γ) (program : Stateful σ ε α) (other : Stateful σ ε β)
    (state : σ) : Prop :=
  (program state).1.map f = (other state).1.map g ∧ (program state).2 = (other state).2

theorem mirrors_of_eq {program : Stateful σ ε α} {other : Stateful σ ε β} {state : σ} {h : β → α}
    (heq : program state = ((other state).1.map h, (other state).2)) (hfg : ∀ b, f (h b) = g b) :
    Mirrors f g program other state := by
  rw [Mirrors, heq]
  rcases other state with ⟨e | b, after⟩
  · exact ⟨rfl, rfl⟩
  · exact ⟨congrArg Except.ok (hfg b), rfl⟩

/-- What is made of the results at last. -/
theorem Mirrors.map {δ : Type} {program : Stateful σ ε δ} {other : Stateful σ ε β} {state : σ}
    (h : Mirrors (fun _ => ()) (fun _ => ()) program other state) (last : δ → α)
    (hfg : ∀ d b, f (last d) = g b) :
    Mirrors f g (program >>= fun d => pure (last d)) other state := by
  obtain ⟨hresult, hafter⟩ := h
  rw [Mirrors, bind_pure_apply]
  refine ⟨?_, hafter⟩
  rcases hrun : (program state).1 with e | d
  · rcases hother : (other state).1 with e' | b
    · rw [hrun, hother] at hresult
      cases hresult
      rfl
    · rw [hrun, hother] at hresult
      cases hresult
  · rcases hother : (other state).1 with e' | b
    · rw [hrun, hother] at hresult
      cases hresult
    · exact congrArg Except.ok (hfg d b)

/-- Sequencing, where the second parts do not look at the results of the first. -/
theorem mirrors_bind {δ ζ : Type} {program : Stateful σ ε δ} {other : Stateful σ ε ζ}
    {next : δ → Stateful σ ε α} {otherNext : ζ → Stateful σ ε β} {state : σ}
    (first : Mirrors (fun _ => ()) (fun _ => ()) program other state)
    (rest : ∀ a b after, other state = (.ok b, after) → Mirrors f g (next a) (otherNext b) after) :
    Mirrors f g (program >>= next) (other >>= otherNext) state := by
  obtain ⟨hresult, hafter⟩ := first
  rcases hrun : program state with ⟨e | a, after⟩
  · rcases hother : other state with ⟨e' | b, after'⟩
    · rw [hrun, hother] at hresult hafter
      cases hresult
      cases hafter
      rw [Mirrors, bind_of_error hrun, bind_of_error hother]
      exact ⟨rfl, rfl⟩
    · rw [hrun, hother] at hresult
      cases hresult
  · rcases hother : other state with ⟨e' | b, after'⟩
    · rw [hrun, hother] at hresult
      cases hresult
    · rw [hrun, hother] at hafter
      cases hafter
      rw [Mirrors, bind_of_ok hrun, bind_of_ok hother]
      exact rest a b after hother

end Mirrors

/-! ## Memoised computations -/

section Memo

variable {κ ν : Type} [DecidableEq κ]

/-- How a cache sits in a state: the log of the values computed so far under
each key, and a source of choices. At every lookup the cache is free to answer
any value of the log for the key, or to compute again; eviction, expiry and
refreshing are all such choices. -/
structure Cache (σ κ ν : Type) where
  log : σ → List (κ × ν)
  record : κ → ν → σ → σ
  choice : σ → Option Nat
  tick : σ → σ

/-- The value the cache answers for a key, unless it chooses to compute it. -/
def Cache.recall (cache : Cache σ κ ν) (key : κ) (state : σ) : Option ν :=
  (cache.choice state).bind fun index =>
    (((cache.log state).filter (·.1 = key)).map Prod.snd)[index]?

/-- `cache.get(key, _ => compute)`: a recorded value, or a fresh one that is
recorded in turn. An exception is not recorded. -/
def Cache.get (cache : Cache σ κ ν) (key : κ) (compute : Stateful σ ε ν) :
    Stateful σ ε ν := do
  let state ← Stateful.get
  modify cache.tick
  match cache.recall key state with
  | some value => pure value
  | none => do
      let value ← compute
      modify (cache.record key value)
      pure value

theorem Cache.mem_log_of_recall {cache : Cache σ κ ν} {key : κ} {state : σ} {value : ν}
    (h : cache.recall key state = some value) : (key, value) ∈ cache.log state := by
  obtain ⟨index, -, hget⟩ := Option.bind_eq_some_iff.mp h
  obtain ⟨entry, hentry, rfl⟩ := List.mem_map.mp (List.mem_of_getElem? hget)
  obtain ⟨hmem, hkey⟩ := List.mem_filter.mp hentry
  rw [decide_eq_true_eq] at hkey
  rw [← hkey]
  exact hmem

/-- A memoised computation shows what the computation shows, provided the log
only holds that value under the key. -/
theorem shows_cacheGet (cache : Cache σ κ ν) (key : κ) {compute : Stateful σ ε ν}
    {value : Except ε ν} (hcompute : Shows keeps compute value)
    (hlog : ∀ state, keeps state → ∀ w, (key, w) ∈ cache.log state → value = .ok w)
    (htick : ∀ state, keeps state → keeps (cache.tick state))
    (hrecord : ∀ state w, keeps state → value = .ok w → keeps (cache.record key w state)) :
    Shows keeps (cache.get key compute) value := by
  intro state hstate
  have htop := htick state hstate
  simp only [Cache.get, bind, Stateful.get, modify]
  cases hrecall : cache.recall key state with
  | some w =>
      exact ⟨(hlog state hstate w (cache.mem_log_of_recall hrecall)).symm, htop⟩
  | none =>
      obtain ⟨hresult, hafter⟩ := hcompute _ htop
      rcases hrun : compute (cache.tick state) with ⟨result, after⟩
      rw [hrun] at hresult hafter
      subst hresult
      cases result with
      | error e => exact ⟨by simp [hrun], by simpa [hrun] using hafter⟩
      | ok w =>
          refine ⟨by simp [hrun, pure], ?_⟩
          simpa [hrun, pure] using hrecord after w hafter rfl

end Memo

end Stateful

end Otoroshi
