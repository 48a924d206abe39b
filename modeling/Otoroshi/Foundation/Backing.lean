/-
# Worlds that back a state

A state may hold answers that it has already given and will give again: a pool
that keeps what it compiled, a cache that keeps what it looked up. Before the
first answer to a question the state leaves it open; from then on it is settled.

A world answers every question. It backs a state when it gives the answers that
the state holds. `Settles` says that a computation only ever adds answers, and
that the value it returns is the value of a stateless computation in every world
that backs the state it ends in. Nothing is asked of the questions that the
computation never put, so the relation holds where a fixed answer to every
question does not exist beforehand.
-/

import Otoroshi.Foundation.Stateful

namespace Otoroshi

namespace Stateful

variable {σ ω ε α β : Type} {keeps : σ → Prop} {backs : ω → σ → Prop}

/-- The program keeps the invariant and adds answers, and a value it returns is
the value in every world that backs the state afterwards. -/
structure Settles (keeps : σ → Prop) (backs : ω → σ → Prop) (program : Stateful σ ε α)
    (value : ω → Except ε α) : Prop where
  keeps_after : ∀ state, keeps state → keeps (program state).2
  backs_before : ∀ state, keeps state → ∀ world, backs world (program state).2 →
    backs world state
  value_eq : ∀ state, keeps state → ∀ a, (program state).1 = .ok a →
    ∀ world, backs world (program state).2 → value world = .ok a

theorem settles_pure (a : α) :
    Settles keeps backs (pure a : Stateful σ ε α) fun _ => (pure a : Except ε α) where
  keeps_after _ hstate := hstate
  backs_before _ _ _ hworld := hworld
  value_eq _ _ _ ha _ _ := ha

theorem settles_throw (e : ε) :
    Settles keeps backs (throw e : Stateful σ ε α) fun _ => Except.error e where
  keeps_after _ hstate := hstate
  backs_before _ _ _ hworld := hworld
  value_eq _ _ _ ha _ _ := ha

/-- Sequencing: a world that backs the last state backs the one in between. -/
theorem settles_bind {program : Stateful σ ε α} {value : ω → Except ε α}
    {next : α → Stateful σ ε β} {nextValue : α → ω → Except ε β}
    (first : Settles keeps backs program value)
    (rest : ∀ a, Settles keeps backs (next a) (nextValue a)) :
    Settles keeps backs (program >>= next) fun world =>
      value world >>= fun a => nextValue a world where
  keeps_after state hstate := by
    have hmiddle := first.keeps_after state hstate
    rcases hrun : program state with ⟨e | a, middle⟩
    · rw [bind_of_error hrun]
      simpa [hrun] using hmiddle
    · rw [bind_of_ok hrun]
      rw [hrun] at hmiddle
      exact (rest a).keeps_after middle hmiddle
  backs_before state hstate world hworld := by
    have hmiddle := first.keeps_after state hstate
    refine first.backs_before state hstate world ?_
    rcases hrun : program state with ⟨e | a, middle⟩
    · rw [bind_of_error hrun] at hworld
      exact hworld
    · rw [bind_of_ok hrun] at hworld
      rw [hrun] at hmiddle
      exact (rest a).backs_before middle hmiddle world hworld
  value_eq state hstate b hb world hworld := by
    have hmiddle := first.keeps_after state hstate
    rcases hrun : program state with ⟨e | a, middle⟩
    · rw [bind_of_error hrun] at hb
      cases hb
    · rw [bind_of_ok hrun] at hb hworld
      rw [hrun] at hmiddle
      have hbacks : backs world (program state).2 := by
        rw [hrun]
        exact (rest a).backs_before middle hmiddle world hworld
      have hfirst : value world = .ok a :=
        first.value_eq state hstate a (by rw [hrun]) world hbacks
      show (value world >>= fun a => nextValue a world) = .ok b
      rw [hfirst, ok_bind]
      exact (rest a).value_eq middle hmiddle b hb world hworld

/-- A memoised computation settles what the computation does, if every entry of
the log is right in the worlds that back the state. -/
theorem settles_cacheGet {κ ν : Type} [DecidableEq κ] (cache : Cache σ κ ν) (key : κ)
    {compute : Stateful σ ε ν} {value : ω → Except ε ν}
    (hcompute : Settles keeps backs compute value)
    (hlog : ∀ state, keeps state → ∀ v, (key, v) ∈ cache.log state →
      ∀ world, backs world state → value world = .ok v)
    (htick : ∀ state, keeps state → keeps (cache.tick state))
    (htickBacks : ∀ state world, backs world (cache.tick state) ↔ backs world state)
    (hrecord : ∀ state v, keeps state → (∀ world, backs world state → value world = .ok v) →
      keeps (cache.record key v state))
    (hrecordBacks : ∀ state v world, backs world (cache.record key v state) ↔
      backs world state) :
    Settles keeps backs (cache.get key compute) value := by
  -- a lookup either recalls, or computes and records
  have hrecalled : ∀ state v, cache.recall key state = some v →
      cache.get key compute state = (.ok v, cache.tick state) := by
    intro state v hrecall
    simp only [Cache.get, bind, Stateful.get, modify, hrecall]
    rfl
  have hfailed : ∀ state e after, cache.recall key state = none →
      compute (cache.tick state) = (.error e, after) →
      cache.get key compute state = (.error e, after) := by
    intro state e after hrecall hrun
    simp only [Cache.get, bind, Stateful.get, modify, hrecall, hrun]
  have hcomputed : ∀ state v after, cache.recall key state = none →
      compute (cache.tick state) = (.ok v, after) →
      cache.get key compute state = (.ok v, cache.record key v after) := by
    intro state v after hrecall hrun
    simp only [Cache.get, bind, Stateful.get, modify, hrecall, hrun]
    rfl
  have hvalue : ∀ state v after, keeps state → compute (cache.tick state) = (.ok v, after) →
      ∀ world, backs world after → value world = .ok v := by
    intro state v after hstate hrun world hworld
    refine hcompute.value_eq _ (htick state hstate) v (by rw [hrun]) world ?_
    rw [hrun]
    exact hworld
  constructor
  · intro state hstate
    have hafter := hcompute.keeps_after _ (htick state hstate)
    cases hrecall : cache.recall key state with
    | some v =>
        rw [hrecalled state v hrecall]
        exact htick state hstate
    | none =>
        rcases hrun : compute (cache.tick state) with ⟨e | v, after⟩
        · rw [hfailed state e after hrecall hrun]
          simpa [hrun] using hafter
        · rw [hcomputed state v after hrecall hrun]
          rw [hrun] at hafter
          exact hrecord after v hafter (hvalue state v after hstate hrun)
  · intro state hstate world hworld
    have hbefore := hcompute.backs_before _ (htick state hstate) world
    cases hrecall : cache.recall key state with
    | some v =>
        rw [hrecalled state v hrecall] at hworld
        exact (htickBacks state world).mp hworld
    | none =>
        rw [htickBacks] at hbefore
        refine hbefore ?_
        rcases hrun : compute (cache.tick state) with ⟨e | v, after⟩
        · rw [hfailed state e after hrecall hrun] at hworld
          exact hworld
        · rw [hcomputed state v after hrecall hrun] at hworld
          exact (hrecordBacks after v world).mp hworld
  · intro state hstate a ha world hworld
    cases hrecall : cache.recall key state with
    | some v =>
        rw [hrecalled state v hrecall] at ha hworld
        rw [← Except.ok.inj ha]
        exact hlog state hstate v (cache.mem_log_of_recall hrecall) world
          ((htickBacks state world).mp hworld)
    | none =>
        rcases hrun : compute (cache.tick state) with ⟨e | v, after⟩
        · rw [hfailed state e after hrecall hrun] at ha
          cases ha
        · rw [hcomputed state v after hrecall hrun] at ha hworld
          rw [← Except.ok.inj ha]
          exact hvalue state v after hstate hrun world ((hrecordBacks after v world).mp hworld)

/-- After any history of programs that settle their values the invariant holds. -/
theorem keeps_afterAll_of_settles {ι : Type} {program : ι → Stateful σ ε α}
    {value : ι → ω → Except ε α}
    (hprogram : ∀ call, Settles keeps backs (program call) (value call)) {state : σ}
    (hstate : keeps state) (calls : List ι) : keeps (afterAll program state calls) :=
  keeps_of_forall (fun call _ => (hprogram call).keeps_after) hstate

end Stateful

end Otoroshi
