/-
# How often a request is tried

The tries of a request are counted down as a number of 32 bits, and those that take too long are
counted like those that fail. `attempts_within_tries` bounds them by what the configuration says,
with a negative number read without its sign.

The client may be answered while the circuit breakers go on trying. `attempts_of_settled` says when
they do not: not when something has read the body of the request, and not behind an answer, unless
the answer is that all of it took too long.
-/

import Otoroshi.Gateway.Retry
import Otoroshi.Proxy.RequestRuns

namespace Otoroshi

namespace Pipeline

variable {T : EngineTypes}

/-- The tries that are allowed for a request of a route. -/
def Engine.tries (E : Engine T) (route : T.Route) : Nat :=
  if E.useCircuitBreakers then (E.retries route).toBitVec.toNat else 1

/-- How many more tries a loop that has begun may make. -/
def Loop.left : Loop → Nat
  | .retries times _ => times.toBitVec.toNat
  | .calls times => (times - 1).toBitVec.toNat
  | _ => 0

/-- The tries that were begun, and those that are left. -/
def Handling.spent (s : Handling T) : Nat := s.attempts.length + s.loop.left

/-! ## One step -/

/-- What one step does to the loop, to the answer and to the tries. -/
structure Turn (E : Engine T) (s t : Handling T) : Prop where
  body : t.bodyAlreadyConsumed = s.bodyAlreadyConsumed
  ended : s.loop = .ended → t.loop = .ended
  checked : ∀ last, s.checks = .ends last → t.checks = .ends last
  enters : s.loop = .before → t.loop ≠ .before → ∃ route plugins,
    s.checks = .ends (.right (route, plugins)) ∧ t.spent ≤ s.attempts.length + E.tries route
  goes : s.loop ≠ .before → t.loop ≠ .before ∧ t.spent ≤ s.spent
  answer : t.answer = s.answer ∨ ∃ answer, t.answer = some (s.answer.getD answer) ∧
    (t.loop = .ended ∨ (∃ stop, t.checks = .ends (.stopped stop)) ∨
      answer = .error (E.handleError .requestTimeout))
  backends : t.attempts.map Attempt.backend = s.attempts.map Attempt.backend ∨
    (∃ found, s.checks = .ends (.right found)) ∧ s.loop ≠ .ended ∧
      (s.loop ≠ .before → s.bodyAlreadyConsumed = false)

variable {E : Engine T} {s t : Handling T}

/-- The loop and the tries stay where they are. -/
theorem Turn.stays (hbody : t.bodyAlreadyConsumed = s.bodyAlreadyConsumed) (hloop : t.loop = s.loop)
    (hchecked : ∀ last, s.checks = .ends last → t.checks = .ends last)
    (hanswer : t.answer = s.answer ∨ ∃ answer, t.answer = some (s.answer.getD answer) ∧
      (t.loop = .ended ∨ (∃ stop, t.checks = .ends (.stopped stop)) ∨
        answer = .error (E.handleError .requestTimeout)))
    (hbackends : t.attempts.map Attempt.backend = s.attempts.map Attempt.backend) :
    Turn E s t where
  body := hbody
  ended := hloop.trans
  checked := hchecked
  enters := fun h hne => absurd (hloop.trans h) hne
  goes := by
    intro h
    have hlength := congrArg List.length hbackends
    rw [List.length_map, List.length_map] at hlength
    rw [Handling.spent, Handling.spent, hlength, hloop]
    exact ⟨h, le_rfl⟩
  answer := hanswer
  backends := .inl hbackends

/-- The loop goes on without a try, and with one try less. -/
theorem Turn.retries {times : Int32} {failure : Option Throwable}
    (hguarded : s.loop.guarded = some true) (hleft : (times - 1).toBitVec.toNat ≤ s.loop.left) :
    Turn E s (s.goes (.retries (times - 1) failure)) where
  body := rfl
  ended := by
    intro h
    rw [h] at hguarded
    cases hguarded
  checked := fun _ => id
  enters := fun h => absurd h (Loop.ne_before_of_guarded hguarded)
  goes := fun _ => ⟨nofun, Nat.add_le_add_left hleft _⟩
  answer := .inl rfl
  backends := .inl rfl

/-- The loop is over, with an answer. -/
theorem Turn.ends (answer : Answer T)
    (henters : s.loop = .before → ∃ found, s.checks = .ends (.right found)) :
    Turn E s ((s.goes .ended).answered answer) where
  body := rfl
  ended := fun _ => rfl
  checked := fun _ => id
  enters := by
    intro hbefore _
    obtain ⟨⟨route, plugins⟩, hfound⟩ := henters hbefore
    exact ⟨route, plugins, hfound, Nat.add_le_add_left (Nat.zero_le _) _⟩
  goes := fun _ => ⟨nofun, Nat.add_le_add_left (Nat.zero_le _) _⟩
  answer := .inr ⟨answer, rfl, .inl rfl⟩
  backends := .inl rfl

theorem HandleStep.turn (h : HandleStep E s t) : Turn E s t := by
  cases h with
  | checks hchecks =>
      refine .stays rfl rfl (fun last hlast => ?_) (.inl rfl) rfl
      cases hchecks.symm.trans hlast
  | @refuses stop answer hchecks hstop hanswer =>
      exact .stays rfl rfl (fun _ => id) (.inr ⟨answer, rfl, .inr (.inl ⟨stop, hchecks⟩)⟩) rfl
  | @calls route plugins backend hchecks hloop hbreakers hbackend =>
      have htries : E.tries route = 1 := by rw [Engine.tries, hbreakers]; rfl
      refine ⟨rfl, by simp [hloop], fun _ => id, fun _ _ => ⟨route, plugins, hchecks, ?_⟩,
        absurd hloop, .inl rfl, .inr ⟨⟨_, hchecks⟩, by simp [hloop], absurd hloop⟩⟩
      rw [htries]
      exact (List.length_append ..).le
  | misses hchecks hloop hbreakers e => exact .ends _ fun _ => ⟨_, hchecks⟩
  | ends hloop hlast hleft hanswer => exact .ends _ (by simp [hloop])
  | @enters route plugins hchecks hloop hbreakers =>
      refine ⟨rfl, by simp [hloop], fun _ => id, fun _ _ => ⟨route, plugins, hchecks, ?_⟩,
        absurd hloop, .inl rfl, .inl rfl⟩
      rw [Engine.tries, if_pos hbreakers]
      exact le_rfl
  | @tries route plugins times failure backend hchecks hloop htimes hbody hbackend =>
      refine ⟨rfl, by simp [hloop], fun _ => id, by simp [hloop], fun _ => ⟨nofun, ?_⟩, .inl rfl,
        .inr ⟨⟨_, hchecks⟩, by simp [hloop], fun _ => hbody⟩⟩
      have hless := toNat_sub_one_lt htimes
      rw [Handling.spent, Handling.spent, hloop]
      change (s.attempts ++ [_]).length + (times - 1).toBitVec.toNat ≤
        s.attempts.length + times.toBitVec.toNat
      rw [List.length_append, List.length_singleton]
      omega
  | consumed hloop htimes hbody =>
      exact .retries (hloop ▸ rfl) (hloop ▸ (toNat_sub_one_lt htimes).le)
  | skipped hloop htimes hbody e =>
      exact .retries (hloop ▸ rfl) (hloop ▸ (toNat_sub_one_lt htimes).le)
  | throws hloop htimes hbody e => exact .ends _ (by simp [hloop])
  | givesUp hloop => exact .ends _ (by simp [hloop])
  | succeeds hloop hlast hleft => exact .ends _ (by simp [hloop])
  | answers hloop hlast hleft => exact .ends _ (by simp [hloop])
  | fails hloop hlast hleft => exact .retries (hloop ▸ rfl) (hloop ▸ le_rfl)
  | timesOut hloop => exact .retries (hloop ▸ rfl) (hloop ▸ le_rfl)
  | globalTimeout hbefore hover hbreakers =>
      exact .stays rfl rfl (fun _ => id) (.inr ⟨_, rfl, .inr (.inr rfl)⟩) rfl
  | @works number backend change emits rest hattempt =>
      have hmap : (s.attempts.set number ⟨backend, rest s.attrs⟩).map Attempt.backend =
          s.attempts.map Attempt.backend := by
        obtain ⟨hlt, heq⟩ := List.getElem?_eq_some_iff.mp hattempt
        have hbackend := congrArg Attempt.backend heq
        rw [← List.getElem_map Attempt.backend (h := List.length_map Attempt.backend ▸ hlt)]
          at hbackend
        rw [List.map_set]
        exact hbackend ▸ List.set_getElem_self _
      exact .stays rfl rfl (fun _ => id) (.inl rfl) hmap

/-! ## The number of tries -/

/-- No more tries are begun or left than are allowed. -/
def Handling.Within (E : Engine T) (s : Handling T) : Prop :=
  s.loop ≠ .before → ∀ route plugins, s.checks = .ends (.right (route, plugins)) →
    s.spent ≤ E.tries route

theorem Handling.Within.turn (h : s.Within E) (hinv : Inv E s) (hturn : Turn E s t) :
    t.Within E := by
  intro hloop route plugins hfound
  by_cases hbefore : s.loop = .before
  · obtain ⟨_, _, hchecks, hspent⟩ := hturn.enters hbefore hloop
    cases (hturn.checked _ hchecks).symm.trans hfound
    rwa [hinv.untried hbefore, List.length_nil, Nat.zero_add] at hspent
  · obtain ⟨⟨_, _⟩, hchecks⟩ := hinv.entered hbefore
    cases (hturn.checked _ hchecks).symm.trans hfound
    exact (hturn.goes hbefore).2.trans (h hbefore route plugins hchecks)

theorem Reachable.within (h : Reachable E s) : s.Within E := by
  obtain ⟨attrs, hsteps⟩ := h
  induction hsteps with
  | refl => exact fun hbefore => absurd rfl hbefore
  | tail hsteps hhappens ih =>
      cases hhappens with
      | step hstep => exact ih.turn (Reachable.inv ⟨attrs, hsteps⟩) hstep.turn
      | consumes hattempts => exact ih

/-- A request is not tried more often than its route allows, also where tries that took too long
go on beside the next ones. -/
theorem attempts_within_tries (h : Reachable E s) (hattempts : s.attempts ≠ []) :
    ∃ route plugins, Cleared E (s.eventsOf .checks) route plugins ∧
      s.attempts.length ≤ E.tries route := by
  obtain ⟨route, plugins, hchecks, hcleared⟩ := h.inv.exists_cleared hattempts
  have hspent := h.within (fun hbefore => hattempts (h.inv.untried hbefore)) route plugins hchecks
  exact ⟨route, plugins, hcleared, (Nat.le_add_right _ _).trans hspent⟩

theorem attempts_within_tries_triedRequest :
    ∃ route plugins,
      Cleared (sampleEngine [.returns .allowed]) (triedRequest.eventsOf .checks) route plugins ∧
      triedRequest.attempts.length ≤ (sampleEngine [.returns .allowed]).tries route :=
  attempts_within_tries reachable_triedRequest (List.cons_ne_nil _ _)

/-! ## Requests that are settled -/

/-- Something has read the body, or the client has its answer, which is not that all of it took
too long. -/
def Handling.Settled (E : Engine T) (s : Handling T) : Prop :=
  s.bodyAlreadyConsumed = true ∨
    ∃ answer, s.answer = some answer ∧ answer ≠ .error (E.handleError .requestTimeout)

/-- Where the loop of a settled request stands. -/
structure Closing (E : Engine T) (s : Handling T) : Prop where
  consumed : s.bodyAlreadyConsumed = true → s.loop ≠ .before
  answered : ∀ answer, s.answer = some answer → answer ≠ .error (E.handleError .requestTimeout) →
    s.loop = .ended ∨ ∃ stop, s.checks = .ends (.stopped stop)

theorem Closing.turn (h : Closing E s) (hturn : Turn E s t) : Closing E t where
  consumed := fun hbody => (hturn.goes (h.consumed (hturn.body.symm.trans hbody))).1
  answered := by
    intro answer hanswer hne
    have hkept (hold : s.answer = some answer) :
        t.loop = .ended ∨ ∃ stop, t.checks = .ends (.stopped stop) :=
      (h.answered answer hold hne).imp hturn.ended
        fun ⟨stop, hstop⟩ => ⟨stop, hturn.checked _ hstop⟩
    obtain hsame | ⟨given, hgiven, hreason⟩ := hturn.answer
    · exact hkept (hsame.symm.trans hanswer)
    · rw [hanswer] at hgiven
      cases hold : s.answer with
      | some first =>
          rw [hold] at hgiven
          exact hkept (hold.trans hgiven.symm)
      | none =>
          rw [hold] at hgiven
          cases hgiven
          obtain hover | hstopped | rfl := hreason
          · exact .inl hover
          · exact .inr hstopped
          · exact absurd rfl hne

theorem Reachable.closing (h : Reachable E s) : Closing E s := by
  obtain ⟨attrs, hsteps⟩ := h
  induction hsteps with
  | refl => exact ⟨nofun, nofun⟩
  | tail hsteps hhappens ih =>
      cases hhappens with
      | step hstep => exact ih.turn hstep.turn
      | consumes hattempts =>
          have hinv : Inv E _ := Reachable.inv ⟨attrs, hsteps⟩
          exact ⟨fun _ hbefore => hattempts (hinv.untried hbefore), ih.answered⟩

theorem Turn.settled (hturn : Turn E s t) (h : s.Settled E) : t.Settled E := by
  refine h.imp (hturn.body.trans ·) fun ⟨answer, hanswer, hne⟩ => ⟨answer, ?_, hne⟩
  obtain hsame | ⟨given, hgiven, -⟩ := hturn.answer
  · exact hsame.trans hanswer
  · rw [hgiven, hanswer, Option.getD_some]

/-- No step begins a try of a request that is settled. -/
theorem Closing.backends (h : Closing E s) (hsettled : s.Settled E) (hturn : Turn E s t) :
    t.attempts.map Attempt.backend = s.attempts.map Attempt.backend := by
  refine hturn.backends.resolve_right ?_
  rintro ⟨⟨found, hfound⟩, hover, hbody⟩
  obtain hconsumed | ⟨answer, hanswer, hne⟩ := hsettled
  · cases hconsumed.symm.trans (hbody (h.consumed hconsumed))
  · obtain hended | ⟨stop, hstop⟩ := h.answered answer hanswer hne
    · exact hover hended
    · cases hfound.symm.trans hstop

/-- Whatever happens to a request that is settled, no backend is tried any more. -/
theorem attempts_of_settled (h : Reachable E s) (hsettled : s.Settled E)
    (hruns : Relation.ReflTransGen (Happens E) s t) :
    t.attempts.map Attempt.backend = s.attempts.map Attempt.backend := by
  suffices Reachable E t ∧ t.Settled E ∧
      t.attempts.map Attempt.backend = s.attempts.map Attempt.backend from this.2.2
  induction hruns with
  | refl => exact ⟨h, hsettled, rfl⟩
  | @tail mid last hruns hhappens ih =>
      obtain ⟨⟨attrs, hsteps⟩, hmid, hbackends⟩ := ih
      refine ⟨⟨attrs, hsteps.tail hhappens⟩, ?_⟩
      have hclosing : Closing E mid := Reachable.closing ⟨attrs, hsteps⟩
      cases hhappens with
      | step hstep =>
          exact ⟨hstep.turn.settled hmid, (hclosing.backends hmid hstep.turn).trans hbackends⟩
      | consumes hattempts => exact ⟨.inl rfl, hbackends⟩

theorem attempts_of_settled_servedRequest :
    ({ servedRequest with bodyAlreadyConsumed := true }).attempts.map Attempt.backend =
      servedRequest.attempts.map Attempt.backend :=
  attempts_of_settled reachable_servedRequest (.inr ⟨.success 7, rfl, nofun⟩)
    (.single (.consumes (List.cons_ne_nil _ _)))

end Pipeline

end Otoroshi
