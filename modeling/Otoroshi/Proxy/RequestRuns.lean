/-
# A request, from its checks to its answer

When the checks have let a request through, backends are tried. With circuit breakers a try that
fails or takes too long is followed by another one, as long as tries are left and nothing has read
the body of the request. A try that took too long is not stopped: it goes on beside the next ones,
and all of them share the attributes of the request. The client is answered by what comes first.

`HandleStep` has one case for each thing the engine can do next. What holds in all reachable states
holds however the tries come between each other.

What an answer goes through on its way out (headers and a transformer that plugins have put into the
attributes) is left out.
-/

import Mathlib.Data.List.Infix
import Mathlib.Logic.Relation
import Otoroshi.Proxy.PipelineRuns

namespace Otoroshi

namespace Pipeline

open Chains Resumption

variable {T : EngineTypes}

/-- What an event belongs to. -/
inductive Source
  | checks
  | attempt (number : Nat)
  deriving DecidableEq

theorem Source.checks_ne_attempt (number : Nat) : Source.checks ≠ .attempt number := nofun

/-- What a request is answered with: the result of a try, an error, or what is made of an exception
that nothing else has caught. -/
inductive Answer (T : EngineTypes)
  | success (result : T.Result)
  | error (result : T.Result)
  | unexpected (e : Throwable)

/-- Where `callTarget` stands. -/
inductive Loop
  | before
  /-- `retryPromise` is about to run -/
  | retries (times : Int32) (failure : Option Throwable)
  /-- it waits for the last try -/
  | calls (times : Int32)
  /-- the only try is running, without circuit breakers -/
  | once
  | ended
  deriving DecidableEq

structure Attempt (T : EngineTypes) where
  backend : T.Backend
  /-- what is left of it -/
  left : EngineM T T.Result

/-- A request that is being handled. -/
structure Handling (T : EngineTypes) where
  attrs : Attributes T
  bodyAlreadyConsumed : Bool
  /-- what is left of the checks -/
  checks : EngineM T (T.Route × NgContextualPlugins T)
  attempts : List (Attempt T)
  loop : Loop
  answer : Option (Answer T)
  log : List (Source × Event T)

namespace Engine

variable (E : Engine T)

/-- The answer for an exception of the last try, or of the circuit breakers. -/
def handleError : Throwable → T.Result
  | .bodyAlreadyConsumed => E.craftResponseResult
      ("Something went wrong, the backend service does not respond quickly enough but consumed " ++
        "all the request body, you should try later. Thanks for your understanding")
      504 "errors.request.timeout"
  | .requestTimeout => E.craftResponseResult
      ("Something went wrong, the backend service does not respond quickly enough, you should " ++
        "try later. Thanks for your understanding")
      504 "errors.request.timeout"
  | .timeout => E.craftResponseResult
      ("Something went wrong, the backend service does not respond quickly enough, you should " ++
        "try later. Thanks for your understanding")
      504 "errors.request.timeout"
  | .allCircuitBreakersOpen => E.craftResponseResult
      ("Something went wrong, the backend service seems a little bit overwhelmed, you should " ++
        "try later. Thanks for your understanding")
      503 "errors.circuit.breaker.open"
  | .other (some message) =>
      if "connection refused".toList <:+: message.map Char.toLower then
        E.craftResponseResult
          ("Something went wrong, the connection to backend service was refused, you should try " ++
            "later. Thanks for your understanding")
          502 "errors.connection.refused"
      else
        E.craftResponseResult
          "Something went wrong, you should try later. Thanks for your understanding."
          502 "errors.proxy.error"
  | .other none => E.craftResponseResult
      "Something went wrong, you should try later. Thanks for your understanding"
      502 "errors.proxy.error"

/-- What `retryPromise` fails with when no try is left. -/
def lastFailure (failure : Option Throwable) : Throwable :=
  failure.getD (.other (some "Failure, but lost track of exception :-(".toList))

end Engine

/-- The answer of a program that stops outside of the circuit breakers. -/
def Stop.answer : Stop T → Option (Answer T)
  | .left result => some (.error result)
  | .failed e => some (.unexpected e)
  | .pending => none

namespace Handling

variable (s : Handling T)

/-- The first answer counts. -/
def answered (answer : Answer T) : Handling T := { s with answer := some (s.answer.getD answer) }

/-- Add to the log. -/
def logs (source : Source) (events : List (Event T)) : Handling T :=
  { s with log := s.log ++ events.map (Prod.mk source) }

def begins (attempt : Attempt T) : Handling T := { s with attempts := s.attempts ++ [attempt] }

def goes (loop : Loop) : Handling T := { s with loop := loop }

/-- What belongs to a source. -/
def eventsOf (source : Source) : List (Event T) :=
  s.log.filterMap fun entry => if entry.1 = source then some entry.2 else none

end Handling

/-- One thing that the engine can do next. -/
inductive HandleStep (E : Engine T) : Handling T → Handling T → Prop
  /-- the checks go on -/
  | checks {s : Handling T} {change emits rest} (h : s.checks = .steps change emits rest) :
      HandleStep E s
        ({ s with attrs := change s.attrs, checks := rest s.attrs }.logs .checks (emits s.attrs))
  /-- the checks have stopped -/
  | refuses {s : Handling T} {stop : Stop T} {answer : Answer T}
      (h : s.checks = .ends (.stopped stop)) (hstop : stop.answer = some answer)
      (hanswer : s.answer = none) : HandleStep E s (s.answered answer)
  /-- `callTarget` without circuit breakers -/
  | calls {s : Handling T} {route plugins backend}
      (h : s.checks = .ends (.right (route, plugins))) (hloop : s.loop = .before)
      (hbreakers : E.useCircuitBreakers = false) (hbackend : backend ∈ E.allTargets route s.attrs) :
      HandleStep E s ((s.begins ⟨backend, E.attempt route plugins backend⟩).goes .once)
  /-- no target is found, without circuit breakers -/
  | misses {s : Handling T} {route plugins} (h : s.checks = .ends (.right (route, plugins)))
      (hloop : s.loop = .before) (hbreakers : E.useCircuitBreakers = false) (e : Throwable) :
      HandleStep E s ((s.goes .ended).answered (.unexpected e))
  /-- the only try has ended -/
  | ends {s : Handling T} {attempt : Attempt T} {ending : Ending T T.Result} {answer : Answer T}
      (hloop : s.loop = .once) (hlast : s.attempts.getLast? = some attempt)
      (h : attempt.left = .ends ending)
      (hanswer : (match ending with
        | .right result => some (.success result)
        | .stopped stop => stop.answer) = some answer) :
      HandleStep E s ((s.goes .ended).answered answer)
  /-- `callTarget` with circuit breakers -/
  | enters {s : Handling T} {route plugins} (h : s.checks = .ends (.right (route, plugins)))
      (hloop : s.loop = .before) (hbreakers : E.useCircuitBreakers = true) :
      HandleStep E s (s.goes (.retries (E.retries route) none))
  /-- the next try -/
  | tries {s : Handling T} {route plugins times failure backend}
      (h : s.checks = .ends (.right (route, plugins))) (hloop : s.loop = .retries times failure)
      (htimes : times ≠ 0) (hbody : s.bodyAlreadyConsumed = false)
      (hbackend : backend ∈ E.allTargets route s.attrs) :
      HandleStep E s ((s.begins ⟨backend, E.attempt route plugins backend⟩).goes (.calls times))
  /-- the body cannot be sent a second time -/
  | consumed {s : Handling T} {times failure} (hloop : s.loop = .retries times failure)
      (htimes : times ≠ 0) (hbody : s.bodyAlreadyConsumed = true) :
      HandleStep E s (s.goes (.retries (times - 1) (some .bodyAlreadyConsumed)))
  /-- all circuit breakers are open, or the one of the target refuses the call -/
  | skipped {s : Handling T} {times failure} (hloop : s.loop = .retries times failure)
      (htimes : times ≠ 0) (hbody : s.bodyAlreadyConsumed = false) (e : Throwable) :
      HandleStep E s (s.goes (.retries (times - 1) (some e)))
  /-- the choice of a target throws -/
  | throws {s : Handling T} {times failure} (hloop : s.loop = .retries times failure)
      (htimes : times ≠ 0) (hbody : s.bodyAlreadyConsumed = false) (e : Throwable) :
      HandleStep E s ((s.goes .ended).answered (.error (E.handleError e)))
  /-- no try is left -/
  | givesUp {s : Handling T} {failure} (hloop : s.loop = .retries 0 failure) :
      HandleStep E s
        ((s.goes .ended).answered (.error (E.handleError (Engine.lastFailure failure))))
  /-- the last try gives a result -/
  | succeeds {s : Handling T} {times} {attempt : Attempt T} {result : T.Result}
      (hloop : s.loop = .calls times) (hlast : s.attempts.getLast? = some attempt)
      (h : attempt.left = .ends (.right result)) :
      HandleStep E s ((s.goes .ended).answered (.success result))
  /-- a plugin of the last try answers -/
  | answers {s : Handling T} {times} {attempt : Attempt T} {result : T.Result}
      (hloop : s.loop = .calls times) (hlast : s.attempts.getLast? = some attempt)
      (h : attempt.left = .ends (.stopped (.left result))) :
      HandleStep E s ((s.goes .ended).answered (.error result))
  /-- the last try fails -/
  | fails {s : Handling T} {times} {attempt : Attempt T} {e : Throwable}
      (hloop : s.loop = .calls times) (hlast : s.attempts.getLast? = some attempt)
      (h : attempt.left = .ends (.stopped (.failed e))) :
      HandleStep E s (s.goes (.retries (times - 1) (some e)))
  /-- the last try takes too long, and goes on aside -/
  | timesOut {s : Handling T} {times} (hloop : s.loop = .calls times) :
      HandleStep E s (s.goes (.retries (times - 1) (some .timeout)))
  /-- all of it takes too long -/
  | globalTimeout {s : Handling T} (hbefore : s.loop ≠ .before) (hover : s.loop ≠ .ended)
      (hbreakers : E.useCircuitBreakers = true) :
      HandleStep E s (s.answered (.error (E.handleError .requestTimeout)))
  /-- a try goes on -/
  | works {s : Handling T} {number : Nat} {backend change emits rest}
      (h : s.attempts[number]? = some ⟨backend, .steps change emits rest⟩) :
      HandleStep E s
        ({ s with
          attrs := change s.attrs
          attempts := s.attempts.set number ⟨backend, rest s.attrs⟩ }.logs (.attempt number)
            (emits s.attrs))

/-- One thing that can happen next: what the engine does, or that something reads the body of the
request that it was given. -/
inductive Happens (E : Engine T) (s : Handling T) : Handling T → Prop
  | step {t : Handling T} (h : HandleStep E s t) : Happens E s t
  | consumes (h : s.attempts ≠ []) : Happens E s { s with bodyAlreadyConsumed := true }

/-- Where a request begins. -/
def Handling.initial (E : Engine T) (attrs : Attributes T) : Handling T where
  attrs := attrs
  bodyAlreadyConsumed := false
  checks := E.checks
  attempts := []
  loop := .before
  answer := none
  log := []

/-- What a request can come to. -/
def Reachable (E : Engine T) (s : Handling T) : Prop :=
  ∃ attrs, Relation.ReflTransGen (Happens E) (Handling.initial E attrs) s

/-! ## What holds in all of them -/

/-- Whether the loop is the one of the circuit breakers, while it goes on. -/
def Loop.guarded : Loop → Option Bool
  | .retries _ _ => some true
  | .calls _ => some true
  | .once => some false
  | _ => none

namespace Handling

variable {s : Handling T} {source other : Source} {events : List (Event T)}

theorem eventsOf_logs_self :
    (s.logs source events).eventsOf source = s.eventsOf source ++ events := by
  simp [eventsOf, logs, List.filterMap_append, List.filterMap_map]

theorem eventsOf_logs_of_ne (h : other ≠ source) :
    (s.logs source events).eventsOf other = s.eventsOf other := by
  simp [eventsOf, logs, List.filterMap_append, List.filterMap_map, h.symm]

/-- Where an answer comes from. -/
def Accounts (E : Engine T) (s : Handling T) : Answer T → Prop
  | .success result => ∃ attempt ∈ s.attempts, attempt.left = .ends (.right result)
  | .error result => s.checks = .ends (.stopped (.left result)) ∨
      (∃ attempt ∈ s.attempts, attempt.left = .ends (.stopped (.left result))) ∨
      s.loop ≠ .before ∧ E.useCircuitBreakers = true ∧ ∃ e, result = E.handleError e
  | .unexpected e => s.checks = .ends (.stopped (.failed e)) ∨
      s.loop ≠ .before ∧ E.useCircuitBreakers = false

end Handling

structure Inv (E : Engine T) (s : Handling T) : Prop where
  checked : Reaches E.checks (s.eventsOf .checks) s.checks
  /-- `callTarget` is only called with what the checks have found -/
  entered : s.loop ≠ .before → ∃ found, s.checks = .ends (.right found)
  untried : s.loop = .before → s.attempts = []
  tried : ∀ route plugins, s.checks = .ends (.right (route, plugins)) →
    ∀ number attempt, s.attempts[number]? = some attempt →
      Reaches (E.attempt route plugins attempt.backend) (s.eventsOf (.attempt number)) attempt.left
  numbered : ∀ number event, (.attempt number, event) ∈ s.log → number < s.attempts.length
  first : ∃ rest, s.log = (s.eventsOf .checks).map (Prod.mk .checks) ++ rest ∧
    ∀ entry ∈ rest, entry.1 ≠ .checks
  guarded : ∀ guarded, s.loop.guarded = some guarded → E.useCircuitBreakers = guarded
  answered : ∀ answer, s.answer = some answer → s.Accounts E answer

variable {E : Engine T} {s : Handling T}

theorem inv_initial (attrs : Attributes T) : Inv E (Handling.initial E attrs) where
  checked := .refl
  entered := fun h => absurd rfl h
  untried := fun _ => rfl
  tried := fun _ _ _ number attempt h => by cases h
  numbered := fun _ _ h => by cases h
  first := ⟨[], rfl, List.forall_mem_nil _⟩
  guarded := fun _ h => by cases h
  answered := fun _ h => by cases h

theorem Handling.Accounts.goes {answer : Answer T} {loop : Loop} (hloop : loop ≠ .before)
    (h : s.Accounts E answer) : (s.goes loop).Accounts E answer := by
  cases answer with
  | success result => exact h
  | error result => exact h.imp_right fun h => h.imp_right fun h => ⟨hloop, h.2⟩
  | unexpected e => exact h.imp_right fun h => ⟨hloop, h.2⟩

/-- Without an end of the checks there is no answer. -/
theorem Inv.unanswered (h : Inv E s) (hloop : s.loop = .before)
    (hchecks : ∀ stop, s.checks ≠ .ends (.stopped stop)) : s.answer = none := by
  have hattempts := h.untried hloop
  cases hanswer : s.answer with
  | none => rfl
  | some answer =>
      have haccounts := h.answered answer hanswer
      cases answer with
      | success result =>
          obtain ⟨attempt, hmem, -⟩ := haccounts
          cases hattempts ▸ hmem
      | error result =>
          obtain hleft | ⟨attempt, hmem, -⟩ | ⟨hne, -⟩ := haccounts
          · exact absurd hleft (hchecks _)
          · cases hattempts ▸ hmem
          · exact absurd hloop hne
      | unexpected e =>
          obtain hleft | ⟨hne, -⟩ := haccounts
          · exact absurd hleft (hchecks _)
          · exact absurd hloop hne

theorem Inv.goes (h : Inv E s) {found : T.Route × NgContextualPlugins T}
    (hchecks : s.checks = .ends (.right found)) {loop : Loop} (hloop : loop ≠ .before)
    (hguarded : ∀ guarded, loop.guarded = some guarded → E.useCircuitBreakers = guarded) :
    Inv E (s.goes loop) where
  checked := h.checked
  entered := fun _ => ⟨found, hchecks⟩
  untried := fun hbefore => absurd hbefore hloop
  tried := h.tried
  numbered := h.numbered
  first := h.first
  guarded := hguarded
  answered := fun answer hanswer => (h.answered answer hanswer).goes hloop

theorem Inv.answers (h : Inv E s) {answer : Answer T} (hanswer : s.Accounts E answer) :
    Inv E (s.answered answer) where
  checked := h.checked
  entered := h.entered
  untried := h.untried
  tried := h.tried
  numbered := h.numbered
  first := h.first
  guarded := h.guarded
  answered := by
    intro other hother
    rw [← Option.some.inj hother]
    cases hold : s.answer with
    | none => exact hanswer
    | some old => exact h.answered old hold

theorem Handling.Accounts.mono {t : Handling T} {answer : Answer T} (hchecks : t.checks = s.checks)
    (hloop : t.loop = s.loop)
    (hattempts : ∀ attempt ∈ s.attempts, ∀ ending, attempt.left = .ends ending →
      attempt ∈ t.attempts) (h : s.Accounts E answer) : t.Accounts E answer := by
  cases answer with
  | success result =>
      obtain ⟨attempt, hattempt, hleft⟩ := h
      exact ⟨attempt, hattempts attempt hattempt _ hleft, hleft⟩
  | error result =>
      obtain h | ⟨attempt, hattempt, hleft⟩ | h := h
      · exact .inl (hchecks.trans h)
      · exact .inr (.inl ⟨attempt, hattempts attempt hattempt _ hleft, hleft⟩)
      · exact .inr (.inr ⟨hloop ▸ h.1, h.2⟩)
  | unexpected e =>
      obtain h | h := h
      · exact .inl (hchecks.trans h)
      · exact .inr ⟨hloop ▸ h.1, h.2⟩

/-- A new try. -/
theorem Inv.begins (h : Inv E s) {route : T.Route} {plugins : NgContextualPlugins T}
    (hchecks : s.checks = .ends (.right (route, plugins))) (backend : T.Backend) {loop : Loop}
    (hloop : loop ≠ .before)
    (hguarded : ∀ guarded, loop.guarded = some guarded → E.useCircuitBreakers = guarded) :
    Inv E ((s.begins ⟨backend, E.attempt route plugins backend⟩).goes loop) where
  checked := h.checked
  entered := fun _ => ⟨_, hchecks⟩
  untried := fun hbefore => absurd hbefore hloop
  tried := by
    intro route' plugins' hchecks' number attempt hattempt
    cases hchecks.symm.trans hchecks'
    change (s.attempts ++ [_])[number]? = some attempt at hattempt
    obtain hlt | hle := lt_or_ge number s.attempts.length
    · rw [List.getElem?_append_left hlt] at hattempt
      exact h.tried route plugins hchecks number attempt hattempt
    · rw [List.getElem?_append_right hle, List.getElem?_singleton] at hattempt
      split at hattempt
      next hnumber =>
        cases hattempt
        have hnone : s.eventsOf (.attempt number) = [] := by
          refine List.filterMap_eq_nil_iff.mpr fun entry hentry => ?_
          obtain ⟨source, event⟩ := entry
          refine if_neg fun hsource => absurd (h.numbered number event ?_) (not_lt.mpr hle)
          rwa [← hsource]
        exact hnone ▸ .refl
      next => cases hattempt
  numbered := by
    intro number event hentry
    have hlt := h.numbered number event hentry
    change number < (s.attempts ++ [_]).length
    rw [List.length_append]
    omega
  first := h.first
  guarded := hguarded
  answered := fun answer hanswer =>
    Handling.Accounts.goes hloop (Handling.Accounts.mono (s := s) rfl rfl
      (fun attempt hattempt _ _ => List.mem_append_left _ hattempt) (h.answered answer hanswer))

/-- The checks go on: nothing has been tried yet. -/
theorem Inv.checks (h : Inv E s) {change emits rest}
    (hchecks : s.checks = .steps change emits rest) :
    Inv E ({ s with attrs := change s.attrs, checks := rest s.attrs }.logs .checks
      (emits s.attrs)) := by
  have hbefore : s.loop = .before := by
    by_contra hloop
    obtain ⟨found, hfound⟩ := h.entered hloop
    cases hchecks.symm.trans hfound
  have hattempts := h.untried hbefore
  refine ⟨?_, fun hloop => absurd hbefore hloop, fun _ => hattempts, ?_, ?_, ?_, h.guarded, ?_⟩
  · rw [Handling.eventsOf_logs_self]
    exact (hchecks ▸ h.checked).step s.attrs
  · intro route plugins _ number attempt hattempt
    cases hattempts ▸ hattempt
  · intro number event hentry
    obtain hentry | hentry := List.mem_append.mp hentry
    · exact h.numbered number event hentry
    · simp at hentry
  · obtain ⟨rest', hlog, hrest⟩ := h.first
    have hnil : rest' = [] := by
      refine List.eq_nil_iff_forall_not_mem.mpr fun entry hentry => ?_
      obtain ⟨_ | number, event⟩ := entry
      · exact hrest _ hentry rfl
      · have hlt := h.numbered number event (hlog ▸ List.mem_append_right _ hentry)
        rw [hattempts] at hlt
        exact Nat.not_lt_zero _ hlt
    refine ⟨[], ?_, List.forall_mem_nil _⟩
    rw [Handling.eventsOf_logs_self, List.map_append, List.append_nil]
    change s.log ++ _ = _
    conv_lhs => rw [hlog, hnil, List.append_nil]
    rfl
  · intro answer hanswer
    have hnone := h.unanswered hbefore fun stop hstop => by cases hchecks.symm.trans hstop
    cases hnone.symm.trans hanswer

/-- A try goes on, on the attributes as it finds them. -/
theorem Inv.works (h : Inv E s) {number : Nat} {backend change emits rest}
    (hattempt : s.attempts[number]? = some ⟨backend, .steps change emits rest⟩) :
    Inv E ({ s with
      attrs := change s.attrs
      attempts := s.attempts.set number ⟨backend, rest s.attrs⟩ }.logs (.attempt number)
        (emits s.attrs)) := by
  have hlt : number < s.attempts.length := List.getElem?_eq_some_iff.mp hattempt |>.1
  refine ⟨?_, h.entered, fun hbefore => ?_, ?_, ?_, ?_, h.guarded, ?_⟩
  · rw [Handling.eventsOf_logs_of_ne (Source.checks_ne_attempt number)]
    exact h.checked
  · have hnil := h.untried hbefore
    rw [hnil] at hlt
    exact absurd hlt (Nat.not_lt_zero _)
  · intro route plugins hchecks other attempt hother
    change (s.attempts.set number _)[other]? = some attempt at hother
    by_cases hne : number = other
    · subst hne
      rw [List.getElem?_set_self hlt] at hother
      cases hother
      rw [Handling.eventsOf_logs_self]
      exact (h.tried route plugins hchecks number _ hattempt).step s.attrs
    · rw [List.getElem?_set_ne hne] at hother
      rw [Handling.eventsOf_logs_of_ne fun heq => hne (Source.attempt.inj heq).symm]
      exact h.tried route plugins hchecks other attempt hother
  · intro other event hentry
    change other < (s.attempts.set number _).length
    rw [List.length_set]
    obtain hentry | hentry := List.mem_append.mp hentry
    · exact h.numbered other event hentry
    · obtain ⟨_, _, heq⟩ := List.mem_map.mp hentry
      cases heq
      exact hlt
  · obtain ⟨rest', hlog, hrest⟩ := h.first
    refine ⟨rest' ++ (emits s.attrs).map (Prod.mk (.attempt number)), ?_, ?_⟩
    · rw [Handling.eventsOf_logs_of_ne (Source.checks_ne_attempt number), ← List.append_assoc]
      exact congrArg (· ++ _) hlog
    · refine List.forall_mem_append.mpr ⟨hrest, fun entry hentry => ?_⟩
      obtain ⟨_, _, rfl⟩ := List.mem_map.mp hentry
      exact (Source.checks_ne_attempt number).symm
  · intro answer hanswer
    refine Handling.Accounts.mono (s := s) rfl rfl (fun attempt hmem ending hleft => ?_)
      (h.answered answer hanswer)
    obtain ⟨other, hother⟩ := List.mem_iff_getElem?.mp hmem
    have hne : number ≠ other := by
      rintro rfl
      cases hattempt.symm.trans hother
      cases hleft
    exact List.mem_iff_getElem?.mpr ⟨other, (List.getElem?_set_ne hne).trans hother⟩

theorem Inv.consumes (h : Inv E s) : Inv E { s with bodyAlreadyConsumed := true } :=
  ⟨h.checked, h.entered, h.untried, h.tried, h.numbered, h.first, h.guarded, h.answered⟩

theorem Loop.ne_before_of_guarded {loop : Loop} {guarded : Bool}
    (h : loop.guarded = some guarded) : loop ≠ .before := by
  rintro rfl
  cases h

/-- `callTarget` is over, with an answer. -/
theorem Inv.ended (h : Inv E s) {found : T.Route × NgContextualPlugins T}
    (hchecks : s.checks = .ends (.right found)) {answer : Answer T}
    (hanswer : (s.goes .ended).Accounts E answer) : Inv E ((s.goes .ended).answered answer) :=
  Inv.answers (h.goes hchecks (by nofun) (by nofun)) hanswer

/-- `retryPromise` is called again. -/
theorem Inv.retries (h : Inv E s) (hguarded : s.loop.guarded = some true) (times : Int32)
    (failure : Option Throwable) : Inv E (s.goes (.retries times failure)) := by
  obtain ⟨found, hchecks⟩ := h.entered (Loop.ne_before_of_guarded hguarded)
  refine h.goes hchecks nofun fun guarded hsome => ?_
  rw [← Option.some.inj hsome]
  exact h.guarded true hguarded

theorem Inv.step {t : Handling T} (h : Inv E s) (hstep : HandleStep E s t) : Inv E t := by
  cases hstep with
  | checks hchecks => exact h.checks hchecks
  | @refuses stop answer hchecks hstop hanswer =>
      refine h.answers ?_
      cases stop with
      | left result =>
          cases hstop
          exact Or.inl hchecks
      | failed e =>
          cases hstop
          exact Or.inl hchecks
      | pending => cases hstop
  | calls hchecks hloop hbreakers hbackend =>
      exact h.begins hchecks _ (by nofun) fun guarded hguarded =>
        hbreakers.trans (Option.some.inj hguarded)
  | misses hchecks hloop hbreakers e => exact h.ended hchecks (Or.inr ⟨by nofun, hbreakers⟩)
  | @ends attempt ending answer hloop hlast hleft hanswer =>
      have hguarded : s.loop.guarded = some false := hloop ▸ rfl
      obtain ⟨found, hchecks⟩ := h.entered (Loop.ne_before_of_guarded hguarded)
      have hmem := List.mem_of_getLast? hlast
      refine h.ended hchecks ?_
      rcases ending with result | result | e | _
      · cases hanswer
        exact ⟨attempt, hmem, hleft⟩
      · cases hanswer
        exact Or.inr (Or.inl ⟨attempt, hmem, hleft⟩)
      · cases hanswer
        exact Or.inr ⟨by nofun, h.guarded false hguarded⟩
      · cases hanswer
  | enters hchecks hloop hbreakers =>
      exact h.goes hchecks (by nofun) fun guarded hguarded =>
        hbreakers.trans (Option.some.inj hguarded)
  | tries hchecks hloop htimes hbody hbackend =>
      have hbreakers := h.guarded true (hloop ▸ rfl)
      exact h.begins hchecks _ (by nofun) fun guarded hguarded =>
        hbreakers.trans (Option.some.inj hguarded)
  | consumed hloop htimes hbody => exact h.retries (hloop ▸ rfl) _ _
  | skipped hloop htimes hbody e => exact h.retries (hloop ▸ rfl) _ _
  | throws hloop htimes hbody e =>
      have hguarded : s.loop.guarded = some true := hloop ▸ rfl
      obtain ⟨found, hchecks⟩ := h.entered (Loop.ne_before_of_guarded hguarded)
      exact h.ended hchecks (Or.inr (Or.inr ⟨by nofun, h.guarded true hguarded, e, rfl⟩))
  | givesUp hloop =>
      have hguarded : s.loop.guarded = some true := hloop ▸ rfl
      obtain ⟨found, hchecks⟩ := h.entered (Loop.ne_before_of_guarded hguarded)
      exact h.ended hchecks (Or.inr (Or.inr ⟨by nofun, h.guarded true hguarded, _, rfl⟩))
  | succeeds hloop hlast hleft =>
      have hguarded : s.loop.guarded = some true := hloop ▸ rfl
      obtain ⟨found, hchecks⟩ := h.entered (Loop.ne_before_of_guarded hguarded)
      exact h.ended hchecks ⟨_, List.mem_of_getLast? hlast, hleft⟩
  | answers hloop hlast hleft =>
      have hguarded : s.loop.guarded = some true := hloop ▸ rfl
      obtain ⟨found, hchecks⟩ := h.entered (Loop.ne_before_of_guarded hguarded)
      exact h.ended hchecks (Or.inr (Or.inl ⟨_, List.mem_of_getLast? hlast, hleft⟩))
  | fails hloop hlast hleft => exact h.retries (hloop ▸ rfl) _ _
  | timesOut hloop => exact h.retries (hloop ▸ rfl) _ _
  | globalTimeout hbefore hover hbreakers =>
      exact h.answers (Or.inr (Or.inr ⟨hbefore, hbreakers, _, rfl⟩))
  | works hattempt => exact h.works hattempt

theorem Reachable.inv (h : Reachable E s) : Inv E s := by
  obtain ⟨attrs, hsteps⟩ := h
  induction hsteps with
  | refl => exact inv_initial attrs
  | tail _ hhappens ih =>
      cases hhappens with
      | step hstep => exact ih.step hstep
      | consumes hattempts => exact ih.consumes

/-! ## Requests with nothing beside them -/

namespace Handling

variable (s : Handling T)

/-- The checks are run to their end. -/
def finishChecks : Handling T :=
  let run := s.checks.alone s.attrs
  { s with attrs := run.2.1, checks := .ends run.1 }.logs .checks run.2.2

/-- A try is run to its end. -/
def finishAttempt (number : Nat) (attempt : Attempt T) : Handling T :=
  let run := attempt.left.alone s.attrs
  { s with
    attrs := run.2.1
    attempts := s.attempts.set number ⟨attempt.backend, .ends run.1⟩ }.logs (.attempt number)
      run.2.2

theorem logs_nil (source : Source) : s.logs source [] = s := by
  rw [logs, List.map_nil, List.append_nil]

theorem logs_logs (source : Source) (events more : List (Event T)) :
    (s.logs source events).logs source more = s.logs source (events ++ more) := by
  simp only [logs, List.map_append, List.append_assoc]

end Handling

theorem happens_finishChecks (s : Handling T) :
    Relation.ReflTransGen (Happens E) s s.finishChecks := by
  generalize hchecks : s.checks = checks
  induction checks generalizing s with
  | ends last =>
      have hfinish : s.finishChecks = s := by
        simp only [Handling.finishChecks, hchecks, alone, Handling.logs_nil]
        rw [← hchecks]
      exact hfinish.symm ▸ .refl
  | steps change emits rest ih =>
      have hfinish : s.finishChecks = ({ s with
          attrs := change s.attrs
          checks := rest s.attrs }.logs .checks (emits s.attrs)).finishChecks := by
        simp only [Handling.finishChecks, hchecks, alone]
        exact (Handling.logs_logs { s with attrs := _, checks := _ } _ _ _).symm
      rw [hfinish]
      exact .head (.step (.checks hchecks)) (ih s.attrs _ rfl)

theorem happens_finishAttempt (s : Handling T) {number : Nat} {attempt : Attempt T}
    (hattempt : s.attempts[number]? = some attempt) :
    Relation.ReflTransGen (Happens E) s (s.finishAttempt number attempt) := by
  obtain ⟨backend, left⟩ := attempt
  induction left generalizing s with
  | ends last =>
      have hset : s.attempts.set number ⟨backend, .ends last⟩ = s.attempts := by
        obtain ⟨hlt, heq⟩ := List.getElem?_eq_some_iff.mp hattempt
        rw [← heq, List.set_getElem_self]
      have hfinish : s.finishAttempt number ⟨backend, .ends last⟩ = s := by
        simp only [Handling.finishAttempt, alone, Handling.logs_nil, hset]
      exact hfinish.symm ▸ .refl
  | steps change emits rest ih =>
      have hlt := (List.getElem?_eq_some_iff.mp hattempt).1
      have hfinish : s.finishAttempt number ⟨backend, .steps change emits rest⟩ =
          ({ s with
            attrs := change s.attrs
            attempts := s.attempts.set number ⟨backend, rest s.attrs⟩ }.logs (.attempt number)
              (emits s.attrs)).finishAttempt number ⟨backend, rest s.attrs⟩ := by
        simp only [Handling.finishAttempt, alone]
        rw [← Handling.logs_logs]
        simp only [Handling.logs, List.set_set]
      rw [hfinish]
      exact .head (.step (.works hattempt)) (ih s.attrs _ (List.getElem?_set_self hlt))

/-! A small engine: a validator, a transformer that doubles requests, and a backend that counts one
up. -/

@[reducible]
def sampleTypes : EngineTypes where
  Slot := Unit
  User := Unit
  Route := Unit
  Backend := Unit
  Request := Nat
  BackendResponse := Nat
  Response := Nat
  Result := Nat
  Others := Unit

def sampleAttributes : Attributes sampleTypes := ⟨none, none, none, none, ()⟩

def sampleValidator (called : Called (NgAccess sampleTypes)) :
    NgPluginWrapper (NgIncomingRequestValidator sampleTypes) :=
  ⟨⟨fun _ attrs => (called, attrs)⟩, none, [], 0⟩

def doubling : NgPluginWrapper (NgRequestTransformer sampleTypes) where
  plugin := {
    beforeRequest := fun _ attrs => (.returns (), attrs)
    transformRequest := fun ctx attrs => (.returns (.ok (2 * ctx.otoroshiRequest)), attrs)
    transformResponse := fun ctx attrs => (.returns (.ok ctx.otoroshiResponse), attrs) }
  defaultConfig := none
  config := []
  instanceId := 1

def samplePlugins : NgContextualPlugins sampleTypes :=
  ⟨[], [], [doubling], [], [], [doubling], none, [doubling], []⟩

def sampleEngine (called : List (Called (NgAccess sampleTypes))) : Engine sampleTypes where
  otoroshiJsonError _ _ status := status
  craftResponseResult _ status _ := status
  incomingRequestValidators := called.map sampleValidator
  handleConcurrentRequest attrs := (.ok (), attrs)
  findRoute attrs := (.ok (), attrs)
  handleRelayTraffic _ attrs := (.ok (), attrs)
  handleTenantCheck _ attrs := (.ok (), attrs)
  checkGlobalMaintenance _ attrs := (.ok (), attrs)
  extractTrackingId _ attrs := attrs
  handleLegacyChecks _ attrs := (.ok (), attrs)
  routeSlots _ := []
  globalSlots := []
  contextualPlugins _ _ _ _ _ := samplePlugins
  isPreRouting _ := false
  isAccessValidator _ := false
  planFlow _ := none
  rawRequest := 3
  otoroshiRequest _ _ _ := 3
  requestBackend _ := none
  stream _ request attrs := (.ok (request + 1), attrs)
  response response := response
  streamResponse _ _ _ _ finalResp attrs := (.ok finalResp, attrs)
  triggerProxyDone _ _ _ _ _ attrs := (.ok (), attrs)
  useCircuitBreakers := false
  retries _ := 1
  allTargets _ _ := [()]

/-- A request after its checks. -/
def checkedRequest (called : List (Called (NgAccess sampleTypes))) : Handling sampleTypes :=
  (Handling.initial (sampleEngine called) sampleAttributes).finishChecks

theorem reachable_checkedRequest (called : List (Called (NgAccess sampleTypes))) :
    Reachable (sampleEngine called) (checkedRequest called) :=
  ⟨sampleAttributes, happens_finishChecks _⟩

def sampleAttempt : Attempt sampleTypes :=
  ⟨(), (sampleEngine [.returns .allowed]).attempt () samplePlugins ()⟩

/-- A request whose validator lets it through, after its try. -/
def triedRequest : Handling sampleTypes :=
  (((checkedRequest [.returns .allowed]).begins sampleAttempt).goes .once).finishAttempt 0
    sampleAttempt

theorem reachable_triedRequest : Reachable (sampleEngine [.returns .allowed]) triedRequest := by
  obtain ⟨attrs, hchecked⟩ := reachable_checkedRequest [.returns .allowed]
  refine ⟨attrs, (hchecked.tail (.step ?_)).trans (happens_finishAttempt _ rfl)⟩
  exact .calls rfl rfl rfl (List.mem_singleton_self ())

/-! ## Backends -/

/-- What is known of the checks when something has been tried. -/
theorem Inv.exists_cleared (h : Inv E s) (hattempts : s.attempts ≠ []) : ∃ route plugins,
    s.checks = .ends (.right (route, plugins)) ∧
      Cleared E (s.eventsOf .checks) route plugins := by
  obtain ⟨⟨route, plugins⟩, hchecks⟩ := h.entered fun hbefore => hattempts (h.untried hbefore)
  have hreaches := h.checked
  rw [hchecks] at hreaches
  have hyields := hreaches.yields_ends
  exact ⟨route, plugins, hchecks, cleared_of_yields hyields⟩

/-- No backend is tried before every check there is for the request was made and has passed, and
none is made later. -/
theorem tried_after_cleared (h : Reachable E s) (hattempts : s.attempts ≠ []) :
    ∃ checks rest route plugins, s.log = checks.map (Prod.mk .checks) ++ rest ∧
      (∀ entry ∈ rest, entry.1 ≠ .checks) ∧ Cleared E checks route plugins := by
  obtain ⟨route, plugins, -, hcleared⟩ := h.inv.exists_cleared hattempts
  obtain ⟨rest, hlog, hrest⟩ := h.inv.first
  exact ⟨_, rest, route, plugins, hlog, hrest, hcleared⟩

theorem tried_after_cleared_triedRequest :
    ∃ checks rest route plugins, triedRequest.log = checks.map (Prod.mk .checks) ++ rest ∧
      (∀ entry ∈ rest, entry.1 ≠ .checks) ∧
        Cleared (sampleEngine [.returns .allowed]) checks route plugins :=
  tried_after_cleared reachable_triedRequest (List.cons_ne_nil _ _)

theorem mem_eventsOf {source : Source} {event : Event T} :
    event ∈ s.eventsOf source ↔ (source, event) ∈ s.log := by
  constructor
  · intro h
    obtain ⟨⟨other, _⟩, hentry, hsome⟩ := List.mem_filterMap.mp h
    split at hsome
    next heq =>
      cases hsome
      exact heq ▸ hentry
    next => cases hsome
  · intro h
    exact List.mem_filterMap.mpr ⟨_, h, if_pos rfl⟩

/-- Calls that are logged come before what is none of them. -/
theorem prefix_of_not_mem {α : Type} {before after calls rest : List α} {x : α}
    (h : before ++ after = calls ++ rest) (hx : x ∈ before) (hcalls : x ∉ calls) :
    ∃ more, before = calls ++ more ∧ rest = more ++ after := by
  obtain ⟨more, rfl, rfl⟩ | ⟨more, rfl, rfl⟩ := List.append_eq_append_iff.mp h
  · exact absurd (List.mem_append_left _ hx) hcalls
  · exact ⟨more, rfl, rfl⟩

/-- A backend gets what the last transformer of its try handed on, and each transformer was given
what the one before it handed on. This is so for every try, also where tries go on beside each
other. -/
theorem backend_given_transformed (h : Reachable E s) {number : Nat} {target : T.Backend}
    {request : T.Request} (hcall : (.attempt number, .backendCalled target request) ∈ s.log) :
    ∃ route plugins backend attrs calls rest, Cleared E (s.eventsOf .checks) route plugins ∧
      s.eventsOf (.attempt number) = (requestTransformers E.rawRequest).events false calls ++ rest ∧
      Linked plugins.transformerPluginsThatTransformsRequest
        (E.otoroshiRequest route backend attrs) calls (.passes request) ∧
      calls.map Call.item = plugins.transformerPluginsThatTransformsRequest ∧
      (calls.IsChain fun call next => call.verdict = .passes next.given) ∧
      (∀ call ∈ calls, (requestTransformers E.rawRequest).Said plugins.cacheDiscriminator call) ∧
      target = (E.requestBackend request).getD backend := by
  have hlt := h.inv.numbered number _ hcall
  obtain ⟨route, plugins, hchecks, hcleared⟩ :=
    h.inv.exists_cleared (List.ne_nil_of_length_pos (Nat.zero_lt_of_lt hlt))
  have hattempt := List.getElem?_eq_getElem hlt
  have hreaches := h.inv.tried route plugins hchecks number _ hattempt
  have : Nonempty (Attributes T) := ⟨s.attrs⟩
  obtain ⟨more, last, hyields⟩ := hreaches.exists_yields
  have hmem := mem_eventsOf.mpr hcall
  obtain hnil | ⟨attrs, calls, verdict, rest, hevents, hlinked, hsaid, hcalled⟩ :=
    transformed_of_yields hyields
  · exact absurd (List.append_eq_nil_iff.mp hnil).1 (List.ne_nil_of_mem hmem)
  have hnot : .backendCalled target request ∉
      (requestTransformers E.rawRequest).events false calls := by
    intro hmem
    obtain ⟨place, call, heq⟩ := Chain.exists_of_mem_events hmem
    cases heq
  obtain ⟨events, hbefore, hrest⟩ := prefix_of_not_mem hevents hmem hnot
  have hrequest := hcalled target request <| by
    rw [hbefore] at hmem
    rw [hrest]
    exact List.mem_append_left _ ((List.mem_append.mp hmem).resolve_left hnot)
  obtain ⟨rfl, rfl⟩ := hrequest
  exact ⟨route, plugins, _, attrs, calls, events, hcleared, hbefore, hlinked,
    (hlinked.all_pass rfl).1, hlinked.isChain, hsaid, rfl⟩

theorem mem_log_triedRequest :
    (.attempt 0, .backendCalled () (6 : Nat)) ∈ triedRequest.log :=
  List.mem_of_getElem? (i := 4) rfl

theorem backend_given_transformed_triedRequest :
    ∃ route plugins backend attrs calls rest,
      Cleared (sampleEngine [.returns .allowed]) (triedRequest.eventsOf .checks) route plugins ∧
      triedRequest.eventsOf (.attempt 0) =
        (requestTransformers (T := sampleTypes) 3).events false calls ++ rest ∧
      Linked plugins.transformerPluginsThatTransformsRequest
        ((sampleEngine [.returns .allowed]).otoroshiRequest route backend attrs) calls
        (.passes 6) ∧
      calls.map Call.item = plugins.transformerPluginsThatTransformsRequest ∧
      (calls.IsChain fun call next => call.verdict = .passes next.given) ∧
      (∀ call ∈ calls,
        (requestTransformers (T := sampleTypes) 3).Said plugins.cacheDiscriminator call) ∧
      () = ((sampleEngine [.returns .allowed]).requestBackend (6 : Nat)).getD backend :=
  backend_given_transformed reachable_triedRequest mem_log_triedRequest

/-- A request that is answered with success has been served: a try was carried through from the
first transformer of the request to the last one of the response, behind all the checks. -/
theorem served_of_success (h : Reachable E s) {result : T.Result}
    (hanswer : s.answer = some (.success result)) :
    ∃ route plugins number backend, Cleared E (s.eventsOf .checks) route plugins ∧
      Served E route plugins backend (s.eventsOf (.attempt number)) result := by
  obtain ⟨attempt, hmem, hleft⟩ := h.inv.answered _ hanswer
  obtain ⟨route, plugins, hchecks, hcleared⟩ := h.inv.exists_cleared (List.ne_nil_of_mem hmem)
  obtain ⟨number, hnumber⟩ := List.mem_iff_getElem?.mp hmem
  have hreaches := h.inv.tried route plugins hchecks number attempt hnumber
  rw [hleft] at hreaches
  have hyields := hreaches.yields_ends
  exact ⟨route, plugins, number, attempt.backend, hcleared, served_of_yields hyields⟩

/-- The request after its try, with its answer. -/
def servedRequest : Handling sampleTypes := (triedRequest.goes .ended).answered (.success 7)

theorem reachable_servedRequest : Reachable (sampleEngine [.returns .allowed]) servedRequest := by
  obtain ⟨attrs, htried⟩ := reachable_triedRequest
  exact ⟨attrs, htried.tail (.step (.ends rfl rfl rfl rfl))⟩

theorem served_of_success_servedRequest :
    ∃ route plugins number backend,
      Cleared (sampleEngine [.returns .allowed]) (servedRequest.eventsOf .checks) route plugins ∧
      Served (sampleEngine [.returns .allowed]) route plugins backend
        (servedRequest.eventsOf (.attempt number)) 7 :=
  served_of_success reachable_servedRequest rfl

/-! ## Refusals -/

/-- What has stopped a program is the last thing it has logged. -/
theorem Orderly.last_of_refusal {α : Type} {events more : List (Event T)} {last : Ending T α}
    {event : Event T} {stop : Stop T} (h : Orderly E (events ++ more) last) (hmem : event ∈ events)
    (hrefusal : event.refusal E = some stop) :
    last = .stopped stop ∧ ∃ before, events = before ++ [event] := by
  have hne : event.refusal E ≠ none := hrefusal ▸ Option.some_ne_none stop
  cases last with
  | right value => exact absurd (h event (List.mem_append_left _ hmem)) hne
  | stopped other =>
      obtain ⟨-, hnone⟩ | ⟨before, final, hevents, hbefore, hfinal⟩ := h
      · exact absurd (hnone event (List.mem_append_left _ hmem)) hne
      · have hnot : event ∉ before := fun hmem => hne (hbefore event hmem)
        obtain ⟨rest, hsplit, hrest⟩ := prefix_of_not_mem hevents hmem hnot
        rw [hsplit] at hmem
        have hrest' : event ∈ rest := (List.mem_append.mp hmem).resolve_left hnot
        obtain ⟨rfl, rfl⟩ : rest = [final] ∧ more = [] := by
          obtain ⟨rfl, -⟩ | ⟨hone, hnil⟩ := List.singleton_eq_append_iff.mp hrest
          · cases hrest'
          · exact ⟨hone, hnil⟩
        cases List.mem_singleton.mp hrest'
        exact ⟨congrArg _ (Option.some.inj (hfinal.symm.trans hrefusal)), before, hsplit⟩

/-- A plugin that stops the checks ends the request: nothing is called behind it, no backend is
tried, and no answer is given but the one it stands for. -/
theorem refused_at_checks (h : Reachable E s) {event : Event T} {stop : Stop T}
    (hmem : (.checks, event) ∈ s.log) (hrefusal : event.refusal E = some stop) :
    s.attempts = [] ∧ (∃ before, s.log = before ++ [(.checks, event)]) ∧
      ∀ answer, s.answer = some answer → stop.answer = some answer := by
  have : Nonempty (Attributes T) := ⟨s.attrs⟩
  have hevent := mem_eventsOf.mpr hmem
  have hended : ∀ last, s.checks = .ends last → last = .stopped stop := by
    intro last hchecks
    have hreaches := h.inv.checked
    rw [hchecks] at hreaches
    exact ((disciplined_checks E _ _ (hreaches.yields (.ends last))).last_of_refusal hevent
      hrefusal).1
  have hloop : s.loop = .before := by
    by_contra hloop
    obtain ⟨found, hfound⟩ := h.inv.entered hloop
    cases hended _ hfound
  have hattempts := h.inv.untried hloop
  refine ⟨hattempts, ?_, fun answer hanswer => ?_⟩
  · obtain ⟨more, last, hyields⟩ := h.inv.checked.exists_yields
    obtain ⟨-, before, hbefore⟩ :=
      (disciplined_checks E _ _ hyields).last_of_refusal hevent hrefusal
    obtain ⟨rest, hlog, hrest⟩ := h.inv.first
    have hnil : rest = [] := by
      refine List.eq_nil_iff_forall_not_mem.mpr fun entry hentry => ?_
      obtain ⟨_ | number, event⟩ := entry
      · exact hrest _ hentry rfl
      · have hlt := h.inv.numbered number event (hlog ▸ List.mem_append_right _ hentry)
        rw [hattempts] at hlt
        exact Nat.not_lt_zero _ hlt
    refine ⟨before.map (Prod.mk .checks), ?_⟩
    rw [hlog, hnil, List.append_nil, hbefore, List.map_append]
    rfl
  · have haccounts := h.inv.answered answer hanswer
    cases answer with
    | success result =>
        obtain ⟨attempt, hattempt, -⟩ := haccounts
        cases hattempts ▸ hattempt
    | error result =>
        obtain hleft | ⟨attempt, hattempt, -⟩ | ⟨hne, -⟩ := haccounts
        · cases hended _ hleft
          rfl
        · cases hattempts ▸ hattempt
        · exact absurd hloop hne
    | unexpected e =>
        obtain hleft | ⟨hne, -⟩ := haccounts
        · cases hended _ hleft
          rfl
        · exact absurd hloop hne

theorem refused_at_checks_denied :
    (checkedRequest [.returns (.denied 401)]).attempts = [] ∧
      (∃ before, (checkedRequest [.returns (.denied 401)]).log =
        before ++ [(.checks, .validated false
          ⟨sampleValidator (.returns (.denied 401)), (), .answers 401⟩)]) ∧
      ∀ answer, (checkedRequest [.returns (.denied 401)]).answer = some answer →
        (Stop.left (401 : Nat) : Stop sampleTypes).answer = some answer :=
  refused_at_checks (reachable_checkedRequest [.returns (.denied 401)])
    (List.mem_singleton_self _) rfl

/-! ## Requests without an answer -/

/-- What `callTarget` leaves behind when it is over, and what it has while its only try runs. -/
structure Answerable (E : Engine T) (s : Handling T) : Prop where
  ended : s.loop = .ended → s.answer ≠ none
  once : s.loop = .once → s.answer = none ∧ ∃ attempt, s.attempts = [attempt]
  settled : E.useCircuitBreakers = false → s.loop = .ended → ∀ attempt ∈ s.attempts,
    ∃ ending, attempt.left = .ends ending ∧ ending ≠ .stopped .pending

theorem Answerable.over_of_breakers {answer : Answer T} (hbreakers : E.useCircuitBreakers = true) :
    Answerable E ((s.goes .ended).answered answer) where
  ended := fun _ => Option.some_ne_none _
  once := nofun
  settled := fun hoff => by cases hbreakers.symm.trans hoff

theorem Answerable.of_guarded (h : s.loop.guarded = some true) : Answerable E s where
  ended := fun hover => by
    rw [hover] at h
    cases h
  once := fun honce => by
    rw [honce] at h
    cases h
  settled := fun _ hover => by
    rw [hover] at h
    cases h

theorem Answerable.step {t : Handling T} (h : Answerable E s) (hinv : Inv E s)
    (hstep : HandleStep E s t) : Answerable E t := by
  cases hstep with
  | checks hchecks => exact ⟨h.ended, h.once, h.settled⟩
  | refuses hchecks hstop hanswer =>
      refine ⟨fun _ => Option.some_ne_none _, fun honce => ?_, h.settled⟩
      have hguarded : s.loop.guarded = some false := congrArg Loop.guarded honce
      obtain ⟨found, hfound⟩ := hinv.entered (Loop.ne_before_of_guarded hguarded)
      cases hchecks.symm.trans hfound
  | @calls route plugins backend hchecks hloop hbreakers hbackend =>
      have hattempts := hinv.untried hloop
      refine ⟨nofun, fun _ => ⟨?_, ⟨backend, E.attempt route plugins backend⟩, ?_⟩, nofun⟩
      · exact hinv.unanswered hloop fun stop hstop => by cases hchecks.symm.trans hstop
      · change s.attempts ++ [_] = [_]
        rw [hattempts, List.nil_append]
  | misses hchecks hloop hbreakers e =>
      refine ⟨fun _ => Option.some_ne_none _, nofun, fun _ _ attempt hmem => ?_⟩
      cases hinv.untried hloop ▸ hmem
  | @ends attempt ending answer hloop hlast hleft hanswer =>
      refine ⟨fun _ => Option.some_ne_none _, nofun, fun _ _ other hmem => ?_⟩
      obtain ⟨-, only, honly⟩ := h.once hloop
      rw [honly] at hlast
      cases hlast
      cases List.mem_singleton.mp (honly ▸ hmem)
      refine ⟨ending, hleft, ?_⟩
      rintro rfl
      cases hanswer
  | enters hchecks hloop hbreakers => exact .of_guarded rfl
  | tries hchecks hloop htimes hbody hbackend => exact .of_guarded rfl
  | consumed hloop htimes hbody => exact .of_guarded rfl
  | skipped hloop htimes hbody e => exact .of_guarded rfl
  | throws hloop htimes hbody e => exact .over_of_breakers (hinv.guarded true (hloop ▸ rfl))
  | givesUp hloop => exact .over_of_breakers (hinv.guarded true (hloop ▸ rfl))
  | succeeds hloop hlast hleft => exact .over_of_breakers (hinv.guarded true (hloop ▸ rfl))
  | answers hloop hlast hleft => exact .over_of_breakers (hinv.guarded true (hloop ▸ rfl))
  | fails hloop hlast hleft => exact .of_guarded rfl
  | timesOut hloop => exact .of_guarded rfl
  | globalTimeout hbefore hover hbreakers =>
      refine ⟨fun hover' => absurd hover' hover, fun honce => ?_, fun hoff => ?_⟩
      · cases hbreakers.symm.trans (hinv.guarded false (honce ▸ rfl))
      · cases hbreakers.symm.trans hoff
  | @works number backend change emits rest hattempt =>
      refine ⟨h.ended, fun honce => ?_, fun hoff hover attempt hmem => ?_⟩
      · obtain ⟨hanswer, only, honly⟩ := h.once honce
        refine ⟨hanswer, List.length_eq_one_iff.mp ?_⟩
        change (s.attempts.set number _).length = 1
        rw [List.length_set, honly]
        rfl
      · obtain ⟨ending, hleft, -⟩ := h.settled hoff hover _ (List.mem_of_getElem? hattempt)
        cases hleft

theorem Reachable.answerable (h : Reachable E s) : Answerable E s := by
  obtain ⟨attrs, hsteps⟩ := h
  induction hsteps with
  | refl => exact ⟨nofun, nofun, nofun⟩
  | tail hsteps hhappens ih =>
      cases hhappens with
      | step hstep => exact ih.step (Reachable.inv ⟨attrs, hsteps⟩) hstep
      | consumes hattempts => exact ⟨ih.ended, ih.once, ih.settled⟩

/-- The event of a plugin that throws behind the first place of its chain. -/
def Event.Lost (E : Engine T) (event : Event T) : Prop := event.refusal E = some .pending

/-- A program that is left pending has lost a plugin. -/
theorem Orderly.exists_lost {α : Type} {events : List (Event T)}
    (h : Orderly E events (.stopped .pending : Ending T α)) : ∃ event ∈ events, event.Lost E := by
  obtain ⟨hne, -⟩ | ⟨before, event, rfl, -, hevent⟩ := h
  · exact absurd rfl hne
  · exact ⟨event, List.mem_append_right _ (List.mem_singleton_self event), hevent⟩

/-- The engine has nothing left to do and the request is without an answer: something in it was left
pending. -/
theorem pending_of_done (h : Reachable E s) (hdone : ∀ t, ¬ HandleStep E s t)
    (hanswer : s.answer = none) : s.checks = .ends (.stopped .pending) ∨
      E.useCircuitBreakers = false ∧ ∃ attempt, s.attempts[0]? = some attempt ∧
        attempt.left = .ends (.stopped .pending) := by
  cases hchecks : s.checks with
  | steps change emits rest => exact absurd (.checks hchecks) (hdone _)
  | ends last =>
      rcases last with ⟨route, plugins⟩ | result | e | _
      · refine .inr ?_
        cases hloop : s.loop with
        | before =>
            cases hbreakers : E.useCircuitBreakers with
            | true => exact absurd (.enters hchecks hloop hbreakers) (hdone _)
            | false => exact absurd (.misses hchecks hloop hbreakers .timeout) (hdone _)
        | retries times failure =>
            by_cases htimes : times = 0
            · exact absurd (.givesUp (htimes ▸ hloop)) (hdone _)
            · cases hbody : s.bodyAlreadyConsumed with
              | true => exact absurd (.consumed hloop htimes hbody) (hdone _)
              | false => exact absurd (.skipped hloop htimes hbody .timeout) (hdone _)
        | calls times => exact absurd (.timesOut hloop) (hdone _)
        | once =>
            obtain ⟨-, ⟨backend, left⟩, honly⟩ := h.answerable.once hloop
            have hfirst : s.attempts[0]? = some ⟨backend, left⟩ := by rw [honly]; rfl
            have hlast : s.attempts.getLast? = some ⟨backend, left⟩ := by rw [honly]; rfl
            refine ⟨h.inv.guarded false (hloop ▸ rfl), _, hfirst, ?_⟩
            cases left with
            | steps change emits rest => exact absurd (.works hfirst) (hdone _)
            | ends ending =>
                rcases ending with result | result | e | _
                · exact absurd (.ends hloop hlast rfl rfl) (hdone _)
                · exact absurd (.ends hloop hlast rfl rfl) (hdone _)
                · exact absurd (.ends hloop hlast rfl rfl) (hdone _)
                · rfl
        | ended => exact absurd hanswer (h.answerable.ended hloop)
      · exact absurd (.refuses hchecks rfl hanswer) (hdone _)
      · exact absurd (.refuses hchecks rfl hanswer) (hdone _)
      · exact .inl rfl

/-- The only try has lost a plugin: it is the end of the request. -/
theorem unanswered_of_lost_attempt (h : Reachable E s) {number : Nat} {event : Event T}
    (hmem : (.attempt number, event) ∈ s.log) (hlost : event.Lost E)
    (hoff : E.useCircuitBreakers = false) : s.answer = none := by
  have hlt := h.inv.numbered number event hmem
  have hne : s.attempts ≠ [] := List.ne_nil_of_length_pos (Nat.zero_lt_of_lt hlt)
  obtain ⟨route, plugins, hchecks, -⟩ := h.inv.exists_cleared hne
  cases hloop : s.loop with
  | before => exact absurd (h.inv.untried hloop) hne
  | retries times failure => cases hoff.symm.trans (h.inv.guarded true (hloop ▸ rfl))
  | calls times => cases hoff.symm.trans (h.inv.guarded true (hloop ▸ rfl))
  | once => exact (h.answerable.once hloop).1
  | ended =>
      obtain ⟨ending, hleft, hpending⟩ :=
        h.answerable.settled hoff hloop s.attempts[number] (List.getElem_mem hlt)
      have hreaches := h.inv.tried route plugins hchecks number _ (List.getElem?_eq_getElem hlt)
      rw [hleft] at hreaches
      exact absurd ((disciplined_attempt E route plugins _ _ _ (hreaches.yields (.ends ending))
        ).last_of_refusal (mem_eventsOf.mpr hmem) hlost).1 hpending

/-- Where the engine has nothing left to do, the request is without an answer exactly if a plugin
was lost: one of the checks, or of the only try when there are no circuit breakers. -/
theorem unanswered_iff_lost (h : Reachable E s) (hdone : ∀ t, ¬ HandleStep E s t) :
    s.answer = none ↔ ∃ source event, (source, event) ∈ s.log ∧ event.Lost E ∧
      (source = .checks ∨ E.useCircuitBreakers = false) := by
  constructor
  · intro hanswer
    obtain hpending | ⟨hoff, attempt, hattempt, hpending⟩ := pending_of_done h hdone hanswer
    · have hreaches := h.inv.checked
      rw [hpending] at hreaches
      have hyields := hreaches.yields_ends
      obtain ⟨event, hmem, hlost⟩ := (disciplined_checks E _ _ hyields).exists_lost
      exact ⟨.checks, event, mem_eventsOf.mp hmem, hlost, .inl rfl⟩
    · obtain ⟨route, plugins, hchecks, -⟩ :=
        h.inv.exists_cleared (List.ne_nil_of_mem (List.mem_of_getElem? hattempt))
      have hreaches := h.inv.tried route plugins hchecks 0 attempt hattempt
      rw [hpending] at hreaches
      have hyields := hreaches.yields_ends
      obtain ⟨event, hmem, hlost⟩ := (disciplined_attempt E route plugins _ _ _ hyields).exists_lost
      exact ⟨.attempt 0, event, mem_eventsOf.mp hmem, hlost, .inr hoff⟩
  · rintro ⟨source, event, hmem, hlost, hsource⟩
    cases source with
    | checks =>
        obtain ⟨-, -, hanswers⟩ := refused_at_checks h hmem hlost
        cases hanswer : s.answer with
        | none => rfl
        | some answer => cases hanswers answer hanswer
    | attempt number =>
        exact unanswered_of_lost_attempt h hmem hlost (hsource.resolve_left nofun)

/-- With the checks left pending the engine has nothing to do. -/
theorem done_of_pending (h : Inv E s) (hpending : s.checks = .ends (.stopped .pending)) (t) :
    ¬ HandleStep E s t := by
  have hloop : s.loop = .before := by
    by_contra hloop
    obtain ⟨found, hfound⟩ := h.entered hloop
    cases hpending.symm.trans hfound
  intro hstep
  cases hstep with
  | checks hchecks => cases hpending.symm.trans hchecks
  | refuses hchecks hstop hanswer =>
      cases hpending.symm.trans hchecks
      cases hstop
  | calls hchecks => cases hpending.symm.trans hchecks
  | misses hchecks => cases hpending.symm.trans hchecks
  | ends honce => cases hloop.symm.trans honce
  | enters hchecks => cases hpending.symm.trans hchecks
  | tries hchecks => cases hpending.symm.trans hchecks
  | consumed hretries => cases hloop.symm.trans hretries
  | skipped hretries => cases hloop.symm.trans hretries
  | throws hretries => cases hloop.symm.trans hretries
  | givesUp hretries => cases hloop.symm.trans hretries
  | succeeds hcalls => cases hloop.symm.trans hcalls
  | answers hcalls => cases hloop.symm.trans hcalls
  | fails hcalls => cases hloop.symm.trans hcalls
  | timesOut hcalls => cases hloop.symm.trans hcalls
  | globalTimeout hbefore => exact hbefore hloop
  | works hattempt =>
      rw [h.untried hloop] at hattempt
      cases hattempt

theorem unanswered_iff_lost_thrown :
    (checkedRequest [.returns .allowed, .throws .timeout]).answer = none ↔
      ∃ source event,
        (source, event) ∈ (checkedRequest [.returns .allowed, .throws .timeout]).log ∧
        event.Lost (sampleEngine [.returns .allowed, .throws .timeout]) ∧
        (source = .checks ∨
          (sampleEngine [.returns .allowed, .throws .timeout]).useCircuitBreakers = false) :=
  unanswered_iff_lost (reachable_checkedRequest [.returns .allowed, .throws .timeout])
    (done_of_pending (reachable_checkedRequest [.returns .allowed, .throws .timeout]).inv rfl)

end Pipeline

end Otoroshi
