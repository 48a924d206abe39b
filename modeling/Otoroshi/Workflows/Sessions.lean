/-
# Paused workflow sessions

A workflow that pauses saves a session, and a request with the id of the session resumes it.
The request reads the session, starts to delete it without waiting for the end of that, and
runs the remainder of the workflow. A worker of a cluster works on a copy of what its leader
has, and asks the leader to delete the session too.

`once_of_meets` says for which runs no session is resumed twice: those in which a request
never finds a session that another one found before it. On a single gateway it is enough
that requests for a session do not overlap (`once_of_serial`).
-/

import Mathlib.Data.List.Perm.Basic
import Mathlib.Logic.Function.Basic
import Otoroshi.Foundation.Run
import Otoroshi.Foundation.Text

namespace Otoroshi

namespace Workflows

/-- `wfr` is the run as it was paused, with its workflow and its functions. -/
structure PausedWorkflowSession (Run : Type) where
  id : Str
  workflowRef : Str
  wfr : Run
  fromPath : List Nat

/-- What a session is stored under. -/
abbrev SessionKey := Str × Str

def PausedWorkflowSession.key {Run : Type} (session : PausedWorkflowSession Run) : SessionKey :=
  (session.workflowRef, session.id)

/-- A session as it was saved, with the number of saves before it. -/
structure Pause (Run : Type) where
  session : PausedWorkflowSession Run
  number : Nat

/-- The stores of the gateways, of which `0` is the leader or the only one, and what is
under way. -/
structure Sessions (Run : Type) where
  stores : Nat → SessionKey → Option (Pause Run) := fun _ _ => none
  saves : Nat := 0
  /-- the requests that have found a session -/
  found : List (Nat × Pause Run) := []
  /-- the deletions that have not reached their store -/
  deletions : List (Nat × SessionKey) := []
  /-- the sessions whose remainder was executed -/
  executed : List (Pause Run) := []

/-- What happens. A deletion may fail, and a worker takes over the state of the leader. -/
inductive SessionEvent (Run : Type)
  | save (gateway : Nat) (session : PausedWorkflowSession Run)
  | find (gateway : Nat) (workflowRef id : Str)
  | resume (index : Nat)
  | delete (index : Nat)
  | lose (index : Nat)
  | sync (worker : Nat)

variable {Run : Type}

/-- Write under a key of one store. -/
def writeStore (stores : Nat → SessionKey → Option (Pause Run)) (gateway : Nat) (key : SessionKey)
    (stored : Option (Pause Run)) : Nat → SessionKey → Option (Pause Run) :=
  Function.update stores gateway (Function.update (stores gateway) key stored)

theorem writeStore_eq_some {stores : Nat → SessionKey → Option (Pause Run)} {gateway other : Nat}
    {key found : SessionKey} {stored : Option (Pause Run)} {pause : Pause Run}
    (h : writeStore stores gateway key stored other found = some pause) :
    (other = gateway ∧ found = key ∧ stored = some pause) ∨
      (¬ (other = gateway ∧ found = key) ∧ stores other found = some pause) := by
  by_cases hgateway : other = gateway
  · subst hgateway
    by_cases hkey : found = key
    · subst hkey
      rw [writeStore, Function.update_self, Function.update_self] at h
      exact .inl ⟨rfl, rfl, h⟩
    · rw [writeStore, Function.update_self, Function.update_of_ne hkey] at h
      exact .inr ⟨fun hboth => hkey hboth.2, h⟩
  · rw [writeStore, Function.update_of_ne hgateway] at h
    exact .inr ⟨fun hboth => hgateway hboth.1, h⟩

namespace Sessions

variable (state : Sessions Run)

/-- `PausedWorkflowSession.save`. A worker also posts the session to the leader, on a path
that no route has. -/
def save (gateway : Nat) (session : PausedWorkflowSession Run) : Sessions Run :=
  { state with
    stores := writeStore state.stores gateway session.key (some ⟨session, state.saves⟩)
    saves := state.saves + 1 }

/-- The session is read; without one the answer is `NotFound`. -/
def find (gateway : Nat) (workflowRef id : Str) : Sessions Run :=
  match state.stores gateway (workflowRef, id) with
  | none => state
  | some pause => { state with found := (gateway, pause) :: state.found }

/-- The deletions that a resumption starts. -/
def startedDeletions (gateway : Nat) (pause : Pause Run) : List (Nat × SessionKey) :=
  if gateway = 0 then [(0, pause.session.key)]
  else [(gateway, pause.session.key), (0, pause.session.key)]

/-- `PausedWorkflowSession.resume`. -/
def resume (index : Nat) : Sessions Run :=
  match state.found[index]? with
  | none => state
  | some (gateway, pause) => { state with
      found := state.found.eraseIdx index
      deletions := startedDeletions gateway pause ++ state.deletions
      executed := pause :: state.executed }

/-- A deletion is done. -/
def delete (index : Nat) : Sessions Run :=
  match state.deletions[index]? with
  | none => state
  | some (gateway, key) => { state with
      stores := writeStore state.stores gateway key none
      deletions := state.deletions.eraseIdx index }

def step : SessionEvent Run → Sessions Run → Sessions Run
  | .save gateway session, state => state.save gateway session
  | .find gateway workflowRef id, state => state.find gateway workflowRef id
  | .resume index, state => state.resume index
  | .delete index, state => state.delete index
  | .lose index, state => { state with deletions := state.deletions.eraseIdx index }
  | .sync worker, state =>
      { state with stores := Function.update state.stores worker (state.stores 0) }

/-- No session was resumed twice. -/
def Once : Prop := (state.executed.map Pause.number).Nodup

/-- The sessions that a request has found, with those that were resumed. -/
def taken : List (Pause Run) := state.found.map Prod.snd ++ state.executed

/-- A request does not find what an earlier one has found. -/
def Meets : SessionEvent Run → Prop
  | .find gateway workflowRef id => ∀ pause, state.stores gateway (workflowRef, id) = some pause →
      pause.number ∉ state.taken.map Pause.number
  | _ => True

/-! ## The numbers of a run -/

/-- Every session has a number of its own, and is taken once. -/
structure Numbered : Prop where
  stores : ∀ gateway key pause, state.stores gateway key = some pause → pause.number < state.saves
  taken : ∀ pause ∈ state.taken, pause.number < state.saves
  nodup : (state.taken.map Pause.number).Nodup

variable {state}

/-- A resumption takes nothing new. -/
theorem taken_resume_perm (index : Nat) : (state.resume index).taken.Perm state.taken := by
  rw [resume]
  cases hfound : state.found[index]? with
  | none => exact .refl _
  | some entry =>
      obtain ⟨hlt, hentry⟩ := List.getElem?_eq_some_iff.mp hfound
      have hperm : (entry :: state.found.eraseIdx index).Perm state.found := by
        rw [← hentry]
        exact List.getElem_cons_eraseIdx_perm hlt
      have hmap := (hperm.map Prod.snd).append_right state.executed
      exact List.perm_middle.trans hmap

theorem stores_save_eq_some {gateway other : Nat} {session : PausedWorkflowSession Run}
    {key : SessionKey} {pause : Pause Run}
    (h : (state.save gateway session).stores other key = some pause) :
    (other = gateway ∧ key = session.key ∧ pause = ⟨session, state.saves⟩) ∨
      state.stores other key = some pause := by
  obtain ⟨hother, hkey, hnew⟩ | ⟨-, hold⟩ := writeStore_eq_some h
  · exact .inl ⟨hother, hkey, (Option.some.inj hnew).symm⟩
  · exact .inr hold

theorem Numbered.save (h : state.Numbered) (gateway : Nat) (session : PausedWorkflowSession Run) :
    (state.save gateway session).Numbered where
  stores := by
    intro other key pause hstored
    obtain ⟨-, -, rfl⟩ | hold := stores_save_eq_some hstored
    · exact Nat.lt_succ_self state.saves
    · exact Nat.lt_succ_of_lt (h.stores other key pause hold)
  taken pause hpause := Nat.lt_succ_of_lt (h.taken pause hpause)
  nodup := h.nodup

theorem Numbered.find (h : state.Numbered) {gateway : Nat} {workflowRef id : Str}
    (hmeets : state.Meets (.find gateway workflowRef id)) :
    (state.find gateway workflowRef id).Numbered := by
  rw [Sessions.find]
  cases hstored : state.stores gateway (workflowRef, id) with
  | none => exact h
  | some pause =>
      constructor
      · exact h.stores
      · intro taken htaken
        cases List.mem_cons.mp htaken with
        | inl hnew => exact hnew ▸ h.stores _ _ _ hstored
        | inr hold => exact h.taken taken hold
      · exact List.nodup_cons.mpr ⟨hmeets pause hstored, h.nodup⟩

theorem Numbered.resume (h : state.Numbered) (index : Nat) : (state.resume index).Numbered := by
  have hperm := @taken_resume_perm Run state index
  have hsame : (state.resume index).stores = state.stores ∧
      (state.resume index).saves = state.saves := by
    rw [Sessions.resume]
    cases state.found[index]? <;> exact ⟨rfl, rfl⟩
  constructor
  · rw [hsame.1, hsame.2]
    exact h.stores
  · intro pause hpause
    rw [hsame.2]
    exact h.taken pause (hperm.mem_iff.mp hpause)
  · exact (hperm.map Pause.number).nodup_iff.mpr h.nodup

theorem Numbered.delete (h : state.Numbered) (index : Nat) : (state.delete index).Numbered := by
  rw [Sessions.delete]
  cases state.deletions[index]? with
  | none => exact h
  | some deletion =>
      constructor
      · intro other key pause hstored
        obtain ⟨-, -, hnew⟩ | ⟨-, hold⟩ := writeStore_eq_some hstored
        · contradiction
        · exact h.stores other key pause hold
      · exact h.taken
      · exact h.nodup

theorem Numbered.sync (h : state.Numbered) (worker : Nat) :
    (step (.sync worker) state).Numbered where
  stores := by
    intro gateway key pause hstored
    by_cases hgateway : gateway = worker
    · simp only [step, hgateway, Function.update_self] at hstored
      exact h.stores 0 key pause hstored
    · simp only [step, Function.update_of_ne hgateway] at hstored
      exact h.stores gateway key pause hstored
  taken := h.taken
  nodup := h.nodup

theorem Numbered.step (h : state.Numbered) {event : SessionEvent Run}
    (hmeets : state.Meets event) : (step event state).Numbered := by
  cases event with
  | save gateway session => exact h.save gateway session
  | find gateway workflowRef id => exact h.find hmeets
  | resume index => exact h.resume index
  | delete index => exact h.delete index
  | lose index => exact ⟨h.stores, h.taken, h.nodup⟩
  | sync worker => exact h.sync worker

theorem numbered_start : Numbered ({} : Sessions Run) :=
  ⟨by simp, by simp [taken], List.nodup_nil⟩

end Sessions

open Sessions

/-- No session is resumed twice in a run in which no request finds a session that an earlier
one has found. -/
theorem once_of_meets (events : List (SessionEvent Run))
    (h : Along step (fun state event _ => state.Meets event) {} events) :
    (runAll step ({} : Sessions Run) events).Once := by
  have hnumbered : (runAll step ({} : Sessions Run) events).Numbered :=
    runAll_invariant (fun _ _ _ hnumbered hmeets => hnumbered.step hmeets) h numbered_start
  have htaken := hnumbered.nodup
  rw [taken, List.map_append] at htaken
  exact (List.nodup_append.mp htaken).2.1

/-- A session of a workflow that goes on at its second node. -/
def exampleSession : PausedWorkflowSession Unit where
  id := "session".toList
  workflowRef := "workflow".toList
  wfr := ()
  fromPath := [0, 1]

/-- One request after the other: the second one finds nothing. -/
theorem once_of_meets_example :
    (runAll step ({} : Sessions Unit) [.save 0 exampleSession,
      .find 0 "workflow".toList "session".toList, .resume 0, .delete 0,
      .find 0 "workflow".toList "session".toList]).executed.length = 1 ∧
    (runAll step ({} : Sessions Unit) [.save 0 exampleSession,
      .find 0 "workflow".toList "session".toList, .resume 0, .delete 0,
      .find 0 "workflow".toList "session".toList]).Once := by
  constructor
  · rfl
  · apply once_of_meets
    constructor
    · trivial
    constructor
    · intro pause hpause
      exact List.not_mem_nil
    constructor
    · trivial
    constructor
    · trivial
    constructor
    · intro pause hpause
      contradiction
    · trivial

/-- Two requests read the session before one of them deletes it, and both resume it. -/
theorem exists_resumed_twice :
    ¬ ∀ events : List (SessionEvent Unit), (runAll step ({} : Sessions Unit) events).Once := by
  intro h
  have honce : ([0, 0] : List Nat).Nodup :=
    h [.save 0 exampleSession, .find 0 "workflow".toList "session".toList,
      .find 0 "workflow".toList "session".toList, .resume 0, .resume 0]
  revert honce
  decide

/-! ## A single gateway -/

namespace Sessions

variable (state : Sessions Run)

/-- There is one gateway, which loses no deletion, and a session is only read when no request
for it is under way. -/
def Serial : SessionEvent Run → Prop
  | .save gateway _ => gateway = 0
  | .find gateway workflowRef id => gateway = 0 ∧
      (∀ request ∈ state.found, request.2.session.key ≠ (workflowRef, id)) ∧
      (0, (workflowRef, id)) ∉ state.deletions
  | .lose _ => False
  | .sync _ => False
  | _ => True

/-- A session that was taken is only there as long as its request is under way. -/
structure Tidy : Prop where
  numbered : state.Numbered
  gateways : ∀ request ∈ state.found, request.1 = 0
  keys : ∀ key pause, state.stores 0 key = some pause → pause.session.key = key
  numbers : ∀ key other pause later, state.stores 0 key = some pause →
    state.stores 0 other = some later → pause.number = later.number → key = other
  leaving : ∀ pause ∈ state.taken, ∀ key stored, state.stores 0 key = some stored →
    stored.number = pause.number →
      (∃ request ∈ state.found, request.2.session.key = key) ∨ (0, key) ∈ state.deletions

variable {state}

theorem Tidy.meets (h : state.Tidy) {event : SessionEvent Run} (hserial : state.Serial event) :
    state.Meets event := by
  cases event with
  | find gateway workflowRef id =>
      obtain ⟨rfl, hfound, hdeletions⟩ := hserial
      intro pause hstored hmem
      obtain ⟨taken, htaken, hnumber⟩ := List.mem_map.mp hmem
      cases h.leaving taken htaken _ pause hstored hnumber.symm with
      | inl hrequest =>
          obtain ⟨request, hmem, hkey⟩ := hrequest
          exact hfound request hmem hkey
      | inr hdeletion => exact hdeletions hdeletion
  | save gateway session => trivial
  | resume index => trivial
  | delete index => trivial
  | lose index => trivial
  | sync worker => trivial

theorem Tidy.save (h : state.Tidy) (session : PausedWorkflowSession Run) :
    (state.save 0 session).Tidy where
  numbered := h.numbered.save 0 session
  gateways := h.gateways
  keys := by
    intro key pause hstored
    obtain ⟨-, hkey, rfl⟩ | hold := stores_save_eq_some hstored
    · exact hkey.symm
    · exact h.keys key pause hold
  numbers := by
    intro key other pause later hpause hlater hnumber
    obtain ⟨-, hkey, hnew⟩ | hold := stores_save_eq_some hpause
    · obtain ⟨-, hother, -⟩ | hold := stores_save_eq_some hlater
      · rw [hkey, hother]
      · have hlt := h.numbered.stores 0 other later hold
        have hnumbered : pause.number = state.saves := congrArg Pause.number hnew
        omega
    · obtain ⟨-, -, hnew⟩ | holder := stores_save_eq_some hlater
      · have hlt := h.numbered.stores 0 key pause hold
        have hnumbered : later.number = state.saves := congrArg Pause.number hnew
        omega
      · exact h.numbers key other pause later hold holder hnumber
  leaving := by
    intro pause htaken key stored hstored hnumber
    obtain ⟨-, -, hnew⟩ | hold := stores_save_eq_some hstored
    · have hlt := h.numbered.taken pause htaken
      have hnumbered : stored.number = state.saves := congrArg Pause.number hnew
      omega
    · exact h.leaving pause htaken key stored hold hnumber

theorem Tidy.find (h : state.Tidy) {workflowRef id : Str}
    (hserial : state.Serial (.find 0 workflowRef id)) :
    (state.find 0 workflowRef id).Tidy := by
  have hnumbered := h.numbered.find (h.meets hserial)
  rw [Sessions.find] at hnumbered ⊢
  cases hstored : state.stores 0 (workflowRef, id) with
  | none => exact h
  | some pause =>
      rw [hstored] at hnumbered
      constructor
      · exact hnumbered
      · intro request hmem
        cases List.mem_cons.mp hmem with
        | inl hnew => rw [hnew]
        | inr hold => exact h.gateways request hold
      · exact h.keys
      · exact h.numbers
      · intro taken htaken key stored hkey hnumber
        cases List.mem_cons.mp htaken with
        | inl hnew =>
            rw [hnew] at hnumber
            have hsame := h.numbers key (workflowRef, id) stored pause hkey hstored hnumber
            exact .inl ⟨(0, pause), List.mem_cons_self, hsame ▸ h.keys _ _ hstored⟩
        | inr hold =>
            cases h.leaving taken hold key stored hkey hnumber with
            | inl hrequest =>
                obtain ⟨request, hmem, hsame⟩ := hrequest
                exact .inl ⟨request, List.mem_cons_of_mem _ hmem, hsame⟩
            | inr hdeletion => exact .inr hdeletion

theorem Tidy.resume (h : state.Tidy) (index : Nat) : (state.resume index).Tidy := by
  have hnumbered := h.numbered.resume index
  have hperm := @taken_resume_perm Run state index
  rw [Sessions.resume] at hnumbered hperm ⊢
  cases hfound : state.found[index]? with
  | none => exact h
  | some entry =>
      rw [hfound] at hnumbered hperm
      obtain ⟨hlt, hentry⟩ := List.getElem?_eq_some_iff.mp hfound
      have hmem : entry ∈ state.found := List.mem_of_getElem? hfound
      constructor
      · exact hnumbered
      · intro request hrequest
        exact h.gateways request (List.mem_of_mem_eraseIdx hrequest)
      · exact h.keys
      · exact h.numbers
      · intro pause htaken key stored hstored hnumber
        cases h.leaving pause (hperm.mem_iff.mp htaken) key stored hstored hnumber with
        | inr hdeletion => exact .inr (List.mem_append_right _ hdeletion)
        | inl hrequest =>
            obtain ⟨request, hrequest, hkey⟩ := hrequest
            have hcases : (entry :: state.found.eraseIdx index).Perm state.found := by
              rw [← hentry]
              exact List.getElem_cons_eraseIdx_perm hlt
            cases List.mem_cons.mp (hcases.mem_iff.mpr hrequest) with
            | inl hthis =>
                rw [hthis] at hkey
                have hdeletion : (0, key) ∈ startedDeletions entry.1 entry.2 := by
                  rw [h.gateways entry hmem, startedDeletions, if_pos rfl, hkey]
                  exact List.mem_singleton_self _
                exact .inr (List.mem_append_left _ hdeletion)
            | inr hother => exact .inl ⟨request, hother, hkey⟩

theorem Tidy.delete (h : state.Tidy) (index : Nat) : (state.delete index).Tidy := by
  have hnumbered := h.numbered.delete index
  rw [Sessions.delete] at hnumbered ⊢
  cases hdeletion : state.deletions[index]? with
  | none => exact h
  | some deletion =>
      rw [hdeletion] at hnumbered
      obtain ⟨hlt, hentry⟩ := List.getElem?_eq_some_iff.mp hdeletion
      have hold : ∀ {other key pause},
          writeStore state.stores deletion.1 deletion.2 none other key = some pause →
            ¬ (other = deletion.1 ∧ key = deletion.2) ∧ state.stores other key = some pause := by
        intro other key pause hstored
        obtain ⟨-, -, hnew⟩ | hold := writeStore_eq_some hstored
        · contradiction
        · exact hold
      constructor
      · exact hnumbered
      · exact h.gateways
      · intro key pause hstored
        exact h.keys key pause (hold hstored).2
      · intro key other pause later hpause hlater hnumber
        exact h.numbers key other pause later (hold hpause).2 (hold hlater).2 hnumber
      · intro pause htaken key stored hstored hnumber
        cases h.leaving pause htaken key stored (hold hstored).2 hnumber with
        | inl hrequest => exact .inl hrequest
        | inr hother =>
            have hcases : (deletion :: state.deletions.eraseIdx index).Perm state.deletions := by
              rw [← hentry]
              exact List.getElem_cons_eraseIdx_perm hlt
            cases List.mem_cons.mp (hcases.mem_iff.mpr hother) with
            | inl hthis =>
                have hboth : 0 = deletion.1 ∧ key = deletion.2 :=
                  ⟨congrArg Prod.fst hthis, congrArg Prod.snd hthis⟩
                exact absurd hboth (hold hstored).1
            | inr hrest => exact .inr hrest

theorem Tidy.step (h : state.Tidy) {event : SessionEvent Run} (hserial : state.Serial event) :
    (step event state).Tidy := by
  cases event with
  | save gateway session =>
      cases hserial
      exact h.save session
  | find gateway workflowRef id =>
      cases hserial.1
      exact h.find hserial
  | resume index => exact h.resume index
  | delete index => exact h.delete index
  | lose index => exact hserial.elim
  | sync worker => exact hserial.elim

theorem tidy_start : Tidy ({} : Sessions Run) :=
  ⟨numbered_start, by simp, by simp, by simp, by simp [taken]⟩

end Sessions

/-- On a single gateway, no session is resumed twice if its requests do not overlap. -/
theorem once_of_serial (events : List (SessionEvent Run))
    (h : Along step (fun state event _ => state.Serial event) {} events) :
    (runAll step ({} : Sessions Run) events).Once := by
  have htidy : (runAll step ({} : Sessions Run) events).Tidy :=
    runAll_invariant (fun _ _ _ htidy hserial => htidy.step hserial) h tidy_start
  have htaken := htidy.numbered.nodup
  rw [taken, List.map_append] at htaken
  exact (List.nodup_append.mp htaken).2.1

theorem once_of_serial_example :
    (runAll step ({} : Sessions Unit) [.save 0 exampleSession,
      .find 0 "workflow".toList "session".toList, .resume 0, .delete 0]).Once :=
  once_of_serial _ ⟨rfl, ⟨rfl, List.forall_mem_nil _, List.not_mem_nil⟩, trivial, trivial, trivial⟩

end Workflows

end Otoroshi
