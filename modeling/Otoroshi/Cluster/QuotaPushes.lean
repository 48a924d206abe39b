/-
# Pushes of increments to the leader

From time to time a worker takes all messages that wait and sends them to the leader. A push
over HTTP fails as a whole, and then the messages go back, kind by kind, on top of what waits
by then. Over a websocket every message is offered on its own, and one that could not be
offered goes back only if there is nothing under its key.

`conserved_of_meets` says in which runs no increment is lost.
-/

import Mathlib.Tactic.Abel
import Otoroshi.Cluster.QuotaMessages

namespace Otoroshi

namespace Cluster

open Totals ClusterLeaderUpdateMessage

/-- What comes of an offer: the leader gets the message, the offer fails, or it is answered
that the message was dropped or that the queue is closed. -/
inductive OfferResult where
  | delivered
  | failed
  | discarded
  deriving DecidableEq, Repr

/-- A worker, with what the leader got from it and what it counted altogether. -/
structure ClusterAgent where
  quotaIncrs : QuotaIncrs := ∅
  pushing : Option QuotaIncrs := none
  offered : List (Str × ClusterLeaderUpdateMessage) := []
  applied : Counted → Counts := 0
  incremented : Counted → Counts := 0

/-- The messages of a push that failed go back. The platform stops where it throws. -/
def restore : List (Sigma fun _ : Str => ClusterLeaderUpdateMessage) → QuotaIncrs → QuotaIncrs
  | [], quotaIncrs => quotaIncrs
  | ⟨key, message⟩ :: entries, quotaIncrs =>
      let after := match message with
        | apikeyCallIncr clientId calls =>
            addAt key (.apikey clientId) (callsOnly calls) 0 quotaIncrs
        | routeCallIncr routeId counts => addAt key (.route routeId) counts 0 quotaIncrs
        | _ => (quotaIncrs, true)
      if after.2 then restore entries after.1 else after.1

/-- `handleOfferFailure`, of an offer that has this result. -/
def handleOffer (key : Str) (message : ClusterLeaderUpdateMessage) :
    OfferResult → QuotaIncrs → QuotaIncrs
  | .failed, quotaIncrs => putQuotaIfAbsent key message quotaIncrs
  | _, quotaIncrs => quotaIncrs

inductive Event where
  | call (call : Call)
  | pushQuotas
  | pushed
  | pushFailed
  | offerQuotas
  | offerDone (position : Nat) (result : OfferResult)

namespace ClusterAgent

/-- The key under which the status of the worker is offered. -/
def statusKey : Str := "routes:global".toList

def run : Event → ClusterAgent → ClusterAgent
  | .call call, agent =>
      { agent with
        quotaIncrs := (call.run agent.quotaIncrs).1
        incremented := agent.incremented + call.weight }
  | .pushQuotas, agent =>
      match agent.pushing with
      | some _ => agent
      | none => { agent with pushing := some agent.quotaIncrs, quotaIncrs := ∅ }
  | .pushed, agent =>
      match agent.pushing with
      | none => agent
      | some old =>
          { agent with
            pushing := none
            applied := agent.applied + total ClusterLeaderUpdateMessage.weight old }
  | .pushFailed, agent =>
      match agent.pushing with
      | none => agent
      | some old =>
          { agent with pushing := none, quotaIncrs := restore old.entries agent.quotaIncrs }
  | .offerQuotas, agent =>
      { agent with
        quotaIncrs := ∅
        offered := agent.offered ++ (statusKey, globalStatusUpdate) ::
          agent.quotaIncrs.entries.map fun entry => (entry.1, entry.2) }
  | .offerDone position result, agent =>
      match agent.offered[position]? with
      | none => agent
      | some (key, message) =>
          { agent with
            offered := agent.offered.eraseIdx position
            quotaIncrs := handleOffer key message result agent.quotaIncrs
            applied := agent.applied + if result = .delivered then message.weight else 0 }

/-- What the leader has not got yet. -/
def outstanding (agent : ClusterAgent) : Counted → Counts :=
  total ClusterLeaderUpdateMessage.weight agent.quotaIncrs +
    (agent.pushing.elim 0 (total ClusterLeaderUpdateMessage.weight)) +
    (agent.offered.map fun offer => offer.2.weight).sum

/-- Nothing is lost, and nothing is counted twice. -/
def Conserved (agent : ClusterAgent) : Prop :=
  agent.applied + agent.outstanding = agent.incremented

/-! ## Conditions -/

/-- A message goes back: it is one of an apikey or a route, and what waits under its key by
then counts the same; or it counts nothing. -/
def Restores (quotaIncrs : QuotaIncrs)
    (entry : Sigma fun _ : Str => ClusterLeaderUpdateMessage) : Prop :=
  match entry.2 with
  | apikeyCallIncr clientId _ => FitsAt quotaIncrs entry.1 (.apikey clientId)
  | routeCallIncr routeId _ => FitsAt quotaIncrs entry.1 (.route routeId)
  | message => message.weight = 0

/-- A message that is not delivered was not offered in vain: it counts nothing, or the offer
fails and there is nothing under its key. -/
def Returns (quotaIncrs : QuotaIncrs) (key : Str) (message : ClusterLeaderUpdateMessage) :
    OfferResult → Prop
  | .delivered => True
  | .failed => message.weight = 0 ∨ quotaIncrs.lookup key = none
  | .discarded => message.weight = 0

def Meets : Event → ClusterAgent → Prop
  | .call call, agent => ∀ counted ∈ call.counted, Fits agent.quotaIncrs counted
  | .pushFailed, agent =>
      ∀ old, agent.pushing = some old → ∀ entry ∈ old.entries, Restores agent.quotaIncrs entry
  | .offerDone position result, agent =>
      ∀ key message, agent.offered[position]? = some (key, message) →
        Returns agent.quotaIncrs key message result
  | _, _ => True

end ClusterAgent

/-! ## Messages that go back -/

open ClusterAgent

variable {quotaIncrs : QuotaIncrs} {key : Str} {message : ClusterLeaderUpdateMessage}

/-- One message goes back. -/
theorem restore_cons {entries : List (Sigma fun _ : Str => ClusterLeaderUpdateMessage)}
    (h : Restores quotaIncrs ⟨key, message⟩) :
    ∃ after, restore (⟨key, message⟩ :: entries) quotaIncrs = restore entries after ∧
      total ClusterLeaderUpdateMessage.weight after =
        total ClusterLeaderUpdateMessage.weight quotaIncrs + message.weight ∧
      ∀ other, other ≠ key → after.lookup other = quotaIncrs.lookup other := by
  have hadd : ∀ counted counts, FitsAt quotaIncrs key counted →
      message.weight = Pi.single counted (counted.taken counts) →
      (if (addAt key counted counts 0 quotaIncrs).2
        then restore entries (addAt key counted counts 0 quotaIncrs).1
        else (addAt key counted counts 0 quotaIncrs).1) =
          restore entries (addAt key counted counts 0 quotaIncrs).1 ∧
      total ClusterLeaderUpdateMessage.weight (addAt key counted counts 0 quotaIncrs).1 =
        total ClusterLeaderUpdateMessage.weight quotaIncrs + message.weight ∧
      ∀ other, other ≠ key →
        (addAt key counted counts 0 quotaIncrs).1.lookup other = quotaIncrs.lookup other := by
    intro counted counts hfits hweight
    obtain ⟨hok, htotal, own, -, hlookup⟩ := @addAt_of_fitsAt _ counts 0 _ _ hfits
    refine ⟨if_pos hok, hweight ▸ htotal, fun other hother => ?_⟩
    rw [hlookup, if_neg hother]
  cases message with
  | apikeyCallIncr clientId calls =>
    exact ⟨_, hadd _ _ h (by rw [taken_callsOnly]; rfl)⟩
  | routeCallIncr routeId counts => exact ⟨_, hadd _ _ h rfl⟩
  | globalStatusUpdate => exact ⟨quotaIncrs, rfl, by rw [h, add_zero], fun _ _ => rfl⟩
  | customThrottlingIncr => exact ⟨quotaIncrs, rfl, by rw [h, add_zero], fun _ _ => rfl⟩
  | customQuotasIncr => exact ⟨quotaIncrs, rfl, by rw [h, add_zero], fun _ _ => rfl⟩

/-- A message that goes back does not hinder one with another key. -/
theorem restores_of_lookup {entry : Sigma fun _ : Str => ClusterLeaderUpdateMessage}
    {after : QuotaIncrs} (h : Restores quotaIncrs entry)
    (hlookup : after.lookup entry.1 = quotaIncrs.lookup entry.1) : Restores after entry := by
  obtain ⟨key, message⟩ := entry
  cases message with
  | apikeyCallIncr clientId calls => exact fun found hfound => h found (hlookup ▸ hfound)
  | routeCallIncr routeId counts => exact fun found hfound => h found (hlookup ▸ hfound)
  | globalStatusUpdate => exact h
  | customThrottlingIncr => exact h
  | customQuotasIncr => exact h

theorem total_restore {entries : List (Sigma fun _ : Str => ClusterLeaderUpdateMessage)}
    (hkeys : entries.NodupKeys) (h : ∀ entry ∈ entries, Restores quotaIncrs entry) :
    total ClusterLeaderUpdateMessage.weight (restore entries quotaIncrs) =
      total ClusterLeaderUpdateMessage.weight quotaIncrs +
        (entries.map fun entry => entry.2.weight).sum := by
  induction entries generalizing quotaIncrs with
  | nil => exact (add_zero _).symm
  | cons entry entries ih =>
    obtain ⟨key, message⟩ := entry
    obtain ⟨after, hrestore, htotal, hlookup⟩ :=
      @restore_cons _ _ _ entries (h ⟨key, message⟩ List.mem_cons_self)
    have hrest : ∀ entry ∈ entries, Restores after entry := by
      intro entry hmem
      refine restores_of_lookup (h entry (List.mem_cons_of_mem _ hmem)) (hlookup entry.1 ?_)
      rintro rfl
      have hmemKeys : entry.1 ∈ entries.keys := List.mem_keys_of_mem hmem
      exact (List.nodupKeys_cons.mp hkeys).1 hmemKeys
    rw [hrestore, ih (List.nodupKeys_cons.mp hkeys).2 hrest, htotal, List.map_cons,
      List.sum_cons, add_assoc]

/-! ## Offers -/

theorem total_handleOffer {result : OfferResult} (h : Returns quotaIncrs key message result) :
    total ClusterLeaderUpdateMessage.weight (handleOffer key message result quotaIncrs) +
        (if result = .delivered then message.weight else 0) =
      total ClusterLeaderUpdateMessage.weight quotaIncrs + message.weight := by
  cases result with
  | delivered => rfl
  | discarded => rw [show message.weight = 0 from h]; rfl
  | failed =>
    rw [handleOffer, if_neg (by decide), add_zero]
    rcases h with hzero | hnone
    · rw [total_putQuotaIfAbsent hzero, hzero, add_zero]
    · rw [putQuotaIfAbsent, hnone]
      exact (total_insert_of_none hnone).trans (add_comm ..)

/-- An offer that is done is taken out. -/
theorem sum_eraseIdx {offered : List (Str × ClusterLeaderUpdateMessage)} {position : Nat}
    (h : offered[position]? = some (key, message)) :
    message.weight + ((offered.eraseIdx position).map fun offer => offer.2.weight).sum =
      (offered.map fun offer => offer.2.weight).sum := by
  obtain ⟨hlt, hget⟩ := List.getElem?_eq_some_iff.mp h
  have hperm := (List.getElem_cons_eraseIdx_perm hlt).map fun offer => offer.2.weight
  rw [← hperm.sum_eq, List.map_cons, List.sum_cons, hget]

/-! ## Runs -/

namespace ClusterAgent

variable {agent : ClusterAgent}

/-- One event loses nothing, if it meets its condition. -/
theorem conserved_run (event : Event) (h : agent.Conserved) (hmeets : Meets event agent) :
    (run event agent).Conserved := by
  rw [Conserved, outstanding] at h ⊢
  cases event with
  | call call =>
    obtain ⟨-, htotal⟩ := run_of_fits hmeets
    simp only [run, htotal, ← h]
    abel
  | pushQuotas =>
    simp only [run]
    cases hpushing : agent.pushing with
    | some old => rwa [hpushing] at h ⊢
    | none =>
      simp only [hpushing, Option.elim_none, add_zero] at h
      simp only [Option.elim_some, total_empty, zero_add, h]
  | pushed =>
    simp only [run]
    cases hpushing : agent.pushing with
    | none => rwa [hpushing] at h ⊢
    | some old =>
      simp only [hpushing, Option.elim_some] at h
      simp only [Option.elim_none, ← h]
      abel
  | pushFailed =>
    simp only [run]
    cases hpushing : agent.pushing with
    | none => rwa [hpushing] at h ⊢
    | some old =>
      have hrestore := total_restore old.nodupKeys (hmeets old hpushing)
      simp only [hpushing, Option.elim_some] at h
      simp only [Option.elim_none, hrestore, ← h, add_zero]
      rfl
  | offerQuotas =>
    have hweight : globalStatusUpdate.weight = 0 := rfl
    simp only [run, total_empty, zero_add, List.map_append, List.map_cons, List.map_map,
      List.sum_append, List.sum_cons, hweight, ← h]
    rw [total]
    simp only [Function.comp_def]
    abel
  | offerDone position result =>
    simp only [run]
    cases hoffer : agent.offered[position]? with
    | none => exact h
    | some offer =>
      obtain ⟨key, message⟩ := offer
      have hhandle := total_handleOffer (hmeets key message hoffer)
      have hsum := sum_eraseIdx hoffer
      rw [← h, ← hsum]
      calc agent.applied + (if result = .delivered then message.weight else 0) +
            (total ClusterLeaderUpdateMessage.weight
                (handleOffer key message result agent.quotaIncrs) +
              agent.pushing.elim 0 (total ClusterLeaderUpdateMessage.weight) +
              ((agent.offered.eraseIdx position).map fun offer => offer.2.weight).sum)
          = agent.applied + (total ClusterLeaderUpdateMessage.weight
                (handleOffer key message result agent.quotaIncrs) +
              if result = .delivered then message.weight else 0) +
            (agent.pushing.elim 0 (total ClusterLeaderUpdateMessage.weight) +
              ((agent.offered.eraseIdx position).map fun offer => offer.2.weight).sum) := by abel
        _ = _ := by
          rw [hhandle]
          abel

/-- In every run whose events meet their conditions, what the leader has got and what is
outstanding add up to what was counted. -/
theorem conserved_of_meets {events : List Event}
    (h : Along run (fun agent event _ => Meets event agent) {} events) :
    (runAll run {} events).Conserved :=
  runAll_invariant (fun _ event _ hinv hmeets => conserved_run event hinv hmeets) h (by
    rw [Conserved, outstanding, total_empty]
    rfl)

/-- A push fails, an apikey is called before, and a route while the push is on its way. -/
theorem conserved_of_meets_example :
    (runAll run {} [.call (.api "key".toList 3), .pushQuotas, .call (.service "route".toList 1),
      .pushFailed, .pushQuotas, .pushed]).Conserved := by
  refine conserved_of_meets ⟨?_, trivial, ?_, ?_, trivial, trivial, trivial⟩
  · exact fun counted _ => fitsAt_of_none (AList.lookup_empty _)
  · exact fun counted _ => fitsAt_of_none (AList.lookup_empty _)
  · intro old hold entry hentry
    cases hold
    cases List.mem_singleton.mp hentry
    exact fitsAt_of_none rfl

/-- A push with a custom quota fails, and the quota is lost. -/
theorem exists_not_conserved :
    ¬ (runAll run {} [.call (.customQuota "expr".toList "group".toList 1), .pushQuotas,
      .pushFailed]).Conserved := by
  intro h
  have hcalls := congrFun (congrFun h (.customQuotas "expr".toList "group".toList)) .calls
  exact absurd hcalls (by decide)

end ClusterAgent

end Cluster

end Otoroshi
