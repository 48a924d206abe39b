/-
# Runs of a node with tunnels

Agents connect, and every connection gets an actor a little later. It is ended by a signal
that may come more than once. In between there are heartbeats and requests. Tunnels are
enabled here: without them every connection and every request is refused.

`tracked_and_served_iff` says in which runs the registered instances are always those that
are alive, and every request is handed to one of them.
-/

import Mathlib.Order.Basic
import Otoroshi.Foundation.Run
import Otoroshi.Network.Tunnels

namespace Otoroshi

namespace Tunnels

structure Connection where
  tunnelId : Str
  started : Bool := false
  ended : Bool := false
  deriving DecidableEq, Repr

/-- A node, and all connections that there ever were. -/
structure Network where
  manager : TunnelManager := {}
  connections : List Connection := []

inductive Event where
  | connect (tunnelId : Str)
  | start (instanceId : Nat)
  | heartbeat (instanceId : Nat)
  | ending (instanceId : Nat)
  | evict (tunnelId : Str)
  | request (tunnelId : Str) (members : List MemberView)
  | relay (tunnelId : Str)

namespace Network

variable (network : Network)

/-- The connection of an instance has its actor. -/
def started (instanceId : Nat) : Bool := network.connections[instanceId]?.any Connection.started

def run : Event → Network → Network
  | .connect tunnelId, network =>
      { manager := network.manager.registerTunnel true tunnelId network.connections.length
        connections := network.connections ++ [{ tunnelId }] }
  | .start instanceId, network =>
      { network with
        connections := network.connections.modify instanceId fun connection =>
          { connection with started := true } }
  | .heartbeat instanceId, network =>
      match network.connections[instanceId]? with
      | none => network
      | some connection =>
          { network with manager := network.manager.tunnelHeartBeat true connection.tunnelId }
  | .ending instanceId, network =>
      match network.connections[instanceId]? with
      | none => network
      | some connection =>
          if connection.started then
            { manager := network.manager.closeTunnel true connection.tunnelId instanceId
              connections := network.connections.modify instanceId fun connection =>
                { connection with ended := true } }
          else network
  | .evict tunnelId, network => { network with manager := network.manager.evict tunnelId }
  | .request tunnelId members, network =>
      { network with
        manager := (network.manager.sendRequest true tunnelId network.started members).2 }
  | .relay tunnelId, network =>
      { network with
        manager := (network.manager.sendLocalRequestRaw true tunnelId network.started).2 }

/-- What comes of an event that is a request, and the tunnel it is for. -/
def answer : Event → Network → Option (Str × Answer)
  | .request tunnelId members, network =>
      some (tunnelId, (network.manager.sendRequest true tunnelId network.started members).1)
  | .relay tunnelId, network =>
      some (tunnelId, (network.manager.sendLocalRequestRaw true tunnelId network.started).1)
  | _, _ => none

/-- The connection of an instance is one of the tunnel, and has not ended. -/
def Live (tunnelId : Str) (instanceId : Nat) : Prop :=
  ∃ connection, network.connections[instanceId]? = some connection ∧
    connection.tunnelId = tunnelId ∧ connection.ended = false

/-- The registered instances are those that are alive. -/
def Tracks : Prop :=
  ∀ tunnelId instanceId,
    instanceId ∈ network.manager.instances tunnelId ↔ network.Live tunnelId instanceId

/-- A request is handed to an instance that is alive, if there is one. -/
def Serves (event : Event) : Prop :=
  ∀ tunnelId answered, answer event network = some (tunnelId, answered) →
    (∃ instanceId, network.Live tunnelId instanceId) →
    ∃ instanceId, network.Live tunnelId instanceId ∧ answered = .sent instanceId

/-! ## Conditions -/

/-- The counter is not negative, or a multiple of the number of instances, and the instance
whose turn it is has its actor. -/
def Reaches (tunnelId : Str) : Prop :=
  let instances := network.manager.instances tunnelId
  let counter := network.manager.increment.counter.toInt
  (0 ≤ counter ∨ (instances.length : Int) ∣ counter) ∧
    ∀ instanceId ∈ instances[(counter.tmod instances.length).toNat]?, network.started instanceId

/-- A connection that ends does not find just one instance that is another one. The cache
does not drop a tunnel with instances. -/
def Meets : Event → Network → Prop
  | .ending instanceId, network =>
      ∀ connection, network.connections[instanceId]? = some connection →
        connection.started →
        ∀ other, network.manager.instances connection.tunnelId = [other] → other = instanceId
  | .evict tunnelId, network =>
      maximumSize < network.manager.tunnels.keys.length →
        network.manager.instances tunnelId = []
  | .request tunnelId _, network | .relay tunnelId, network =>
      network.manager.instances tunnelId ≠ [] → network.Reaches tunnelId
  | _, _ => True

end Network

/-! ## Requests -/

namespace TunnelManager

variable {manager : TunnelManager} {tunnelId : Str} {actor : Nat → Bool}
  {members : List MemberView} {instanceId : Nat}

/-- The instance whose turn it is, if the counter leads to one. -/
def next (manager : TunnelManager) (tunnelId : Str) : Option Nat :=
  applyAt (manager.instances tunnelId)
    (index manager.increment.counter (manager.instances tunnelId).length)

theorem handTo_eq_sent_iff {other : Nat} :
    handTo tunnelId actor other = .sent instanceId ↔ other = instanceId ∧ actor instanceId := by
  rw [handTo]
  split
  · next h =>
    rw [Answer.sent.injEq]
    exact ⟨fun hother => ⟨hother, hother ▸ h⟩, And.left⟩
  · next h =>
    exact iff_of_false (by simp) fun hboth => h (hboth.1 ▸ hboth.2)

theorem lookup_of_ne_nil (h : manager.instances tunnelId ≠ []) :
    manager.tunnels.lookup tunnelId = some (manager.instances tunnelId) := by
  cases hlookup : manager.tunnels.lookup tunnelId with
  | none => exact absurd (by rw [instances, hlookup, Option.getD_none]) h
  | some found => rw [instances_of_lookup hlookup]

theorem sendLocalRequestRaw_eq_sent_iff (h : manager.instances tunnelId ≠ []) :
    (manager.sendLocalRequestRaw true tunnelId actor).1 = .sent instanceId ↔
      manager.next tunnelId = some instanceId ∧ actor instanceId := by
  rw [sendLocalRequestRaw, if_pos rfl, lookup_of_ne_nil h]
  cases hnext : manager.next tunnelId with
  | none =>
    rw [next] at hnext
    simp [hnext]
  | some other =>
    rw [next] at hnext
    simp only [hnext, Option.some.injEq]
    exact handTo_eq_sent_iff

theorem sendRequest_eq_sent_iff (h : manager.instances tunnelId ≠ []) :
    (manager.sendRequest true tunnelId actor members).1 = .sent instanceId ↔
      manager.next tunnelId = some instanceId ∧ actor instanceId := by
  have hnonempty : (manager.instances tunnelId).isEmpty = false := by
    rw [List.isEmpty_eq_false_iff]
    exact h
  rw [sendRequest, if_pos rfl, lookup_of_ne_nil h]
  cases hnext : manager.next tunnelId with
  | none =>
    rw [next] at hnext
    simp [hnonempty, hnext]
  | some other =>
    rw [next] at hnext
    simp only [hnonempty, hnext, Option.some.injEq]
    exact handTo_eq_sent_iff

theorem sendLocalRequestRaw_snd :
    (manager.sendLocalRequestRaw true tunnelId actor).2.tunnels = manager.tunnels := by
  rw [sendLocalRequestRaw, if_pos rfl]
  split
  · rfl
  · split <;> rfl

theorem sendRequest_snd :
    (manager.sendRequest true tunnelId actor members).2.tunnels = manager.tunnels := by
  rw [sendRequest, if_pos rfl]
  split
  · dsimp only
    split
    · rfl
    · split <;> rfl
  · split
    · rfl
    · split <;> rfl

/-- The remainder is a position for a counter that is not negative, or a multiple. -/
theorem index_nonneg_iff {counter : Int32} {size : Nat} (hsize : 0 < size) :
    0 ≤ index counter size ↔ 0 ≤ counter.toInt ∨ (size : Int) ∣ counter.toInt := by
  rw [index, if_neg hsize.ne']
  constructor
  · intro h
    by_cases hpos : 0 ≤ counter.toInt
    · exact .inl hpos
    · right
      have hneg := @Int.tmod_nonneg (-counter.toInt) size (by omega)
      rw [Int.neg_tmod] at hneg
      exact Int.dvd_of_tmod_eq_zero (by omega)
  · rintro (hpos | hdvd)
    · exact Int.tmod_nonneg size hpos
    · exact Int.le_of_eq (Int.tmod_eq_zero_of_dvd hdvd).symm

/-- There is an instance whose turn it is, for these counters. -/
theorem next_eq_some_iff (h : manager.instances tunnelId ≠ []) :
    manager.next tunnelId = some instanceId ↔
      (0 ≤ manager.increment.counter.toInt ∨
        ((manager.instances tunnelId).length : Int) ∣ manager.increment.counter.toInt) ∧
      (manager.instances tunnelId)[(manager.increment.counter.toInt.tmod
        (manager.instances tunnelId).length).toNat]? = some instanceId := by
  have hsize := List.length_pos_iff.mpr h
  rw [next, applyAt, ← index_nonneg_iff hsize]
  split
  · next hneg => exact iff_of_false (by simp) fun hboth => Int.not_lt.mpr hboth.1 hneg
  · next hpos =>
    rw [and_iff_right (Int.not_lt.mp hpos), index, if_neg hsize.ne']

/-- The position is one of the list. -/
theorem isSome_getElem?_tmod (h : manager.instances tunnelId ≠ []) (counter : Int) :
    ((manager.instances tunnelId)[(counter.tmod
      (manager.instances tunnelId).length).toNat]?).isSome := by
  have hsize := List.length_pos_iff.mpr h
  have hlt := Int.tmod_lt_of_pos counter (Int.natCast_pos.mpr hsize)
  rw [List.getElem?_eq_getElem (by omega)]
  rfl

end TunnelManager

namespace Network

variable {network : Network} {tunnelId : Str} {instanceId : Nat}

/-- A request is served exactly when it reaches an instance. -/
theorem serves_iff_of_answer {event : Event} {answered : Answer} (htracks : network.Tracks)
    (hanswer : answer event network = some (tunnelId, answered))
    (hsent : network.manager.instances tunnelId ≠ [] → ∀ instanceId,
      answered = .sent instanceId ↔
        network.manager.next tunnelId = some instanceId ∧ network.started instanceId) :
    network.Serves event ↔
      (network.manager.instances tunnelId ≠ [] → network.Reaches tunnelId) := by
  have hlive : (∃ instanceId, network.Live tunnelId instanceId) ↔
      network.manager.instances tunnelId ≠ [] := by
    rw [← List.length_pos_iff, List.length_pos_iff_exists_mem]
    exact exists_congr fun instanceId => (htracks tunnelId instanceId).symm
  have hserves : network.Serves event ↔ ((∃ instanceId, network.Live tunnelId instanceId) →
      ∃ instanceId, network.Live tunnelId instanceId ∧ answered = .sent instanceId) := by
    constructor
    · exact fun h => h tunnelId answered hanswer
    · intro h other answered' hother
      obtain ⟨rfl, rfl⟩ := Prod.mk.inj (Option.some.inj (hanswer.symm.trans hother))
      exact h
  rw [hserves, hlive]
  refine imp_congr_right fun hne => ?_
  constructor
  · rintro ⟨instanceId, -, hsentTo⟩
    obtain ⟨hnext, hstarted⟩ := (hsent hne instanceId).mp hsentTo
    obtain ⟨hcounter, hat⟩ := (TunnelManager.next_eq_some_iff hne).mp hnext
    refine ⟨hcounter, fun other hother => ?_⟩
    rwa [← Option.mem_unique hat hother]
  · rintro ⟨hcounter, hstarted⟩
    obtain ⟨instanceId, hat⟩ := Option.isSome_iff_exists.mp
      (TunnelManager.isSome_getElem?_tmod hne network.manager.increment.counter.toInt)
    have hnext := (TunnelManager.next_eq_some_iff hne).mpr ⟨hcounter, hat⟩
    exact ⟨instanceId, (htracks tunnelId instanceId).mp (List.mem_of_getElem? hat),
      (hsent hne instanceId).mpr ⟨hnext, hstarted instanceId hat⟩⟩

/-! ## Steps -/

theorem live_connect {other : Str} :
    (run (.connect tunnelId) network).Live other instanceId ↔
      network.Live other instanceId ∨
        other = tunnelId ∧ instanceId = network.connections.length := by
  simp only [run, Live]
  rcases lt_trichotomy instanceId network.connections.length with hlt | heq | hgt
  · rw [List.getElem?_append_left hlt, or_iff_left fun h => hlt.ne h.2]
  · rw [heq, List.getElem?_concat_length, List.getElem?_eq_none le_rfl]
    constructor
    · rintro ⟨connection, hconnection, rfl, -⟩
      exact .inr ⟨congrArg Connection.tunnelId (Option.some.inj hconnection).symm, rfl⟩
    · rintro (⟨connection, hconnection, -⟩ | ⟨rfl, -⟩)
      · cases hconnection
      · exact ⟨_, rfl, rfl, rfl⟩
  · rw [List.getElem?_eq_none hgt.le,
      List.getElem?_eq_none ((List.length_append).trans_le hgt)]
    simp [hgt.ne']

theorem tracks_connect (h : network.Tracks) : (run (.connect tunnelId) network).Tracks := by
  intro other instanceId
  rw [live_connect, ← h, run, TunnelManager.instances_registerTunnel]
  split
  · next hother => simp [hother]
  · next hother => simp [hother]

/-- What a change of a connection leaves as it is. -/
theorem live_modify {changed : Connection → Connection} {manager : TunnelManager} {other : Nat}
    (hid : ∀ connection, (changed connection).tunnelId = connection.tunnelId)
    (hended : ∀ connection, (changed connection).ended = connection.ended) :
    (Network.mk manager (network.connections.modify other changed)).Live tunnelId instanceId ↔
      network.Live tunnelId instanceId := by
  simp only [Live, List.getElem?_modify]
  cases network.connections[instanceId]? with
  | none => simp
  | some connection =>
    by_cases hother : other = instanceId <;> simp [hother, hid, hended]

theorem live_ending {manager : TunnelManager} {other : Nat} :
    (Network.mk manager (network.connections.modify other fun connection =>
      { connection with ended := true })).Live tunnelId instanceId ↔
      network.Live tunnelId instanceId ∧ instanceId ≠ other := by
  simp only [Live, List.getElem?_modify]
  cases network.connections[instanceId]? with
  | none => simp
  | some connection =>
    by_cases hother : other = instanceId
    · simp [hother]
    · simp [hother, Ne.symm hother]

/-- An instance that ends is taken out, and no other one is, if it is not that just another
one is there. -/
theorem tracks_ending_iff {connection : Connection} (h : network.Tracks)
    (hconnection : network.connections[instanceId]? = some connection)
    (hstarted : connection.started = true) :
    (run (.ending instanceId) network).Tracks ↔
      ∀ other, network.manager.instances connection.tunnelId = [other] → other = instanceId := by
  simp only [run, hconnection, hstarted, if_true, Tracks, live_ending,
    TunnelManager.instances_closeTunnel]
  constructor
  · intro htracks other hother
    by_contra hne
    have hmem : network.Live connection.tunnelId other :=
      (h _ _).mp (hother ▸ List.mem_singleton_self other)
    have hremains := (htracks connection.tunnelId other).mpr ⟨hmem, hne⟩
    rw [if_pos rfl, hother] at hremains
    cases hremains
  · intro honly tunnelId other
    rw [← h]
    by_cases htunnel : tunnelId = connection.tunnelId
    · rw [if_pos htunnel, htunnel, TunnelManager.remaining]
      split
      · next hshort =>
        cases hinstances : network.manager.instances connection.tunnelId with
        | nil => simp
        | cons first rest =>
          rw [hinstances] at hshort
          cases rest with
          | nil => simp [honly first hinstances]
          | cons second rest => simp at hshort
      · simp
    · have hother : other ∈ network.manager.instances tunnelId → other ≠ instanceId := by
        rintro hmem rfl
        obtain ⟨found, hfound, rfl, -⟩ := (h _ _).mp hmem
        rw [hconnection, Option.some.injEq] at hfound
        exact htunnel (congrArg Connection.tunnelId hfound.symm)
      rw [if_neg htunnel, iff_self_and]
      exact hother

theorem tracks_evict_iff (h : network.Tracks) :
    (run (.evict tunnelId) network).Tracks ↔
      (maximumSize < network.manager.tunnels.keys.length →
        network.manager.instances tunnelId = []) := by
  simp only [run, Tracks, TunnelManager.instances_evict]
  by_cases hsize : maximumSize < network.manager.tunnels.keys.length
  · simp only [hsize, true_and, forall_const]
    constructor
    · intro htracks
      rw [List.eq_nil_iff_forall_not_mem]
      intro instanceId hmem
      have hgone := (htracks tunnelId instanceId).mpr ((h _ _).mp hmem)
      rw [if_pos rfl] at hgone
      cases hgone
    · intro hempty other instanceId
      refine Iff.trans ?_ (h other instanceId)
      split
      · next hother => rw [hother, hempty]
      · rfl
  · simp only [hsize, false_and, if_false, false_implies, iff_true]
    exact h

/-- What leaves the instances and the connections as they are keeps track of them. -/
theorem tracks_of_same {manager : TunnelManager} (h : network.Tracks)
    (hsame : ∀ tunnelId, manager.instances tunnelId = network.manager.instances tunnelId) :
    (Network.mk manager network.connections).Tracks := fun tunnelId instanceId =>
  (hsame tunnelId ▸ h tunnelId instanceId)

theorem instances_congr {manager other : TunnelManager} (h : manager.tunnels = other.tunnels)
    (tunnelId : Str) : manager.instances tunnelId = other.instances tunnelId := by
  rw [TunnelManager.instances, h, TunnelManager.instances]

theorem serves_of_answer {event : Event} (h : answer event network = none) :
    network.Serves event := fun tunnelId answered hanswer => by
  rw [h] at hanswer
  cases hanswer

/-- One event: the registered instances stay those that are alive, and a request is served,
in the cases of `Meets`. -/
theorem tracks_and_serves_iff (event : Event) (h : network.Tracks) :
    (run event network).Tracks ∧ network.Serves event ↔ Meets event network := by
  cases event with
  | connect tunnelId =>
    exact iff_of_true ⟨tracks_connect h, serves_of_answer rfl⟩ trivial
  | start instanceId =>
    refine iff_of_true ⟨fun tunnelId other => ?_, serves_of_answer rfl⟩ trivial
    refine (h tunnelId other).trans (Iff.symm (live_modify ?_ ?_))
    · exact fun _ => rfl
    · exact fun _ => rfl
  | heartbeat instanceId =>
    refine iff_of_true ⟨?_, serves_of_answer rfl⟩ trivial
    rw [run]
    cases network.connections[instanceId]? with
    | none => exact h
    | some connection =>
      exact tracks_of_same h fun tunnelId => TunnelManager.instances_tunnelHeartBeat true
  | ending instanceId =>
    rw [and_iff_left (serves_of_answer rfl), Meets]
    cases hconnection : network.connections[instanceId]? with
    | none =>
      simp only [run, hconnection]
      exact iff_of_true h fun connection hnone => nomatch hnone
    | some connection =>
      cases hstarted : connection.started with
      | false =>
        simp only [run, hconnection, hstarted]
        refine iff_of_true h fun other hother hstart => ?_
        rw [← Option.some.inj hother, hstarted] at hstart
        cases hstart
      | true =>
        rw [tracks_ending_iff h hconnection hstarted]
        simp only [Option.some.injEq, forall_eq', hstarted, forall_const]
  | evict tunnelId =>
    rw [and_iff_left (serves_of_answer rfl)]
    exact tracks_evict_iff h
  | request tunnelId members =>
    have htracks : (run (.request tunnelId members) network).Tracks :=
      tracks_of_same h (instances_congr TunnelManager.sendRequest_snd)
    rw [and_iff_right htracks]
    exact serves_iff_of_answer h rfl fun hne _ => TunnelManager.sendRequest_eq_sent_iff hne
  | relay tunnelId =>
    have htracks : (run (.relay tunnelId) network).Tracks :=
      tracks_of_same h (instances_congr TunnelManager.sendLocalRequestRaw_snd)
    rw [and_iff_right htracks]
    exact serves_iff_of_answer h rfl fun hne _ =>
      TunnelManager.sendLocalRequestRaw_eq_sent_iff hne

/-! ## Runs -/

/-- Before the first connection. -/
theorem tracks_start (counter : Int32) : (Network.mk { counter } []).Tracks := by
  intro tunnelId instanceId
  refine iff_of_false List.not_mem_nil ?_
  rintro ⟨connection, hconnection, -⟩
  cases hconnection

/-- In a run, the registered instances are always those that are alive, and every request is
served, if and only if every event meets what `Meets` says. -/
theorem tracked_and_served_iff (counter : Int32) (events : List Event) :
    Along run (fun network event _ => (run event network).Tracks ∧ network.Serves event)
        { manager := { counter } } events ↔
      Along run (fun network event _ => Meets event network)
        { manager := { counter } } events :=
  along_iff_of_inv (fun _ event h => tracks_and_serves_iff event h) (fun _ _ _ h => h.1)
    (tracks_start counter)

/-- An agent is closed by its peer and connects again. When the actor of the first connection
stops, the second one is taken out. -/
theorem exists_live_unregistered :
    let network := runAll run {}
      [.connect "agent".toList, .start 0, .ending 0, .connect "agent".toList, .start 1, .ending 0]
    network.Live "agent".toList 1 ∧ network.manager.instances "agent".toList = [] :=
  ⟨⟨_, rfl, rfl, rfl⟩, rfl⟩

/-- The counter has wrapped, and three agents are connected. -/
example :
    let network := runAll run { manager := { counter := Int32.maxValue } }
      [.connect "agent".toList, .start 0, .connect "agent".toList, .start 1,
        .connect "agent".toList, .start 2]
    answer (.request "agent".toList []) network = some ("agent".toList, .raised) := rfl

end Network

end Tunnels

end Otoroshi
