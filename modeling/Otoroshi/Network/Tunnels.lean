/-
# Tunnels

The agents of a tunnel connect to a node, each with an instance of its own. The manager
keeps the instances of a tunnel under its id. A connection takes its instance out when the
peer closes it, and again when its actor stops. Requests go to the instances in turn, by a
counter of 32 bits that all tunnels share. A cache holds the tunnels, and drops some when
there are too many.

An instance is a number here, the position of its connection among all that there ever
were.
-/

import Mathlib.Data.List.AList
import Otoroshi.Foundation.Text

namespace Otoroshi

namespace Tunnels

structure MemberView where
  name : Str
  tunnels : List Str
  deriving DecidableEq, Repr

structure TunnelManager where
  tunnels : AList fun _ : Str => List Nat := ∅
  counter : Int32 := 0

/-- What comes of a request: it was sent to an instance, or to another member, or an error
is answered or raised. -/
inductive Answer where
  | sent (instanceId : Nat)
  | forwarded (member : MemberView)
  | notFound (error : Str)
  | internalServerError (error : Str)
  | raised
  deriving DecidableEq, Repr

/-- How many tunnels the cache holds. -/
def maximumSize : Nat := 10000

namespace TunnelManager

variable (tunnelsEnabled : Bool) (manager : TunnelManager) (tunnelId : Str)

def whenEnabled (f : TunnelManager → TunnelManager) : TunnelManager :=
  if tunnelsEnabled then f manager else manager

def closeTunnel (instanceId : Nat) : TunnelManager :=
  manager.whenEnabled tunnelsEnabled fun manager =>
    match manager.tunnels.lookup tunnelId with
    | none => manager
    | some instances =>
        if instances.isEmpty || instances.length == 1 then
          { manager with tunnels := manager.tunnels.erase tunnelId }
        else
          { manager with
            tunnels := manager.tunnels.insert tunnelId
              (instances.filter fun other => !(other == instanceId)) }

def registerTunnel (instanceId : Nat) : TunnelManager :=
  manager.whenEnabled tunnelsEnabled fun manager =>
    match manager.tunnels.lookup tunnelId with
    | none => { manager with tunnels := manager.tunnels.insert tunnelId [instanceId] }
    | some instances =>
        { manager with tunnels := manager.tunnels.insert tunnelId (instances ++ [instanceId]) }

def tunnelHeartBeat : TunnelManager :=
  manager.whenEnabled tunnelsEnabled fun manager =>
    match manager.tunnels.lookup tunnelId with
    | none => manager
    | some instances => { manager with tunnels := manager.tunnels.insert tunnelId instances }

/-- The cache drops a tunnel. It does so only if there are too many. -/
def evict : TunnelManager :=
  if maximumSize < manager.tunnels.keys.length then
    { manager with tunnels := manager.tunnels.erase tunnelId }
  else manager

/-- The remainder has the sign of the counter. -/
def index (counter : Int32) (size : Nat) : Int :=
  counter.toInt.tmod (if size = 0 then 1 else size)

/-- `apply`, which raises an exception for a position that is not in the list. -/
def applyAt {α : Type} (items : List α) (position : Int) : Option α :=
  if position < 0 then none else items[position.toNat]?

def increment : TunnelManager := { manager with counter := manager.counter + 1 }

section Requests

variable (actor : Nat → Bool)

def missingConnection : Str :=
  "missing tunnel connection for tunnel '".toList ++ tunnelId ++ "'".toList

/-- A request is handed to the connection of an instance. `actor` says whether the instance
has one yet. -/
def handTo (instanceId : Nat) : Answer :=
  if actor instanceId then .sent instanceId else .notFound (missingConnection tunnelId)

def sendLocalRequestRaw : Answer × TunnelManager :=
  if tunnelsEnabled then
    match manager.tunnels.lookup tunnelId with
    | none => (.notFound ("missing local tunnel '".toList ++ tunnelId ++ "'".toList), manager)
    | some instances =>
        match applyAt instances (index manager.increment.counter instances.length) with
        | none => (.internalServerError "tunnel error".toList, manager.increment)
        | some instanceId => (handTo tunnelId actor instanceId, manager.increment)
  else (.internalServerError "tunnels not enabled".toList, manager)

def sendRequest (members : List MemberView) : Answer × TunnelManager :=
  if tunnelsEnabled then
    match manager.tunnels.lookup tunnelId with
    | none =>
        let membersWithTunnel := members.filter fun member => member.tunnels.contains tunnelId
        if membersWithTunnel.isEmpty then
          (.notFound ("missing tunnel '".toList ++ tunnelId ++ "'".toList), manager)
        else
          match applyAt membersWithTunnel
            (index manager.increment.counter membersWithTunnel.length) with
          | none => (.raised, manager.increment)
          | some member => (.forwarded member, manager.increment)
    | some instances =>
        if instances.isEmpty then (.notFound (missingConnection tunnelId), manager)
        else
          match applyAt instances (index manager.increment.counter instances.length) with
          | none => (.raised, manager.increment)
          | some instanceId => (handTo tunnelId actor instanceId, manager.increment)
  else (.internalServerError "tunnels not enabled".toList, manager)

end Requests

/-! ## Registered instances -/

/-- The instances that are registered under an id. -/
def instances : List Nat := (manager.tunnels.lookup tunnelId).getD []

variable {manager} {tunnelId} {instanceId : Nat} {other : Str}

theorem instances_of_lookup {found : List Nat} (h : manager.tunnels.lookup tunnelId = some found) :
    manager.instances tunnelId = found := by
  rw [instances, h, Option.getD_some]

theorem instances_insert (found : List Nat) :
    (TunnelManager.mk (manager.tunnels.insert tunnelId found) manager.counter).instances other =
      if other = tunnelId then found else manager.instances other := by
  rw [instances, instances]
  split
  · next h => rw [h, AList.lookup_insert, Option.getD_some]
  · next h => rw [AList.lookup_insert_ne h]

theorem instances_erase :
    (TunnelManager.mk (manager.tunnels.erase tunnelId) manager.counter).instances other =
      if other = tunnelId then [] else manager.instances other := by
  rw [instances, instances]
  split
  · next h => rw [h, AList.lookup_erase, Option.getD_none]
  · next h => rw [AList.lookup_erase_ne h]

/-- What is left of the instances of a tunnel when one is closed. -/
def remaining (instances : List Nat) (instanceId : Nat) : List Nat :=
  if instances.length ≤ 1 then [] else instances.filter fun other => !(other == instanceId)

theorem instances_closeTunnel :
    (manager.closeTunnel true tunnelId instanceId).instances other =
      if other = tunnelId then remaining (manager.instances tunnelId) instanceId
      else manager.instances other := by
  rw [closeTunnel, whenEnabled, if_pos rfl]
  cases hlookup : manager.tunnels.lookup tunnelId with
  | none =>
    have hempty : manager.instances tunnelId = [] := by
      rw [instances, hlookup, Option.getD_none]
    show manager.instances other = _
    split
    · next h => rw [h, hempty]; rfl
    · rfl
  | some found =>
    rw [instances_of_lookup hlookup]
    by_cases hshort : found.length ≤ 1
    · have hcases : (found.isEmpty || found.length == 1) = true := by
        cases found with
        | nil => rfl
        | cons first rest =>
          cases rest with
          | nil => rfl
          | cons second rest => exact absurd hshort (by simp)
      rw [remaining, if_pos hshort]
      simp only [hcases, if_true]
      exact instances_erase
    · have hcases : (found.isEmpty || found.length == 1) = false := by
        cases found with
        | nil => exact absurd (Nat.zero_le 1) hshort
        | cons first rest =>
          cases rest with
          | nil => exact absurd (Nat.le_refl 1) hshort
          | cons second rest => rfl
      rw [remaining, if_neg hshort]
      simp only [hcases]
      exact instances_insert _

theorem instances_registerTunnel :
    (manager.registerTunnel true tunnelId instanceId).instances other =
      if other = tunnelId then manager.instances tunnelId ++ [instanceId]
      else manager.instances other := by
  rw [registerTunnel, whenEnabled, if_pos rfl]
  cases hlookup : manager.tunnels.lookup tunnelId with
  | none =>
    have hempty : manager.instances tunnelId = [] := by
      rw [instances, hlookup, Option.getD_none]
    rw [hempty, List.nil_append]
    exact instances_insert _
  | some found =>
    rw [instances_of_lookup hlookup]
    exact instances_insert _

theorem instances_tunnelHeartBeat (tunnelsEnabled : Bool) :
    (manager.tunnelHeartBeat tunnelsEnabled tunnelId).instances other =
      manager.instances other := by
  rw [tunnelHeartBeat, whenEnabled]
  split
  · cases hlookup : manager.tunnels.lookup tunnelId with
    | none => rfl
    | some found =>
      rw [instances_insert]
      split
      · next h => rw [h, instances_of_lookup hlookup]
      · rfl
  · rfl

theorem instances_evict :
    (manager.evict tunnelId).instances other =
      if maximumSize < manager.tunnels.keys.length ∧ other = tunnelId then []
      else manager.instances other := by
  rw [evict]
  by_cases h : maximumSize < manager.tunnels.keys.length
  · rw [if_pos h, instances_erase]
    simp only [h, true_and]
  · rw [if_neg h, if_neg fun hboth => h hboth.1]

end TunnelManager

end Tunnels

end Otoroshi
