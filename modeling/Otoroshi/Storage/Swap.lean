/-
# Swapping the state of a store

A worker replaces its data by the data of its leader again and again. Some keys
belong to the worker alone: they are never taken from the new state and never
removed because the new state lacks them.

The modern store merges each of its two maps with its counterpart, and
`swap_keeps_local` says what comes out: under a local key the old entry, under
every other key the new one. The legacy store has two strategies of its own: one
takes the new expirations whole, the other keeps its own.
-/

import Otoroshi.Foundation.Maps
import Otoroshi.Storage.Memory

namespace Otoroshi

open Maps

/-- The memories hold the same data. -/
structure Memory.Same (memory other : Memory) : Prop where
  value?_eq : ∀ key, memory.value? key = other.value? key
  expiration?_eq : ∀ key, memory.expiration? key = other.expiration? key

/-- What a swap reads of the configuration of the cluster. -/
structure ClusterConfig where
  isWorker : Bool
  storageRoot : Str

namespace Cluster

/-- The beginnings of the keys that are not synced, after the storage root. -/
def filteredPrefixes : List Str :=
  [":noclustersync:", ":users:backoffice", ":admins:", ":u2f:users:", ":webauthn:admins:",
    ":deschealthcheck:", ":scall:stats:", ":scalldur:stats:", ":scallover:stats:",
    ":desclookup:", ":scall:", ":data:", ":cache:", ":users:alreadyloggedin", ":migrations",
    ":local-plugins:", ":dev:"].map String.toList

/-- `Cluster.filteredKey`. -/
def filteredKey (config : ClusterConfig) (key : Str) : Bool :=
  key == config.storageRoot ++ ":events:audit".toList ||
    key == config.storageRoot ++ ":events:alerts".toList ||
    filteredPrefixes.any fun beginning => startsWith key (config.storageRoot ++ beginning)

end Cluster

namespace ModernMemory

section SwapMap

variable {β : Type} (keepLocal : Str → Bool) (new old : AList fun _ : Str => β)

/-- One of the two maps in a swap: the entries of the new map are put first, and
then the keys that it lacks are removed. -/
def swapMap : AList fun _ : Str => β :=
  let map := putAll (filterKeys (fun key => !keepLocal key) new) old
  eraseAll ((map.keys.filter fun key => key ∉ new.keys).filter fun key => !keepLocal key) map

/-- What a swap of one map leaves under a key. -/
theorem lookup_swapMap (key : Str) :
    (swapMap keepLocal new old).lookup key =
      if keepLocal key = true then old.lookup key else new.lookup key := by
  have hput : (putAll (filterKeys (fun key => !keepLocal key) new) old).lookup key =
      if keepLocal key = true then old.lookup key
      else (new.lookup key).or (old.lookup key) := by
    rw [lookup_putAll, lookup_filterKeys]
    cases keepLocal key <;> simp
  rw [swapMap, lookup_eraseAll, hput]
  by_cases hlocal : keepLocal key = true
  · simp [hlocal]
  · cases hnew : new.lookup key with
    | some value =>
        have hmem : key ∈ new.keys :=
          AList.mem_keys.mp (AList.lookup_isSome.mp (by rw [hnew]; rfl))
        simp [hlocal, hmem]
    | none =>
        have hnot : key ∉ new.keys := fun hmem =>
          AList.lookup_eq_none.mp hnew (AList.mem_keys.mpr hmem)
        rw [if_neg hlocal, hnew, Option.none_or] at hput
        rw [if_neg hlocal, if_neg hlocal, Option.none_or]
        split
        · rfl
        · rename_i hkept
          -- a key that is not removed was not there
          by_contra hold
          refine hkept (List.mem_filter.mpr ⟨List.mem_filter.mpr ⟨?_, by simpa using hnot⟩, ?_⟩)
          · rw [← AList.mem_keys, ← AList.lookup_isSome, hput]
            exact Option.isSome_iff_ne_none.mpr hold
          · simpa using hlocal

end SwapMap

/-- `ModernMemory.swap`. -/
def swap (nstore : AList fun _ : Str => Value) (nexpirations : AList fun _ : Str => Int)
    (keepLocal : Str → Bool) (memory : Memory) : Memory where
  store := swapMap keepLocal nstore memory.store
  expirations := swapMap keepLocal nexpirations memory.expirations

variable (nstore : AList fun _ : Str => Value) (nexpirations : AList fun _ : Str => Int)
  (keepLocal : Str → Bool) (memory : Memory) (key : Str)

theorem value?_swap :
    (swap nstore nexpirations keepLocal memory).value? key =
      if keepLocal key = true then memory.value? key
      else (Memory.mk nstore nexpirations).value? key :=
  lookup_swapMap keepLocal nstore memory.store key

theorem expiration?_swap :
    (swap nstore nexpirations keepLocal memory).expiration? key =
      if keepLocal key = true then memory.expiration? key
      else (Memory.mk nstore nexpirations).expiration? key :=
  lookup_swapMap keepLocal nexpirations memory.expirations key

end ModernMemory

namespace ModernSwappableInMemoryRedis

/-- `rawSwap`: only a worker has local keys. -/
def rawSwap (config : ClusterConfig) (nstore : AList fun _ : Str => Value)
    (nexpirations : AList fun _ : Str => Int) (memory : Memory) : Memory :=
  ModernMemory.swap nstore nexpirations
    (if config.isWorker then Cluster.filteredKey config else fun _ => false) memory

end ModernSwappableInMemoryRedis

/-! ## The legacy store -/

/-- How a worker takes over a new state. -/
inductive SwapStrategy
  | replace
  | merge
  deriving DecidableEq

namespace SwappableInMemoryRedis

/-- `swap`. Replacing drops the local values and takes all expirations of the new
state; merging leaves the expirations as they are. -/
def swap (config : ClusterConfig) (new : Memory) (strategy : SwapStrategy) (memory : Memory) :
    Memory :=
  if config.isWorker then
    match strategy with
    | .replace => ⟨filterKeys (fun key => !Cluster.filteredKey config key) new.store,
        new.expirations⟩
    | .merge =>
        let keysToDelete := (memory.store.keys.filter fun key =>
          !Cluster.filteredKey config key).filter fun key => key ∉ new.store.keys
        ⟨putAll (filterKeys (fun key => !Cluster.filteredKey config key) new.store)
          (eraseAll keysToDelete memory.store), memory.expirations⟩
  else new

end SwappableInMemoryRedis

/-! ## What a swap keeps and takes -/

/-- A swap keeps the old entries under local keys, values and expirations alike,
and has exactly the new entries under every other key. Doing it again changes
nothing. -/
theorem ModernMemory.swap_keeps_local (old new : Memory) (keepLocal : Str → Bool) :
    (∀ key, keepLocal key = true →
      (swap new.store new.expirations keepLocal old).value? key = old.value? key ∧
        (swap new.store new.expirations keepLocal old).expiration? key = old.expiration? key) ∧
    (∀ key, keepLocal key = false →
      (swap new.store new.expirations keepLocal old).value? key = new.value? key ∧
        (swap new.store new.expirations keepLocal old).expiration? key = new.expiration? key) ∧
    Memory.Same
      (swap new.store new.expirations keepLocal (swap new.store new.expirations keepLocal old))
      (swap new.store new.expirations keepLocal old) := by
  refine ⟨?_, ?_, ?_⟩
  · intro key hlocal
    rw [value?_swap, expiration?_swap, if_pos hlocal, if_pos hlocal]
    exact ⟨rfl, rfl⟩
  · intro key hlocal
    rw [value?_swap, expiration?_swap, hlocal]
    exact ⟨rfl, rfl⟩
  · constructor
    · intro key
      simp only [value?_swap]
      split <;> rfl
    · intro key
      simp only [expiration?_swap]
      split <;> rfl

end Otoroshi
