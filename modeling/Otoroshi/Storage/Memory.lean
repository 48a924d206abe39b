/-
# The memory of the in-memory stores

Both in-memory stores keep two maps: the values, and the times at which keys
expire. Nothing ties the two together but the commands that change them and a
sweeper that runs now and then, which removes the keys whose time is past from
both maps.

Commands are programs over this memory. A command on a key of another type
throws what a failed cast throws.
-/

import Mathlib.Data.Finset.Basic
import Mathlib.Data.List.AList
import Otoroshi.Foundation.Long
import Otoroshi.Foundation.Pattern
import Otoroshi.Foundation.Stateful

namespace Otoroshi

/-- The bytes of a value. -/
abbrev ByteString := List UInt8

/-- What the stores take from their platform: the bytes of a text and the text in
some bytes, an engine whose patterns can also be looked for inside a string, and
the decimal digits. Bytes that encode no text are read as another text. -/
structure StorePlatform extends RegexEngine where
  /-- `ByteString(text)` -/
  encode : Str → ByteString
  /-- `utf8String` -/
  utf8String : ByteString → Str
  /-- `matcher(value).find` -/
  finds : Pattern → Str → Bool
  /-- `Character.digit(c, 10)` -/
  digit : Char → Option Nat

/-! ## Values -/

abbrev Fields := AList fun _ : Str => ByteString

/-- A value of the store. The modern store keeps a counter as a number of its
own. -/
inductive Value
  | bytes (value : ByteString)
  | counter (value : Int)
  | hash (fields : Fields)
  | list (elements : List ByteString)
  | set (members : Finset ByteString)

namespace Value

def asBytes : Value → Option ByteString
  | bytes value => some value
  | _ => none

def asHash : Value → Option Fields
  | hash fields => some fields
  | _ => none

def asList : Value → Option (List ByteString)
  | list elements => some elements
  | _ => none

def asSet : Value → Option (Finset ByteString)
  | set members => some members
  | _ => none

end Value

/-- The exceptions of the stores. -/
inductive StoreException
  | classCast
  | numberFormat
  | patternSyntax (text : Str)
  deriving DecidableEq

/-- The values and the expirations. -/
structure Memory where
  store : AList fun _ : Str => Value
  expirations : AList fun _ : Str => Int

namespace Memory

def empty : Memory := ⟨∅, ∅⟩

/-- The value under a key. -/
def value? (memory : Memory) (key : Str) : Option Value := memory.store.lookup key

/-- The time a key expires at. -/
def expiration? (memory : Memory) (key : Str) : Option Int := memory.expirations.lookup key

/-- A program over the memory. -/
abbrev Run (α : Type) := Stateful Memory StoreException α

def put (key : Str) (value : Value) : Run Unit :=
  Stateful.modify fun memory => { memory with store := memory.store.insert key value }

def remove (key : Str) : Run Unit :=
  Stateful.modify fun memory => { memory with store := memory.store.erase key }

def putExpiration (key : Str) (time : Int) : Run Unit :=
  Stateful.modify fun memory => { memory with expirations := memory.expirations.insert key time }

def getExpiration (key : Str) : Run (Option Int) := do
  let memory ← Stateful.get
  pure (memory.expiration? key)

def get (key : Str) : Run (Option Value) := do
  let memory ← Stateful.get
  pure (memory.value? key)

/-- `asInstanceOf`. -/
def cast {α : Type} (as : Value → Option α) (value : Value) : Run α :=
  match as value with
  | some a => pure a
  | none => Stateful.throw .classCast

/-- The value of a key at a type, or a new one that is put under the key. -/
def getTypedOrUpdate {α : Type} (as : Value → Option α) (key : Str) (up : Value) : Run α := do
  match ← get key with
  | some value => cast as value
  | none => do
      put key up
      cast as up

/-- The value of a key at a type, or a new one that is not kept. -/
def getTypedOrElse {α : Type} (as : Value → Option α) (key : Str) (up : Value) : Run α := do
  match ← get key with
  | some value => cast as value
  | none => cast as up

section Typed

variable {α : Type} {as : Value → Option α} {key : Str} {up value : Value} {memory : Memory}

theorem get_eq {found : Option Value} (h : memory.value? key = found) :
    get key memory = (.ok found, memory) := by
  rw [← h]
  rfl

theorem getTypedOrUpdate_of_some (h : memory.value? key = some value) :
    getTypedOrUpdate as key up memory = cast as value memory := by
  rw [getTypedOrUpdate, Stateful.bind_of_ok (get_eq h)]

theorem getTypedOrUpdate_of_none (h : memory.value? key = none) :
    getTypedOrUpdate as key up memory =
      cast as up { memory with store := memory.store.insert key up } := by
  rw [getTypedOrUpdate, Stateful.bind_of_ok (get_eq h)]
  rfl

theorem getTypedOrElse_of_some (h : memory.value? key = some value) :
    getTypedOrElse as key up memory = cast as value memory := by
  rw [getTypedOrElse, Stateful.bind_of_ok (get_eq h)]

theorem getTypedOrElse_of_none (h : memory.value? key = none) :
    getTypedOrElse as key up memory = cast as up memory := by
  rw [getTypedOrElse, Stateful.bind_of_ok (get_eq h)]

end Typed

/-! ## The sweeper -/

/-- What the sweeper does with one expiration. -/
def sweepEntry (time : Int) (memory : Memory) (entry : (_ : Str) × Int) : Memory :=
  if entry.2 < time then
    ⟨memory.store.erase entry.1, memory.expirations.erase entry.1⟩
  else memory

/-- One pass of the sweeper. -/
def sweep (time : Int) (memory : Memory) : Memory :=
  memory.expirations.entries.foldl (sweepEntry time) memory

section Lookup

variable {memory : Memory} {key other : Str} {value : Value} {time : Int}

@[simp]
theorem value?_erase (expirations : AList fun _ : Str => Int) :
    (Memory.mk (memory.store.erase other) expirations).value? key =
      if key = other then none else memory.value? key := by
  by_cases h : key = other
  · rw [if_pos h, h]
    exact AList.lookup_erase other memory.store
  · rw [if_neg h]
    exact AList.lookup_erase_ne h

@[simp]
theorem expiration?_erase (store : AList fun _ : Str => Value) :
    (Memory.mk store (memory.expirations.erase other)).expiration? key =
      if key = other then none else memory.expiration? key := by
  by_cases h : key = other
  · rw [if_pos h, h]
    exact AList.lookup_erase other memory.expirations
  · rw [if_neg h]
    exact AList.lookup_erase_ne h

@[simp]
theorem value?_insert (expirations : AList fun _ : Str => Int) :
    (Memory.mk (memory.store.insert other value) expirations).value? key =
      if key = other then some value else memory.value? key := by
  by_cases h : key = other
  · rw [if_pos h, h]
    exact AList.lookup_insert memory.store
  · rw [if_neg h]
    exact AList.lookup_insert_ne h

@[simp]
theorem expiration?_insert (store : AList fun _ : Str => Value) :
    (Memory.mk store (memory.expirations.insert other time)).expiration? key =
      if key = other then some time else memory.expiration? key := by
  by_cases h : key = other
  · rw [if_pos h, h]
    exact AList.lookup_insert memory.expirations
  · rw [if_neg h]
    exact AList.lookup_insert_ne h

end Lookup

/-- The key has an expiration that is past. -/
def ExpiredBy (memory : Memory) (time : Int) (key : Str) : Prop :=
  ∃ expiration, memory.expiration? key = some expiration ∧ expiration < time

/-- One of these expirations of the key is past. -/
private def somePast (time : Int) (key : Str) (entries : List ((_ : Str) × Int)) : Bool :=
  entries.any fun entry => key = entry.1 ∧ entry.2 < time

private theorem lookup_foldl_sweepEntry (time : Int) (key : Str)
    (entries : List ((_ : Str) × Int)) (memory : Memory) :
    ((entries.foldl (sweepEntry time) memory).value? key =
        if somePast time key entries then none else memory.value? key) ∧
      ((entries.foldl (sweepEntry time) memory).expiration? key =
        if somePast time key entries then none else memory.expiration? key) := by
  induction entries generalizing memory with
  | nil => exact ⟨rfl, rfl⟩
  | cons entry entries ih =>
      obtain ⟨hvalue, hexpiration⟩ := ih (sweepEntry time memory entry)
      have hcons : somePast time key (entry :: entries) =
          (decide (key = entry.1 ∧ entry.2 < time) || somePast time key entries) := rfl
      rw [List.foldl_cons, hvalue, hexpiration, hcons]
      by_cases hpast : entry.2 < time
      · by_cases hkey : key = entry.1
        · simp [sweepEntry, hpast, hkey]
        · simp [sweepEntry, hpast, hkey]
      · simp [sweepEntry, hpast]

private theorem somePast_iff {memory : Memory} {time : Int} {key : Str} :
    somePast time key memory.expirations.entries = true ↔ memory.ExpiredBy time key := by
  rw [somePast, List.any_eq_true]
  refine ⟨?_, ?_⟩
  · rintro ⟨⟨found, expiration⟩, hmem, hentry⟩
    obtain ⟨rfl, hpast⟩ := of_decide_eq_true hentry
    exact ⟨expiration, AList.mem_lookup_iff.mpr hmem, hpast⟩
  · rintro ⟨expiration, hlookup, hpast⟩
    exact ⟨⟨key, expiration⟩, AList.mem_lookup_iff.mp hlookup, decide_eq_true ⟨rfl, hpast⟩⟩

/-- A pass of the sweeper removes the keys whose expiration is past. -/
theorem value?_sweep_of_expired {memory : Memory} {time : Int} {key : Str}
    (h : memory.ExpiredBy time key) : (memory.sweep time).value? key = none := by
  rw [sweep, (lookup_foldl_sweepEntry time key _ memory).1, if_pos (somePast_iff.mpr h)]

theorem expiration?_sweep_of_expired {memory : Memory} {time : Int} {key : Str}
    (h : memory.ExpiredBy time key) : (memory.sweep time).expiration? key = none := by
  rw [sweep, (lookup_foldl_sweepEntry time key _ memory).2, if_pos (somePast_iff.mpr h)]

/-- It leaves every other key alone. -/
theorem value?_sweep {memory : Memory} {time : Int} {key : Str}
    (h : ¬ memory.ExpiredBy time key) : (memory.sweep time).value? key = memory.value? key := by
  rw [sweep, (lookup_foldl_sweepEntry time key _ memory).1, if_neg (mt somePast_iff.mp h)]

theorem expiration?_sweep {memory : Memory} {time : Int} {key : Str}
    (h : ¬ memory.ExpiredBy time key) :
    (memory.sweep time).expiration? key = memory.expiration? key := by
  rw [sweep, (lookup_foldl_sweepEntry time key _ memory).2, if_neg (mt somePast_iff.mp h)]

end Memory

end Otoroshi
