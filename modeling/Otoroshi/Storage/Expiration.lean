/-
# Keys without expiry

A plain `set` puts a value and leaves the expirations alone, and so does `del`.
An expiration that is recorded for a key therefore outlives the value it was
given to: the sweeper later removes whatever stands under the key by then.

`survives_iff` says what a plain `set` needs to be permanent, for both stores and
every way a run can go on that leaves the key alone: no expiration recorded for
the key at that moment.
-/

import Otoroshi.Storage.Writes

namespace Otoroshi

open Memory Stateful

/-- The command does not write, delete or expire a key that holds this text. A
command on collections throws on such a key. -/
def Command.Spares (P : StorePlatform) (key : Str) (value : ByteString) : Command → Prop
  | .flushall => False
  | .set other _ _ _ => other ≠ key
  | .del others => key ∉ others
  | .incrby other _ => other ≠ key ∨ parseLong P.digit (P.utf8String value) = none
  | .expire other _ => other ≠ key
  | .pexpire other _ => other ≠ key
  | _ => True

/-- A pass of the sweeper is never a write to a key. -/
def StoreEvent.Spares (P : StorePlatform) (key : Str) (value : ByteString) : StoreEvent → Prop
  | .command _ request => request.Spares P key value
  | .sweep _ => True

namespace Memory

/-- The key holds a text and has no expiration. -/
structure Permanent (key : Str) (value : ByteString) (memory : Memory) : Prop where
  value?_eq : memory.value? key = some (.bytes value)
  expiration?_eq : memory.expiration? key = none

variable {key : Str} {value : ByteString}

/-! ## What leaves a permanent key alone -/

theorem keeps_put {other : Str} (hother : other ≠ key) (written : Value) :
    Keeps (Permanent key value) (put other written) := by
  apply keeps_modify
  intro memory hmemory
  refine ⟨?_, hmemory.expiration?_eq⟩
  rw [value?_insert, if_neg (Ne.symm hother)]
  exact hmemory.value?_eq

theorem keeps_remove {other : Str} (hother : other ≠ key) :
    Keeps (Permanent key value) (remove other) := by
  apply keeps_modify
  intro memory hmemory
  refine ⟨?_, hmemory.expiration?_eq⟩
  rw [value?_erase, if_neg (Ne.symm hother)]
  exact hmemory.value?_eq

theorem keeps_putExpiration {other : Str} (hother : other ≠ key) (time : Int) :
    Keeps (Permanent key value) (putExpiration other time) := by
  apply keeps_modify
  intro memory hmemory
  refine ⟨hmemory.value?_eq, ?_⟩
  rw [expiration?_insert, if_neg (Ne.symm hother)]
  exact hmemory.expiration?_eq

theorem Permanent.sweep {memory : Memory} (h : memory.Permanent key value) (time : Int) :
    (memory.sweep time).Permanent key value := by
  have hnot : ¬ memory.ExpiredBy time key := by
    rintro ⟨expiration, hexpiration, -⟩
    rw [h.expiration?_eq] at hexpiration
    cases hexpiration
  refine ⟨?_, ?_⟩
  · rw [value?_sweep hnot, h.value?_eq]
  · rw [expiration?_sweep hnot, h.expiration?_eq]

/-- A key without a text is another one. -/
theorem ne_of_withoutText {other : Str} (h : WithoutText (Permanent key value) other) :
    other ≠ key := by
  obtain ⟨memory, hmemory, hwithout⟩ := h
  rintro rfl
  exact hwithout value hmemory.value?_eq

end Memory

section Runs

variable {P : StorePlatform} {key : Str} {value : ByteString}

/-- A command that spares a permanent key has no write that touches it. -/
theorem keeps_permanent_write {request : Command} (hspares : request.Spares P key value)
    {write : Run Unit} (h : request.Writes P (Permanent key value) write) :
    Keeps (Permanent key value) write := by
  cases h with
  | flushall => exact absurd hspares not_false
  | set => exact keeps_put hspares _
  | lifetime => exact keeps_putExpiration hspares _
  | expire => exact keeps_putExpiration hspares _
  | pexpire => exact keeps_putExpiration hspares _
  | remove hmem => exact keeps_remove fun hsame => hspares (hsame ▸ hmem)
  | @incrby other _ written hnumber =>
      obtain ⟨memory, hmemory, hread⟩ := hnumber
      have hother : other ≠ key := by
        rintro rfl
        rcases hspares with hother | hnone
        · exact hother rfl
        · exact hread value hmemory.value?_eq hnone
      exact keeps_put hother written
  | collection hkey hwithout => exact keeps_put (ne_of_withoutText hwithout) _

/-- An event that spares a permanent key leaves it permanent. -/
theorem keeps_permanent (impl : Implementation) {event : StoreEvent}
    (hspares : event.Spares P key value) : Keeps (Permanent key value) (event.run P impl) := by
  refine StoreEvent.keeps_run impl ?_ fun now _ memory hmemory => hmemory.sweep now
  rintro now request rfl write hwrite
  exact keeps_permanent_write hspares hwrite

/-- What a plain `set` does to the memory. -/
theorem run_set (P : StorePlatform) (impl : Implementation) (now : Int) (memory : Memory) :
    ((StoreEvent.command now (.set key value none none)).run P impl memory).2 =
      { memory with store := memory.store.insert key (.bytes value) } := by
  cases impl <;> rfl

/-- What a pass of the sweeper does to it. -/
theorem run_sweep (P : StorePlatform) (impl : Implementation) (now : Int) (memory : Memory) :
    ((StoreEvent.sweep now).run P impl memory).2 = memory.sweep now := rfl

end Runs

/-! ## The fate of a plain set -/

/-- A value that is set without expiry survives every run that neither writes nor
deletes nor expires its key, sweeps included, if and only if no expiration is
recorded for the key when it is set. -/
theorem StoreEvent.survives_iff (P : StorePlatform) (impl : Implementation) (memory : Memory)
    (now : Int) (key : Str) (value : ByteString) :
    (∀ events : List StoreEvent, (∀ event ∈ events, event.Spares P key value) →
      (after P impl memory (.command now (.set key value none none) :: events)).value? key =
        some (.bytes value)) ↔ memory.expiration? key = none := by
  refine ⟨fun hsurvives => ?_, fun hnone events hspares => ?_⟩
  · -- a recorded expiration is past for some pass of the sweeper
    cases hexpiration : memory.expiration? key with
    | none => rfl
    | some expiration =>
        have hexpired : ExpiredBy { memory with store := memory.store.insert key (.bytes value) }
            (expiration + 1) key := ⟨expiration, hexpiration, by omega⟩
        have hkept := hsurvives [.sweep (expiration + 1)] (by simp [Spares])
        rw [after, afterAll, List.foldl_cons, List.foldl_cons, List.foldl_nil, run_set,
          run_sweep, value?_sweep_of_expired hexpired] at hkept
        cases hkept
  · rw [after, afterAll, List.foldl_cons, run_set]
    have hpermanent : Permanent key value
        { memory with store := memory.store.insert key (.bytes value) } :=
      ⟨by rw [value?_insert, if_pos rfl], hnone⟩
    exact (keeps_of_forall (fun event hevent => keeps_permanent impl (hspares event hevent))
      hpermanent).value?_eq

/-- A platform for ASCII texts, with the engine of starred literals. It finds a
pattern where it accepts a piece of the string. -/
def starStorePlatform : StorePlatform where
  toRegexEngine := starEngine
  encode text := text.map fun c => UInt8.ofNat c.toNat
  utf8String bytes := bytes.map fun byte => Char.ofNat byte.toNat
  finds pattern s := s.tails.any fun rest => rest.inits.any (starEngine.accepts pattern)
  digit c := if c.isDigit then some (c.toNat - '0'.toNat) else none

/-- A key that had an expiry once, set again without one, is swept away with its
new value. -/
theorem StoreEvent.exists_swept :
    ¬ ∀ (P : StorePlatform) (impl : Implementation) (history : List StoreEvent) (now : Int)
        (key : Str) (value : ByteString) (events : List StoreEvent),
      (∀ event ∈ events, event.Spares P key value) →
      (after P impl .empty (history ++
        .command now (.set key value none none) :: events)).value? key =
          some (.bytes value) := by
  intro h
  have hkept := h starStorePlatform .modern
    [.command 0 (.set "k".toList [111, 108, 100] (some 1) none)] 10 "k".toList [110, 101, 119]
    [.sweep 2000] (by simp [Spares])
  have hgone : (after starStorePlatform .modern .empty
      [.command 0 (.set "k".toList [111, 108, 100] (some 1) none),
        .command 10 (.set "k".toList [110, 101, 119] none none), .sweep 2000]).value? "k".toList =
      none := by
    rfl
  rw [List.singleton_append, hgone] at hkept
  cases hkept

end Otoroshi
