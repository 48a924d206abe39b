/-
# What an export says

What a store holds is looked at through entries: the data under a key, in which a
counter is the text of its number, and the expiration. `observe` is what a client
sees of an entry at some time.

An export writes one line for each key that it finds. A line has the data as text
and the time at which the key expires, which is computed from the lifetime that is
left: a key whose time is past gets the line of one without expiration.
-/

import Mathlib.Data.Finset.Image
import Otoroshi.Storage.NdJson
import Otoroshi.Storage.Writes

namespace Otoroshi

open Memory Stateful InMemoryDataStores

/-! ## Data and entries -/

/-- What clients see of a value. -/
inductive Data
  | text (bytes : ByteString)
  | hash (field : Str → Option ByteString)
  | list (elements : List ByteString)
  | set (members : Finset ByteString)

/-- The bytes of the text that the bytes are read as. -/
def StorePlatform.recode (P : StorePlatform) (bs : ByteString) : ByteString :=
  P.encode (P.utf8String bs)

namespace Value

variable (P : StorePlatform)

def data : Value → Data
  | bytes bs => .text bs
  | counter n => .text (P.encode (longText n))
  | hash fields => .hash fun field => fields.lookup field
  | list elements => .list elements
  | set members => .set members

/-- The data of a value whose bytes have been read as text. -/
def recodedData : Value → Data
  | bytes bs => .text (P.recode bs)
  | counter n => .text (P.encode (longText n))
  | hash fields => .hash fun field => (fields.lookup field).map P.recode
  | list elements => .list (elements.map P.recode)
  | set members => .set (members.image P.recode)

/-- All bytes of the value are bytes of a text. -/
def IsText : Value → Prop
  | bytes bs => P.recode bs = bs
  | counter _ => True
  | hash fields => ∀ field bs, fields.lookup field = some bs → P.recode bs = bs
  | list elements => ∀ bs ∈ elements, P.recode bs = bs
  | set members => members.image P.recode = members

def isEmptyCollection : Value → Bool
  | hash fields => fields.entries.isEmpty
  | list elements => elements.isEmpty
  | set members => members = ∅
  | _ => false

variable {P}

theorem recodedData_eq_iff {value : Value} :
    value.recodedData P = value.data P ↔ value.IsText P := by
  cases value with
  | bytes bs => simp [recodedData, data, IsText]
  | counter n => simp [recodedData, data, IsText]
  | hash fields =>
      simp only [recodedData, data, IsText, Data.hash.injEq, funext_iff]
      refine forall_congr' fun field => ?_
      cases fields.lookup field with
      | none => simp
      | some bs => simp
  | list elements =>
      have hmap : elements.map P.recode = elements.map id ↔ ∀ bs ∈ elements, P.recode bs = bs :=
        List.map_inj_left
      rw [List.map_id] at hmap
      simpa only [recodedData, data, IsText, Data.list.injEq] using hmap
  | set members => simp [recodedData, data, IsText]

end Value

/-- The data under a key, and its expiration. -/
abbrev Entry := Option Data × Option Int

def Memory.entry (P : StorePlatform) (memory : Memory) (key : Str) : Entry :=
  ((memory.value? key).map (Value.data P), memory.expiration? key)

/-- There is time left. -/
def Alive (time : Int) (expiration : Option Int) : Prop :=
  ∀ e, expiration = some e → time < e

instance (time : Int) : (expiration : Option Int) → Decidable (Alive time expiration)
  | none => isTrue fun _ h => by cases h
  | some e => decidable_of_iff (time < e) ⟨fun h _ he => Option.some.inj he ▸ h, fun h => h e rfl⟩

/-- What is under a key at some time: nothing, once the time of the key is past,
whether the sweeper has come by or not. -/
def Entry.observe (time : Int) (entry : Entry) : Option (Data × Option Int) :=
  if Alive time entry.2 then entry.1.map fun data => (data, entry.2) else none

namespace Entry

variable {time : Int} {entry : Entry} {data : Data} {expiration : Option Int}

theorem observe_eq_some_iff : entry.observe time = some (data, expiration) ↔
    entry = (some data, expiration) ∧ Alive time expiration := by
  obtain ⟨found, e⟩ := entry
  rw [observe]
  split
  · next halive =>
      cases found with
      | none => simp
      | some d =>
          simp only [Option.map_some, Option.some.injEq, Prod.mk.injEq]
          refine ⟨fun h => ⟨h, h.2 ▸ halive⟩, fun h => h.1⟩
  · next hdead =>
      refine ⟨fun h => (by cases h), ?_⟩
      rintro ⟨hentry, halive⟩
      rw [Prod.mk.injEq] at hentry
      exact absurd (hentry.2 ▸ halive) hdead

theorem observe_none : Entry.observe time (none, expiration) = none := by
  rw [observe]
  split <;> rfl

theorem observe_of_past {e : Int} (found : Option Data) (h : e ≤ time) :
    Entry.observe time (found, some e) = none := by
  rw [observe, if_neg]
  intro halive
  exact absurd (halive e rfl) (Int.not_lt.mpr h)

end Entry

/-! ## What is exported -/

/-- A memory of the program: its expirations are of type `Long`. -/
structure TimedMemory where
  memory : Memory
  longTimes : memory.LongTimes

/-- A memory that a run of a store reaches. -/
def StoreEvent.reached (P : StorePlatform) (impl : Implementation) (history : List StoreEvent) :
    TimedMemory :=
  ⟨after P impl .empty history, longTimes_after P impl history⟩

/-- The times of an export and of the import that follows. -/
structure Moments where
  exported : Int
  imported : Int
  exported_nonneg : 0 ≤ exported
  exported_le : exported ≤ imported
  isLong_imported : isLong imported = true

/-- What `pttl` answers for an expiration. -/
def lifetime (now : Int) : Option Int → Int
  | some e => if wrapLong (e - now) < 0 then -1 else wrapLong (e - now)
  | none => -1

/-- The time in the line of a key with that expiration. -/
def exportedTime (now : Int) (expiration : Option Int) : Int :=
  (expiresAt now (lifetime now expiration)).1

/-- The line of a key. -/
def lineOf (P : NdJsonPlatform) (now : Int) (key : Str) (expiration : Option Int) (value : Value) :
    JsValue :=
  Json.obj [("k", .string key), ("v", (toJson P value).2),
    ("t", Json.long (expiresAt now (lifetime now expiration))),
    ("w", .string (toJson P value).1.toList)]

section Times

variable {now e : Int}

theorem exportedTime_none : exportedTime now none = -1 := rfl

theorem exportedTime_of_le (hnow : 0 ≤ now) (hle : now ≤ e) (he : isLong e = true) :
    exportedTime now (some e) = e := by
  have hlong : isLong (e - now) = true := by
    rw [isLong, Bool.and_eq_true, decide_eq_true_eq, decide_eq_true_eq] at he ⊢
    omega
  rw [exportedTime, lifetime, wrapLong_of_isLong hlong, if_neg (by omega), expiresAt,
    if_neg (by omega)]
  show wrapLong (now + (e - now)) = e
  rw [add_sub_cancel, wrapLong_of_isLong he]

/-- A key whose time is past is exported as one without expiration. The difference
of the times can only leave the range of a `Long` when the key expired before 1970. -/
theorem exportedTime_of_lt (hnow : isLong now = true) (hlt : e < now) (he : isLong e = true) :
    exportedTime now (some e) ≤ -1 := by
  rw [exportedTime, lifetime]
  split
  · exact Int.le_refl _
  · next hwrapped =>
      rw [expiresAt, if_neg (by omega)]
      show wrapLong (now + wrapLong (e - now)) ≤ -1
      have hsum : wrapLong (now + wrapLong (e - now)) = e := by
        rw [wrapLong, wrapLong, Int.add_bmod_bmod, add_sub_cancel]
        exact wrapLong_of_isLong he
      rw [hsum]
      by_contra hpositive
      have hlong : isLong (e - now) = true := by
        rw [isLong, Bool.and_eq_true, decide_eq_true_eq, decide_eq_true_eq] at he hnow ⊢
        omega
      rw [wrapLong_of_isLong hlong] at hwrapped
      omega

end Times

section Export

variable {P : NdJsonPlatform} {key : Str} {memory : Memory} {now : Int}

theorem pttl_apply : RedisLike.pttl now key memory =
    (.ok (lifetime now (memory.expiration? key)), memory) := by
  have hget : getExpiration key memory = (.ok (memory.expiration? key), memory) := rfl
  rw [RedisLike.pttl, bind_of_ok hget]
  cases memory.expiration? key with
  | none => rfl
  | some e => rfl

theorem exportLine_apply : exportLine P now key memory =
    (.ok ((memory.value? key).map (lineOf P now key (memory.expiration? key))), memory) := by
  rw [exportLine, bind_of_ok (get_eq rfl)]
  cases memory.value? key with
  | none => rfl
  | some value =>
      show (RedisLike.pttl now key >>= _) memory = _
      rw [bind_of_ok pttl_apply]
      rfl

variable {storageRoot : Str} {compiled : P.Pattern}

/-- The pattern of the root, as `keys` compiles it. -/
def compileRoot (P : NdJsonPlatform) (storageRoot : Str) : Option P.Pattern :=
  P.compile (replaceChar (rootPattern storageRoot) '*' ".*".toList)

/-- The keys of the store in which the pattern of the root is found. -/
def foundKeys (P : NdJsonPlatform) (compiled : P.Pattern) (memory : Memory) : Finset Str :=
  (memory.store.keys.filter (P.finds compiled)).toFinset

theorem mem_foundKeys : key ∈ foundKeys P compiled memory ↔
    P.finds compiled key = true ∧ memory.value? key ≠ none := by
  rw [foundKeys, List.mem_toFinset, List.mem_filter, and_comm, ← AList.mem_keys,
    ← AList.lookup_isSome, Option.isSome_iff_ne_none, Memory.value?]

theorem keys_apply
    (hcompiled : compileRoot P storageRoot = some compiled) :
    RedisLike.keys P.toStorePlatform (rootPattern storageRoot) memory =
      (.ok (foundKeys P compiled memory), memory) := by
  rw [compileRoot] at hcompiled
  rw [RedisLike.keys, hcompiled]
  rfl

/-- The lines of some keys. -/
def linesOf (P : NdJsonPlatform) (now : Int) (memory : Memory) (keys : List Str) : List JsValue :=
  keys.filterMap fun key =>
    (memory.value? key).map (lineOf P now key (memory.expiration? key))

theorem fullNdJsonExport_apply (hcompiled : compileRoot P storageRoot = some compiled) (now : Int)
    (memory : Memory) :
    fullNdJsonExport P storageRoot now memory =
      (.ok (linesOf P now memory (P.keyOrder (foundKeys P compiled memory))), memory) := by
  rw [fullNdJsonExport, bind_of_ok (keys_apply hcompiled),
    bind_of_ok (mapM_of_reads (fun _ => exportLine_apply) _)]
  show (Except.ok _, memory) = _
  rw [List.filterMap_map]
  rfl

end Export

end Otoroshi
