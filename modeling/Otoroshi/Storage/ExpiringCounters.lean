/-
# Counters that expire

In a Redis store a counter may carry the instant at which it expires. Past that instant
the commands take the counter for missing: it reads as zero, and an increment starts a
new one that lives forever until it is given a life time. A life time that is not
positive removes the counter at once.

`FollowsRedis` says this of a store, by the entry that was last written under each key.
`redis` is a store that is nothing but these entries.
-/

import Otoroshi.Storage.Counters

namespace Otoroshi

open Stateful

structure CounterEntry where
  value : Int
  expireAt : Option Int
  deriving DecidableEq

namespace CounterEntry

def lives (now : Int) (entry : CounterEntry) : Bool := entry.expireAt.all (now ≤ ·)

/-- What a command at an instant sees of what was written under its key. -/
def seen (now : Int) (entry : Option CounterEntry) : Option CounterEntry := entry.filter (lives now)

def number (entry : Option CounterEntry) : Int := (entry.map value).getD 0

theorem lives_iff {now : Int} {entry : CounterEntry} :
    lives now entry = true ↔ ∀ t, entry.expireAt = some t → now ≤ t := by
  rw [lives, Option.all_eq_true]
  simp only [decide_eq_true_eq]

theorem seen_eq_some_iff {now : Int} {entry : Option CounterEntry} {e : CounterEntry} :
    seen now entry = some e ↔ entry = some e ∧ ∀ t, e.expireAt = some t → now ≤ t := by
  rw [seen, Option.filter_eq_some_iff, lives_iff]

/-- The answer of `pttl`. -/
def timeToLive (now : Int) : Option CounterEntry → Int
  | none => -2
  | some entry =>
      match entry.expireAt with
      | none => -1
      | some expireAt => expireAt - now

/-- What `expire` makes of an entry. -/
def limited (now seconds : Int) (entry : Option CounterEntry) : Option CounterEntry :=
  if seconds ≤ 0 then none else entry.map ({ · with expireAt := some (now + seconds * 1000) })

end CounterEntry

open CounterEntry

namespace CounterStore

variable {σ : Type}

/-- The commands of the store are those of Redis on its entries. A command that fails
changes none. -/
structure FollowsRedis (P : StorePlatform) (store : CounterStore σ)
    (entries : σ → Str → Option CounterEntry) : Prop where
  get : ∀ now key state, entries (store.get now key state).2 = entries state
  get_ok : ∀ now key state bs after n, store.get now key state = (.ok bs, after) →
    number P bs = .ok n → n = CounterEntry.number (seen now (entries state key))
  incrby_ok : ∀ now key increment state n after,
    store.incrby now key increment state = (.ok n, after) →
      n = CounterEntry.number (seen now (entries state key)) + increment ∧ isLong n = true ∧
        entries after = Function.update (entries state) key
          (some ⟨n, (seen now (entries state key)).bind expireAt⟩)
  incrby_error : ∀ now key increment state e after,
    store.incrby now key increment state = (.error e, after) → entries after = entries state
  pttl : ∀ now key state, entries (store.pttl now key state).2 = entries state
  pttl_ok : ∀ now key state ttl after, store.pttl now key state = (.ok ttl, after) →
    ttl = timeToLive now (seen now (entries state key))
  expire_ok : ∀ now key seconds state answer after,
    store.expire now key seconds state = (.ok answer, after) →
      entries after =
        Function.update (entries state) key (limited now seconds (seen now (entries state key)))
  expire_error : ∀ now key seconds state e after,
    store.expire now key seconds state = (.error e, after) → entries after = entries state

variable {P : StorePlatform} {store : CounterStore σ} {entries : σ → Str → Option CounterEntry}
  {state after : σ} {key other : Str} {now n increment seconds : Int}

/-- A read changes no entry. -/
theorem FollowsRedis.count (h : store.FollowsRedis P entries) (now : Int) (key : Str) (state : σ) :
    entries (store.count P now key state).2 = entries state := by
  have hget := h.get now key state
  rcases hread : store.get now key state with ⟨e | bs, after⟩
  · rw [hread] at hget
    simp only [CounterStore.count, bind, hread]
    exact hget
  · rw [hread] at hget
    rw [CounterStore.count, bind_of_ok hread]
    exact hget

theorem FollowsRedis.count_ok (h : store.FollowsRedis P entries)
    (hcount : store.count P now key state = (.ok n, after)) :
    n = CounterEntry.number (seen now (entries state key)) := by
  obtain ⟨bs, read, hread, hnumber⟩ := exists_of_bind hcount
  rw [Stateful.ofExcept, Prod.mk.injEq] at hnumber
  exact h.get_ok _ _ _ _ _ _ hread hnumber.1

/-- A command only changes the entry under its own key. -/
theorem FollowsRedis.keeps_incrby (h : store.FollowsRedis P entries)
    (holds : Option CounterEntry → Prop) (hne : other ≠ key) (now increment : Int) :
    Keeps (fun state => holds (entries state other)) (store.incrby now key increment) := by
  intro state hstate
  rcases hrun : store.incrby now key increment state with ⟨e | n, after⟩
  · rw [h.incrby_error _ _ _ _ _ _ hrun]
    exact hstate
  · rw [(h.incrby_ok _ _ _ _ _ _ hrun).2.2, Function.update_of_ne hne]
    exact hstate

theorem FollowsRedis.keeps_expire (h : store.FollowsRedis P entries)
    (holds : Option CounterEntry → Prop) (hne : other ≠ key) (now seconds : Int) :
    Keeps (fun state => holds (entries state other)) (store.expire now key seconds) := by
  intro state hstate
  rcases hrun : store.expire now key seconds state with ⟨e | n, after⟩
  · rw [h.expire_error _ _ _ _ _ _ hrun]
    exact hstate
  · rw [h.expire_ok _ _ _ _ _ _ hrun, Function.update_of_ne hne]
    exact hstate

theorem FollowsRedis.keeps_pttl (h : store.FollowsRedis P entries)
    (holds : Option CounterEntry → Prop) (now : Int) (key : Str) :
    Keeps (fun state => holds (entries state other)) (store.pttl now key) := by
  intro state hstate
  rw [h.pttl]
  exact hstate

/-- What every entry that an increment leaves keeps. -/
theorem FollowsRedis.keeps_incrby_self (h : store.FollowsRedis P entries)
    {holds : Option CounterEntry → Prop}
    (hholds : ∀ entry n, holds entry → holds (some ⟨n, (seen now entry).bind expireAt⟩)) :
    Keeps (fun state => holds (entries state key)) (store.incrby now key increment) := by
  intro state hstate
  rcases hrun : store.incrby now key increment state with ⟨e | n, after⟩
  · rw [h.incrby_error _ _ _ _ _ _ hrun]
    exact hstate
  · rw [(h.incrby_ok _ _ _ _ _ _ hrun).2.2, Function.update_self]
    exact hholds _ n hstate

theorem FollowsRedis.keeps_expire_self (h : store.FollowsRedis P entries)
    {holds : Option CounterEntry → Prop}
    (hholds : ∀ entry, holds entry → holds (limited now seconds (seen now entry))) :
    Keeps (fun state => holds (entries state key)) (store.expire now key seconds) := by
  intro state hstate
  rcases hrun : store.expire now key seconds state with ⟨e | n, after⟩
  · rw [h.expire_error _ _ _ _ _ _ hrun]
    exact hstate
  · rw [h.expire_ok _ _ _ _ _ _ hrun, Function.update_self]
    exact hholds _ hstate

/-- A counter is counted and, if it would live forever, given a life time, whatever is
answered in the end. -/
theorem keeps_countAndLimit {α : Type} {keeps : σ → Prop} {times : BumpTimes}
    (hincrby : Keeps keeps (store.incrby times.incrby key increment))
    (hpttl : Keeps keeps (store.pttl times.pttl key))
    (hexpire : Keeps keeps (store.expire times.expire key seconds))
    (forever living : Int → Int → α) :
    Keeps keeps (do
      let calls ← store.incrby times.incrby key increment
      let ttl ← store.pttl times.pttl key
      if ttl = -1 then
        let _ ← store.expire times.expire key seconds
        pure (forever calls ttl)
      else pure (living calls ttl)) := by
  apply keeps_bind hincrby
  intro calls _ _ _
  apply keeps_bind hpttl
  intro ttl _ _ _
  split
  · apply keeps_bind hexpire
    intro _ _ _ _
    exact keeps_pure _
  · exact keeps_pure _

theorem FollowsRedis.keeps_bump (h : store.FollowsRedis P entries)
    (holds : Option CounterEntry → Prop) (hne : other ≠ key) (times : BumpTimes)
    (increment seconds : Int) :
    Keeps (fun state => holds (entries state other)) (store.bump times key increment seconds) :=
  keeps_countAndLimit (h.keeps_incrby holds hne _ _) (h.keeps_pttl holds _ _)
    (h.keeps_expire holds hne _ _) (fun calls _ => calls) (fun calls _ => calls)

/-! ## A store of entries -/

/-- The store that is the entries. -/
def redis (P : StorePlatform) : CounterStore (Str → Option CounterEntry) where
  get now key entries :=
    (.ok ((seen now (entries key)).map fun entry => P.encode (longText entry.value)), entries)
  incrby now key increment entries :=
    let entry := seen now (entries key)
    let n := CounterEntry.number entry + increment
    if isLong n then (.ok n, Function.update entries key (some ⟨n, entry.bind expireAt⟩))
    else (.error .numberFormat, entries)
  pttl now key entries := (.ok (timeToLive now (seen now (entries key))), entries)
  expire now key seconds entries :=
    (.ok (seen now (entries key)).isSome,
      Function.update entries key (limited now seconds (seen now (entries key))))

theorem redis_followsRedis (hP : P.Standard) : (redis P).FollowsRedis P id where
  get _ _ _ := rfl
  get_ok := by
    intro now key entries bs after n hget hnumber
    rw [redis, Prod.mk.injEq, Except.ok.injEq] at hget
    rw [← hget.1] at hnumber
    cases hseen : seen now (entries key) with
    | none =>
        rw [hseen] at hnumber
        rw [id, hseen]
        exact (Except.ok.inj hnumber).symm
    | some entry =>
        rw [hseen] at hnumber
        rw [id, hseen]
        exact (number_encode_eq hP hnumber).symm
  incrby_ok := by
    intro now key increment entries n after hincrby
    simp only [redis] at hincrby
    split at hincrby
    case isTrue hlong =>
      cases hincrby
      exact ⟨rfl, hlong, rfl⟩
    case isFalse hlong => cases hincrby
  incrby_error := by
    intro now key increment entries e after hincrby
    simp only [redis] at hincrby
    split at hincrby
    case isTrue hlong => cases hincrby
    case isFalse hlong =>
      cases hincrby
      rfl
  pttl _ _ _ := rfl
  pttl_ok := by
    intro now key entries ttl after hpttl
    cases hpttl
    rfl
  expire_ok := by
    intro now key seconds entries answer after hexpire
    cases hexpire
    rfl
  expire_error := by
    intro now key seconds entries e after hexpire
    cases hexpire

end CounterStore

end Otoroshi
