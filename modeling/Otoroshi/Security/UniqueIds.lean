/-
# Ids that are taken apart, and ids that repeat

A node counts its ids along every run, so the counter of an id is what is left of the number of
ids before it when it is divided by 1024. Ids of different nodes differ in their generator ids.
Two ids of one node are the same if the clock showed the same and the counter has come round in
between, however long that took.

`distinct_iff` says which runs return distinct ids that can be taken apart.
-/

import Otoroshi.Security.IdGenerator

namespace Otoroshi

namespace IdGenerator

open BitFields

/-! ## Taking an id apart -/

def timestampOf (value : Word) : Word := value.sshiftRight 22 + minus

def generatorOf (value : Word) : Word := (value >>> 10) &&& 4095

def counterOf (value : Word) : Word := value &&& counterMask

/-- The timestamp fits the bits that are left for it. -/
def InRange (timestamp : Word) : Prop :=
  -2 ^ 41 ≤ (timestamp - minus).toInt ∧ (timestamp - minus).toInt < 2 ^ 41

section Pack

variable {generatorId timestamp counter : Word}

theorem pack_eq_low : pack generatorId timestamp counter =
    (((timestamp - minus) <<< 12 ||| generatorId) <<< 10) ||| counter := by
  rw [pack, BitVec.shiftLeft_or_distrib, ← BitVec.shiftLeft_add]

theorem pack_eq_high : pack generatorId timestamp counter =
    ((timestamp - minus) <<< 22) ||| (generatorId <<< 10 ||| counter) := by
  rw [pack, BitVec.or_assoc]

theorem counterOf_pack (hcounter : counter.toNat < 1024) :
    counterOf (pack generatorId timestamp counter) = counter := by
  rw [pack_eq_low]
  exact and_ones_of_shiftLeft_or (l := 10) hcounter (by decide)

theorem generatorOf_pack (hgenerator : generatorId.toNat ≤ 1024)
    (hcounter : counter.toNat < 1024) :
    generatorOf (pack generatorId timestamp counter) = generatorId := by
  have hword := @toNat_shiftLeft_or 64 12 (timestamp - minus) generatorId (by omega) (by decide)
  have hshift := @toNat_ushiftRight_of_shiftLeft_or 64 10
    ((timestamp - minus) <<< 12 ||| generatorId) counter hcounter (by decide)
  have hmask := toNat_and_ones (pack generatorId timestamp counter >>> 10) (l := 12) (by decide)
  rw [← pack_eq_low] at hshift
  apply BitVec.eq_of_toNat_eq
  rw [generatorOf]
  exact hmask.trans (by omega)

theorem timestampOf_pack_iff (hgenerator : generatorId.toNat ≤ 1024)
    (hcounter : counter.toNat < 1024) :
    timestampOf (pack generatorId timestamp counter) = timestamp ↔ InRange timestamp := by
  have hlow : (generatorId <<< 10 ||| counter).toNat < 2 ^ 22 := by
    have hfields := @toNat_shiftLeft_or 64 10 generatorId counter hcounter (by decide)
    omega
  have hread := @sshiftRight_of_shiftLeft_or_eq_iff 64 22 (timestamp - minus) _ hlow (by decide)
  rw [← pack_eq_high] at hread
  rw [timestampOf, InRange]
  refine Iff.trans ⟨fun h => ?_, fun h => ?_⟩ hread
  · exact (BitVec.add_sub_cancel _ minus).symm.trans (congrArg (· - minus) h)
  · rw [h, BitVec.sub_add_cancel]

end Pack

/-! ## The texts of ids -/

section Texts

variable {m n : Int} {rest other : Str}

/-- Nothing, or what comes behind a dash. -/
def IsTail (rest : Str) : Prop := rest = [] ∨ ∃ number, rest = '-' :: number

theorem takeWhile_digits (a : Nat) (h : IsTail rest) :
    (Nat.toDigits 10 a ++ rest).takeWhile Char.isDigit = Nat.toDigits 10 a := by
  have hdigits : ∀ c ∈ Nat.toDigits 10 a, c.isDigit = true := fun c hc =>
    Nat.isDigit_of_mem_toDigits (by decide) (by decide) hc
  have hrest : rest.takeWhile Char.isDigit = [] := by
    rcases h with rfl | ⟨number, rfl⟩
    · rfl
    · rfl
  rw [List.takeWhile_append_of_pos hdigits, hrest, List.append_nil]

theorem digits_append_inj {a b : Nat} (hrest : IsTail rest) (hother : IsTail other)
    (h : Nat.toDigits 10 a ++ rest = Nat.toDigits 10 b ++ other) : a = b ∧ rest = other := by
  have hdigits : Nat.toDigits 10 a = Nat.toDigits 10 b := by
    rw [← takeWhile_digits a hrest, h, takeWhile_digits b hother]
  have hread := congrArg (parseDigits asciiDigit) hdigits
  rw [parseDigits_toDigits readsDigits_asciiDigit, parseDigits_toDigits readsDigits_asciiDigit,
    Option.some.injEq] at hread
  rw [hdigits] at h
  exact ⟨Int.ofNat.inj hread, List.append_cancel_left h⟩

theorem toDigits_ne_dash {a : Nat} {text : Str} : Nat.toDigits 10 a ++ rest ≠ '-' :: text := by
  intro h
  cases hdigits : Nat.toDigits 10 a with
  | nil => exact Nat.toDigits_ne_nil hdigits
  | cons c digits =>
      rw [hdigits, List.cons_append, List.cons.injEq] at h
      have hdigit := Nat.isDigit_of_mem_toDigits (b := 10) (n := a) (c := c) (by decide) (by decide)
        (by rw [hdigits]; exact List.mem_cons_self)
      rw [h.1] at hdigit
      exact absurd hdigit (by decide)

/-- A number is read off a text that goes on with a dash or not at all. -/
theorem longText_append_inj (hrest : IsTail rest) (hother : IsTail other)
    (h : longText m ++ rest = longText n ++ other) : m = n ∧ rest = other := by
  cases m with
  | ofNat a =>
      cases n with
      | ofNat b =>
          rw [Int.ofNat_eq_natCast, Int.ofNat_eq_natCast, longText_ofNat, longText_ofNat] at h
          obtain ⟨rfl, hsame⟩ := digits_append_inj hrest hother h
          exact ⟨rfl, hsame⟩
      | negSucc b =>
          rw [Int.ofNat_eq_natCast, longText_ofNat, longText_negSucc] at h
          exact absurd h toDigits_ne_dash
  | negSucc a =>
      cases n with
      | ofNat b =>
          rw [Int.ofNat_eq_natCast, longText_ofNat, longText_negSucc] at h
          exact absurd h.symm toDigits_ne_dash
      | negSucc b =>
          rw [longText_negSucc, longText_negSucc, List.cons_append, List.cons_append,
            List.cons.injEq] at h
          obtain ⟨hnumber, hsame⟩ := digits_append_inj hrest hother h.2
          exact ⟨congrArg Int.negSucc (Nat.succ.inj hnumber), hsame⟩

theorem Issued.isTail_appended (issued : Issued) : IsTail issued.appended := by
  rw [Issued.appended]
  cases issued.marked with
  | none => exact .inl rfl
  | some n => exact .inr ⟨_, rfl⟩

theorem Issued.marked_eq_of_appended_eq {first second : Issued}
    (h : first.appended = second.appended) : first.marked = second.marked := by
  rw [Issued.appended, Issued.appended] at h
  cases hfirst : first.marked with
  | none =>
      cases hsecond : second.marked with
      | none => rfl
      | some n =>
          rw [hfirst, hsecond] at h
          cases h
  | some m =>
      cases hsecond : second.marked with
      | none =>
          rw [hfirst, hsecond] at h
          cases h
      | some n =>
          rw [hfirst, hsecond] at h
          have htexts : longText m.toInt ++ [] = longText n.toInt ++ [] := by
            rw [List.append_nil, List.append_nil]
            exact (List.cons.inj h).2
          have hnumber := (longText_append_inj (.inl rfl) (.inl rfl) htexts).1
          rw [BitVec.toInt_inj.mp hnumber]

/-- Ids are the same if their numbers are. -/
theorem Issued.id_eq_iff {first second : Issued} :
    first.id = second.id ↔ first.value = second.value ∧ first.marked = second.marked := by
  refine ⟨fun h => ?_, fun h => ?_⟩
  · obtain ⟨hvalue, happended⟩ :=
      longText_append_inj first.isTail_appended second.isTail_appended h
    exact ⟨BitVec.toInt_inj.mp hvalue, marked_eq_of_appended_eq happended⟩
  · rw [Issued.id, Issued.id, Issued.appended, Issued.appended, h.1, h.2]

end Texts

/-! ## What a step keeps -/

section Steps

variable {generatorId prev timestamp : Word} {state : NodeState} {thread : Nat} {place : Place}

theorem counter_lt (word : Word) : (word &&& counterMask).toNat < 1024 := by
  have hmask := toNat_and_ones word (l := 10) (by decide)
  have hlt : word.toNat % 2 ^ 10 < 1024 := Nat.mod_lt _ (by decide)
  exact hmask ▸ hlt

/-- The counter goes on, and starts over behind 1023. -/
theorem counter_nextState (prev timestamp : Word) :
    (nextState prev timestamp &&& counterMask).toNat =
      ((prev &&& counterMask).toNat + 1) % 1024 := by
  have hprev := counter_lt prev
  obtain ⟨counter, hcounter⟩ : ∃ counter, counter = ((prev &&& counterMask) + 1) &&& counterMask :=
    ⟨_, rfl⟩
  have hnext : counter.toNat = ((prev &&& counterMask) + 1).toNat % 2 ^ 10 :=
    hcounter ▸ toNat_and_ones ((prev &&& counterMask) + 1) (l := 10) (by decide)
  have hword := @toNat_shiftLeft_or 64 12 timestamp counter (by omega) (by decide)
  have hmask := toNat_and_ones (timestamp <<< 12 ||| counter) (l := 10) (by decide)
  have hone : (1 : Word).toNat = 1 := rfl
  have hsum : ((prev &&& counterMask) + 1).toNat = (prev &&& counterMask).toNat + 1 := by
    rw [BitVec.toNat_add, hone]
    exact Nat.mod_eq_of_lt (by omega)
  rw [nextState, ← hcounter]
  exact hmask.trans (by omega)

/-- The counter is what is left of the number of ids, and the marks are counted. -/
structure NodeState.Counts (state : NodeState) : Prop where
  counter : (state.lastIdState &&& counterMask).toNat = (state.made + 1023) % 1024
  duplicates : state.duplicates = BitVec.ofNat 64 state.marks
  swapped : ∀ thread prev timestamp next number,
    state.threads thread = .swapped prev timestamp next number →
      (next &&& counterMask).toNat = number % 1024

/-- An id is made from what is noted beside it. -/
structure Issued.Accounts (generatorId : Word) (issued : Issued) : Prop where
  value : issued.value =
    pack generatorId issued.timestamp (BitVec.ofNat 64 (issued.number % 1024))
  marked : issued.marked = issued.mark.map fun mark => BitVec.ofNat 64 (mark + 1) + generatorId

theorem NodeState.counts_start : NodeState.start.Counts where
  counter := by decide
  duplicates := rfl
  swapped _ _ _ _ _ h := by cases h

theorem NodeState.Counts.goto (h : state.Counts)
    (hplace : ∀ prev timestamp next number, place = .swapped prev timestamp next number →
      (next &&& counterMask).toNat = number % 1024) (thread : Nat) :
    (state.goto thread place).Counts where
  counter := h.counter
  duplicates := h.duplicates
  swapped other prev timestamp next number hother := by
    by_cases hsame : other = thread
    · subst hsame
      exact hplace prev timestamp next number ((Function.update_self ..).symm.trans hother)
    · exact h.swapped other prev timestamp next number
        ((Function.update_of_ne hsame ..).symm.trans hother)

/-- The counter of the next id. -/
theorem NodeState.Counts.counter_next (h : state.Counts) (timestamp : Word) :
    (nextState state.lastIdState timestamp &&& counterMask).toNat = state.made % 1024 := by
  rw [counter_nextState, h.counter]
  omega

theorem NodeState.Counts.swap (h : state.Counts) (timestamp : Word) :
    (state.swap (nextState state.lastIdState timestamp)).Counts where
  counter := by
    have hnext := h.counter_next timestamp
    show (nextState state.lastIdState timestamp &&& counterMask).toNat = _
    rw [hnext]
    show state.made % 1024 = (state.made + 1 + 1023) % 1024
    omega
  duplicates := h.duplicates
  swapped := h.swapped

theorem NodeState.Counts.increment (h : state.Counts) : state.increment.Counts where
  counter := h.counter
  duplicates := by
    show state.duplicates + 1 = BitVec.ofNat 64 (state.marks + 1)
    rw [h.duplicates, BitVec.ofNat_add]
    rfl
  swapped := h.swapped

theorem ofNat_mod_of_toNat {word : Word} {n : Nat} (h : word.toNat = n) :
    word = BitVec.ofNat 64 n := by
  rw [← h, BitVec.ofNat_toNat, BitVec.setWidth_eq]

/-- Every id of a call is made from its timestamp and its place in the order of the ids. -/
theorem Issued.accounts_of_counter {next : Word} {number : Nat}
    (h : (next &&& counterMask).toNat = number % 1024) (mark : Option Nat) :
    Issued.Accounts generatorId ⟨pack generatorId timestamp (next &&& counterMask),
      mark.map fun mark => BitVec.ofNat 64 (mark + 1) + generatorId, timestamp, number, mark⟩ :=
  ⟨congrArg (pack generatorId timestamp) (ofNat_mod_of_toNat h), rfl⟩

/-- A step keeps count, and an id that it returns is made from what is noted beside it. -/
theorem NodeState.Counts.step_counts (h : state.Counts) (generatorId : Word) (thread : Nat)
    (action : Action) :
    (step generatorId thread action state).1.Counts ∧
      ∀ issued ∈ (step generatorId thread action state).2, issued.Accounts generatorId := by
  have hgoto : ∀ {after : NodeState} {place : Place}, after.Counts →
      (∀ prev timestamp next number, place ≠ .swapped prev timestamp next number) →
        (after.goto thread place).Counts := fun hafter hplace =>
    hafter.goto (fun prev timestamp next number hsame =>
      absurd hsame (hplace prev timestamp next number)) thread
  unfold step
  split
  · -- a call begins
    split
    · exact ⟨h, by simp⟩
    · exact ⟨hgoto h (by simp), by simp⟩
  · -- the last id is read
    exact ⟨hgoto h (by simp), by simp⟩
  · -- the clock is read
    split
    · exact ⟨hgoto h (by simp), by simp⟩
    · exact ⟨hgoto h (by simp), by simp⟩
  · -- the word is set, or the call starts over
    rename_i kind prev timestamp hplace
    split
    · rename_i hprev
      have hnext : (nextState prev timestamp &&& counterMask).toNat = state.made % 1024 :=
        hprev ▸ h.counter_next timestamp
      have hswap : (state.swap (nextState prev timestamp)).Counts := hprev ▸ h.swap timestamp
      cases kind with
      | nextId =>
          refine ⟨hgoto hswap (by simp), ?_⟩
          rintro issued ⟨⟩
          exact Issued.accounts_of_counter hnext none
      | nextIdStr =>
          refine ⟨hswap.goto ?_ thread, by simp⟩
          rintro prev' timestamp' next' number' hsame
          cases hsame
          exact hnext
    · exact ⟨hgoto h (by simp), by simp⟩
  · -- the id is returned, with a mark or without
    rename_i prev timestamp next number hplace
    have hnext := h.swapped thread prev timestamp next number hplace
    split
    · refine ⟨hgoto h.increment (by simp), ?_⟩
      rintro issued ⟨⟩
      rw [h.increment.duplicates]
      exact Issued.accounts_of_counter hnext (some state.marks)
    · refine ⟨hgoto h (by simp), ?_⟩
      rintro issued ⟨⟩
      exact Issued.accounts_of_counter hnext none
  · exact ⟨h, by simp⟩

end Steps

/-! ## Two ids -/

section Compare

variable {Node : Type}

/-- One node makes two ids at one reading of the clock, with a multiple of 1024 ids from the one
to the other, and marks none of them, or both at the same count. -/
def Collides (first second : Node × Issued) : Prop :=
  first.1 = second.1 ∧ first.2.timestamp = second.2.timestamp ∧
    first.2.number % 1024 = second.2.number % 1024 ∧
    first.2.mark.map (· % 2 ^ 64) = second.2.mark.map (· % 2 ^ 64)

/-- What an id was made from is read off it. -/
def Decomposes (generatorId : Word) (issued : Issued) : Prop :=
  timestampOf issued.value = issued.timestamp ∧ generatorOf issued.value = generatorId ∧
    counterOf issued.value = BitVec.ofNat 64 (issued.number % 1024)

variable {generatorId : Word} {issued : Issued}

theorem toNat_counter (number : Nat) :
    (BitVec.ofNat 64 (number % 1024)).toNat = number % 1024 := by
  rw [BitVec.toNat_ofNat]
  exact Nat.mod_eq_of_lt (by omega)

theorem toNat_counter_lt (number : Nat) : (BitVec.ofNat 64 (number % 1024)).toNat < 1024 := by
  rw [toNat_counter]
  exact Nat.mod_lt number (by decide)

/-- Only a timestamp that does not fit is lost. -/
theorem Issued.Accounts.decomposes_iff (h : issued.Accounts generatorId)
    (hgenerator : generatorId.toNat ≤ 1024) :
    Decomposes generatorId issued ↔ InRange issued.timestamp := by
  have hcounter := toNat_counter_lt issued.number
  rw [Decomposes, h.value, generatorOf_pack hgenerator hcounter, counterOf_pack hcounter,
    timestampOf_pack_iff hgenerator hcounter]
  exact ⟨fun h => h.1, fun h => ⟨h, rfl, rfl⟩⟩

/-- The numbers behind the dash are the same if as many ids were marked before, up to a round of
the words. -/
theorem marks_eq_iff (generatorId : Word) (first second : Option Nat) :
    (first.map fun mark => BitVec.ofNat 64 (mark + 1) + generatorId) =
        (second.map fun mark => BitVec.ofNat 64 (mark + 1) + generatorId) ↔
      first.map (· % 2 ^ 64) = second.map (· % 2 ^ 64) := by
  have hone : ∀ m n : Nat,
      BitVec.ofNat 64 (m + 1) + generatorId = BitVec.ofNat 64 (n + 1) + generatorId ↔
        m % 2 ^ 64 = n % 2 ^ 64 := by
    intro m n
    rw [BitVec.add_left_inj, BitVec.ofNat_add, BitVec.ofNat_add, BitVec.add_left_inj,
      ← BitVec.toNat_inj, BitVec.toNat_ofNat, BitVec.toNat_ofNat]
  cases first with
  | none =>
      cases second with
      | none => exact iff_of_true rfl rfl
      | some n => exact iff_of_false (Option.some_ne_none _).symm (Option.some_ne_none _).symm
  | some m =>
      cases second with
      | none => exact iff_of_false (Option.some_ne_none _) (Option.some_ne_none _)
      | some n =>
          rw [Option.map_some, Option.map_some, Option.map_some, Option.map_some,
            Option.some.injEq, Option.some.injEq]
          exact hone m n

/-- Ids that can be taken apart are the same exactly if they collide. -/
theorem id_eq_iff_collides (generators : Generators Node) {first second : Node × Issued}
    (hfirst : first.2.Accounts (generators.id first.1))
    (hsecond : second.2.Accounts (generators.id second.1))
    (hdecomposes : Decomposes (generators.id first.1) first.2)
    (hdecomposes' : Decomposes (generators.id second.1) second.2) :
    first.2.id = second.2.id ↔ Collides first second := by
  rw [Issued.id_eq_iff, Collides]
  refine ⟨fun ⟨hvalue, hmarked⟩ => ?_, fun ⟨hnode, htimestamp, hnumber, hmark⟩ => ?_⟩
  · have htimestamp := congrArg timestampOf hvalue
    have hgenerator := congrArg generatorOf hvalue
    have hcounter := congrArg (fun value => (counterOf value).toNat) hvalue
    rw [hdecomposes.1, hdecomposes'.1] at htimestamp
    rw [hdecomposes.2.1, hdecomposes'.2.1] at hgenerator
    simp only [hdecomposes.2.2, hdecomposes'.2.2, toNat_counter] at hcounter
    rw [hfirst.marked, hsecond.marked, hgenerator] at hmarked
    exact ⟨generators.id_injective hgenerator, htimestamp, hcounter,
      (marks_eq_iff _ _ _).mp hmarked⟩
  · refine ⟨?_, ?_⟩
    · rw [hfirst.value, hsecond.value, hnode, htimestamp, hnumber]
    · rw [hfirst.marked, hsecond.marked, hnode]
      exact (marks_eq_iff _ _ _).mpr hmark

end Compare

/-! ## Runs -/

section Runs

variable {Node : Type} [DecidableEq Node] {generators : Generators Node} {system : System Node}

/-- Every node counts its ids, and every id that was returned is made from what is noted. -/
structure System.Accounts (generators : Generators Node) (system : System Node) : Prop where
  counts : ∀ node, (system.nodes node).Counts
  returned : ∀ result ∈ system.returned, result.2.Accounts (generators.id result.1)

omit [DecidableEq Node] in
theorem System.accounts_start : (System.start : System Node).Accounts generators where
  counts _ := NodeState.counts_start
  returned _ h := absurd h List.not_mem_nil

theorem System.Accounts.run (h : system.Accounts generators) (event : Event Node) :
    (generators.run event system).Accounts generators := by
  obtain ⟨hcounts, hissued⟩ := (h.counts event.node).step_counts (generators.id event.node)
    event.thread event.action
  refine ⟨fun node => ?_, fun result hresult => ?_⟩
  · by_cases hnode : node = event.node
    · subst hnode
      simpa only [Generators.run, Function.update_self] using hcounts
    · simpa only [Generators.run, Function.update_of_ne hnode] using h.counts node
  · rcases List.mem_append.mp hresult with hold | hnew
    · exact h.returned result hold
    · rw [Option.mem_toList, Option.map_eq_some_iff] at hnew
      obtain ⟨issued, hsome, rfl⟩ := hnew
      exact hissued issued hsome

theorem System.Accounts.runAll (h : system.Accounts generators) (events : List (Event Node)) :
    (runAll generators.run system events).Accounts generators := by
  induction events generalizing system with
  | nil => exact h
  | cons event events ih => exact ih (h.run event)

/-- The ids of a run are distinct and can be taken apart exactly if every timestamp fits and no
two of them collide. -/
theorem distinct_iff (generators : Generators Node) (events : List (Event Node)) :
    (((generators.returned events).map fun result => result.2.id).Nodup ∧
        ∀ result ∈ generators.returned events, Decomposes (generators.id result.1) result.2) ↔
      (generators.returned events).Pairwise (fun first second => ¬ Collides first second) ∧
        ∀ result ∈ generators.returned events, InRange result.2.timestamp := by
  have haccounts : ∀ result ∈ generators.returned events,
      result.2.Accounts (generators.id result.1) :=
    (System.accounts_start.runAll events).returned
  have hdecomposes : (∀ result ∈ generators.returned events,
      Decomposes (generators.id result.1) result.2) ↔
        ∀ result ∈ generators.returned events, InRange result.2.timestamp :=
    forall₂_congr fun result hresult =>
      (haccounts result hresult).decomposes_iff (generators.id_le result.1)
  rw [← hdecomposes]
  refine and_congr_left fun hapart => ?_
  rw [List.nodup_iff_pairwise_ne, List.pairwise_map]
  exact List.Pairwise.iff_of_mem fun {first second} hfirst hsecond =>
    not_congr (id_eq_iff_collides generators (haccounts first hfirst) (haccounts second hsecond)
      (hapart first hfirst) (hapart second hsecond))

end Runs

/-! ## 1025 ids in one millisecond -/

section Solo

/-- One call of `nextId` that nothing comes between. -/
def soloCall (timestamp : Word) : List (Event Unit) :=
  [⟨(), 0, .call .nextId⟩, ⟨(), 0, .load⟩, ⟨(), 0, .clock timestamp⟩, ⟨(), 0, .compareAndSet⟩]

/-- As many calls while the clock shows the same. -/
def soloCalls (timestamp : Word) : Nat → List (Event Unit)
  | 0 => []
  | calls + 1 => soloCalls timestamp calls ++ soloCall timestamp

/-- The id that a call returns then, with the number of ids before it. -/
def soloIssued (generatorId timestamp : Word) (number : Nat) : Issued :=
  ⟨pack generatorId timestamp (BitVec.ofNat 64 (number % 1024)), none, timestamp, number, none⟩

variable {generators : Generators Unit} {system : System Unit} {timestamp : Word} {calls : Nat}

/-- So many calls have returned, and another one can begin. -/
structure Solo (generators : Generators Unit) (timestamp : Word) (calls : Nat)
    (system : System Unit) : Prop where
  counts : (system.nodes ()).Counts
  idle : (system.nodes ()).threads 0 = .idle
  made : (system.nodes ()).made = calls
  inTime : isBehind timestamp (system.nodes ()).lastIdState = false
  returned : system.returned =
    (List.range calls).map fun number => ((), soloIssued (generators.id ()) timestamp number)

theorem NodeState.threads_goto (state : NodeState) (thread : Nat) (place : Place) :
    (state.goto thread place).threads thread = place :=
  Function.update_self ..

theorem run_of_step {thread : Nat} {action : Action} {state after : NodeState}
    {returned : List (Unit × Issued)} {issued : Option Issued}
    (h : step (generators.id ()) thread action state = (after, issued)) :
    generators.run ⟨(), thread, action⟩ ⟨fun _ => state, returned⟩ =
      ⟨fun _ => after, returned ++ (issued.map fun issued => ((), issued)).toList⟩ := by
  rw [Generators.run, h]
  congr 1

section Alone

variable {state : NodeState} {generatorId prev : Word} {thread : Nat}

theorem step_call (hplace : state.threads thread = .idle)
    (haccepted : (1024 : Word).slt generatorId = false) :
    step generatorId thread (.call .nextId) state =
      (state.goto thread (.looping .nextId), none) := by
  simp only [step, hplace, haccepted, Bool.false_eq_true, if_false]

theorem step_load (hplace : state.threads thread = .looping .nextId) :
    step generatorId thread .load state =
      (state.goto thread (.loaded .nextId state.lastIdState), none) := by
  simp only [step, hplace]

theorem step_clock (hplace : state.threads thread = .loaded .nextId prev)
    (hinTime : isBehind timestamp prev = false) :
    step generatorId thread (.clock timestamp) state =
      (state.goto thread (.timed .nextId prev timestamp), none) := by
  simp only [step, hplace, hinTime, Bool.false_eq_true, and_false, if_false]

theorem step_compareAndSet
    (hplace : state.threads thread = .timed .nextId state.lastIdState timestamp)
    (hcounts : state.Counts) :
    step generatorId thread .compareAndSet state =
      ((state.swap (nextState state.lastIdState timestamp)).goto thread .idle,
        some (soloIssued generatorId timestamp state.made)) := by
  simp only [step, hplace, if_true, soloIssued,
    ofNat_mod_of_toNat (hcounts.counter_next timestamp)]

end Alone

/-- A call that nothing comes between returns an id, and leaves the next call what it needs. -/
theorem Solo.soloCall (h : Solo generators timestamp calls system)
    (haccepted : (1024 : Word).slt (generators.id ()) = false)
    (hagain : ∀ prev, isBehind timestamp (nextState prev timestamp) = false) :
    Solo generators timestamp (calls + 1)
      (runAll generators.run system (soloCall timestamp)) := by
  obtain ⟨nodes, returned⟩ := system
  obtain ⟨hcounts, hidle, hmade, hinTime, hreturned⟩ := h
  let state := nodes ()
  let looping := state.goto 0 (.looping .nextId)
  let loaded := looping.goto 0 (.loaded .nextId state.lastIdState)
  let timed := loaded.goto 0 (.timed .nextId state.lastIdState timestamp)
  let after := (timed.swap (nextState state.lastIdState timestamp)).goto 0 .idle
  have htimed : timed.Counts :=
    ((hcounts.goto (fun _ _ _ _ h => by cases h) 0).goto (fun _ _ _ _ h => by cases h) 0).goto
      (fun _ _ _ _ h => by cases h) 0
  have hcall : step (generators.id ()) 0 (.call .nextId) state = (looping, none) :=
    step_call hidle haccepted
  have hload : step (generators.id ()) 0 .load looping = (loaded, none) :=
    step_load (NodeState.threads_goto ..)
  have hclock : step (generators.id ()) 0 (.clock timestamp) loaded = (timed, none) :=
    step_clock (NodeState.threads_goto ..) hinTime
  have hset : step (generators.id ()) 0 .compareAndSet timed =
      (after, some (soloIssued (generators.id ()) timestamp timed.made)) :=
    step_compareAndSet (NodeState.threads_goto ..) htimed
  have hrun : runAll generators.run ⟨nodes, returned⟩ (IdGenerator.soloCall timestamp) =
      ⟨fun _ => after, returned ++ [((), soloIssued (generators.id ()) timestamp timed.made)]⟩ := by
    have hnodes : nodes = fun _ => state := rfl
    rw [hnodes, IdGenerator.soloCall, runAll, List.foldl_cons, List.foldl_cons, List.foldl_cons,
      List.foldl_cons, List.foldl_nil, run_of_step hcall, run_of_step hload, run_of_step hclock,
      run_of_step hset]
    simp
  rw [hrun]
  exact {
    counts := (htimed.swap timestamp).goto (fun _ _ _ _ h => by cases h) 0
    idle := NodeState.threads_goto ..
    made := congrArg (· + 1) hmade
    inTime := hagain state.lastIdState
    returned := by
      have hmade' : timed.made = calls := hmade
      have hreturned' : returned = _ := hreturned
      rw [hmade', hreturned', List.range_succ, List.map_append]
      rfl }

theorem solo_soloCalls (haccepted : (1024 : Word).slt (generators.id ()) = false)
    (hstart : isBehind timestamp (-1) = false)
    (hagain : ∀ prev, isBehind timestamp (nextState prev timestamp) = false) (calls : Nat) :
    Solo generators timestamp calls
      (runAll generators.run System.start (soloCalls timestamp calls)) := by
  induction calls with
  | zero => exact ⟨NodeState.counts_start, rfl, rfl, hstart, rfl⟩
  | succ calls ih =>
      rw [soloCalls, runAll_append]
      exact ih.soloCall haccepted hagain

/-- A clock that has not moved is not behind. -/
theorem isBehind_nextState (prev timestamp : Word) (hlow : 0 ≤ timestamp.toInt)
    (hhigh : timestamp.toInt < 2 ^ 51) :
    isBehind timestamp (nextState prev timestamp) = false := by
  obtain ⟨counter, hcounter⟩ : ∃ counter, counter = ((prev &&& counterMask) + 1) &&& counterMask :=
    ⟨_, rfl⟩
  have hlt : counter.toNat < 2 ^ 12 := by
    have hcount := counter_lt ((prev &&& counterMask) + 1)
    rw [hcounter]
    omega
  have hread := (@sshiftRight_of_shiftLeft_or_eq_iff 64 12 timestamp counter hlt
    (by decide)).mpr ⟨by omega, hhigh⟩
  rw [isBehind, nextState, ← hcounter, hread]
  exact decide_eq_false (Int.lt_irrefl _)

/-- One node, with a generator id of 1. -/
def oneNode : Generators Unit := ⟨fun _ => 1, fun _ => by decide, fun _ _ _ => rfl⟩

/-- The calls of one thread in one millisecond: the ids before the first and before the last of
1025 are a round of the counter apart. -/
theorem not_nodup_ids_soloCalls :
    ¬ ((oneNode.returned (soloCalls 1700000000000 1025)).map fun result => result.2.id).Nodup := by
  have hsolo := @solo_soloCalls oneNode 1700000000000 rfl rfl
    (fun prev => isBehind_nextState prev _ (by decide) (by decide)) 1025
  intro hnodup
  rw [Generators.returned, hsolo.returned, List.map_map, List.nodup_iff_pairwise_ne,
    List.pairwise_map] at hnodup
  have hlt : 0 < 1024 := by decide
  have hids := List.pairwise_iff_getElem.mp hnodup 0 1024 (by rw [List.length_range]; omega)
    (by rw [List.length_range]; omega) hlt
  rw [List.getElem_range, List.getElem_range] at hids
  exact hids rfl

end Solo

end IdGenerator

end Otoroshi
