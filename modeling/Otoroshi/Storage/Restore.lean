/-
# What an import restores

A store is exported and imported into another one, which had data and expirations
of its own. `restores_iff` says when the other store then behaves like the first
one, for the import and for the readers of the persistence, key by key.

A key whose time is past when the store is exported comes back without expiration.
An import leaves the expirations of the target where they are, so a key that is
imported without one gets what was left over there; it also does not write empty
collections, which the readers do.
-/

import Otoroshi.Storage.Expiration
import Otoroshi.Storage.Imports

namespace Otoroshi

open Memory Stateful InMemoryDataStores Persistence

/-! ## What is restored -/

/-- After an import the store shows under a key what the exported one shows under it,
from then on. A key whose time is past has not become permanent, and a key with a
line has not got the expiration that was left over in the target, where this is not
its own. -/
structure RestoredEntry (imported : Int) (hasLine : Prop) (source target after : Entry) : Prop where
  observed : ∀ time, imported ≤ time → after.observe time = source.observe time
  notRevived : source.1 ≠ none → ¬ Alive imported source.2 → after.1 ≠ none → after.2 ≠ none
  noLeftover : hasLine → after.1 ≠ none →
    ∀ leftover, target.2 = some leftover → after.2 = some leftover → source.2 = some leftover

/-- An export and the import of its lines restore the source. -/
def Restores (P : NdJsonPlatform) (impl : Implementation) (storageRoot : Str) (importer : Importer)
    (moments : Moments) (source target : Memory) : Prop :=
  ∃ lines after, (fullNdJsonExport P storageRoot moments.exported source).1 = .ok lines ∧
    importer.run P impl storageRoot moments.imported lines target = .ok after ∧
    ∀ key, RestoredEntry moments.imported
      (∃ line ∈ lines, line.select "k" = some (.string key))
      (source.entry P.toStorePlatform key) (target.entry P.toStorePlatform key)
      (after.entry P.toStorePlatform key)

/-- What it takes for a key with a value that is exported. -/
def Importer.Carries (P : StorePlatform) (importer : Importer) (moments : Moments) (value : Value)
    (leftover : Option Int) : Option Int → Prop
  | none => value.IsText P ∧ importer.loses value = false ∧ leftover = none
  | some e =>
      (moments.imported < e → value.IsText P ∧ importer.loses value = false) ∧
        (e < moments.exported → importer.loses value = true ∨ leftover = some e)

/-- What it takes for a key. -/
def Importer.Restorable (P : NdJsonPlatform) (compiled : P.Pattern) (importer : Importer)
    (moments : Moments) (source target : Memory) (key : Str) : Prop :=
  if P.finds compiled key = true then
    ∀ value, source.value? key = some value → importer.Carries P.toStorePlatform moments value
      ((importer.kept target).expiration? key) (source.expiration? key)
  else ∀ time, moments.imported ≤ time →
    ((importer.kept target).entry P.toStorePlatform key).observe time =
      (source.entry P.toStorePlatform key).observe time

namespace Importer

variable {P : StorePlatform} {importer : Importer} {moments : Moments} {value : Value} {e : Int}
  {leftover : Option Int}

/-- The data that the line of a value leaves. -/
def writes (P : StorePlatform) (importer : Importer) (value : Value) : Option Data :=
  if importer.loses value = true then none else some (value.recodedData P)

theorem entry_of_le {expiresAt : Int} (h : expiresAt ≤ -1) (now : Int) :
    importer.entry P now value expiresAt leftover = (importer.writes P value, leftover) := by
  cases importer with
  | ndJson =>
      rw [entry, importedEntry, if_neg (by omega)]
      rfl
  | file =>
      rw [entry, readEntry, if_neg (by omega)]
      rfl
  | http =>
      rw [entry, readEntry, if_neg (by omega)]
      rfl

theorem wrapLong_sub {now : Int} (hnow : 0 ≤ now) (hlong : isLong now = true) (hzero : 0 ≤ e)
    (he : isLong e = true) : wrapLong (e - now) = e - now := by
  apply wrapLong_of_isLong
  rw [isLong, Bool.and_eq_true, decide_eq_true_eq, decide_eq_true_eq] at he hlong ⊢
  omega

/-- A key that has time left keeps it. -/
theorem entry_of_lt {now : Int} (hnow : 0 ≤ now) (hlong : isLong now = true) (hlt : now < e)
    (he : isLong e = true) :
    importer.entry P now value e leftover = (importer.writes P value, some e) := by
  cases importer with
  | ndJson =>
      rw [entry, importedEntry, if_pos (by omega), wrapLong_sub hnow hlong (by omega) he,
        if_neg (by omega), add_sub_cancel, wrapLong_of_isLong he]
      rfl
  | file =>
      rw [entry, readEntry, if_pos (by omega)]
      rfl
  | http =>
      rw [entry, readEntry, if_pos (by omega)]
      rfl

/-- A key whose time is past when the line is written is not written, or written with
its time. -/
theorem entry_of_past {now : Int} (hnow : 0 ≤ now) (hlong : isLong now = true) (hzero : 0 ≤ e)
    (hle : e ≤ now) (he : isLong e = true) :
    importer.entry P now value e leftover = (none, leftover) ∨
      importer.entry P now value e leftover = (some (value.recodedData P), some e) := by
  cases importer with
  | ndJson =>
      left
      rw [entry, importedEntry, if_pos (by omega), wrapLong_sub hnow hlong hzero he,
        if_pos (by omega)]
  | file =>
      right
      rw [entry, readEntry, if_pos (by omega)]
  | http =>
      right
      rw [entry, readEntry, if_pos (by omega)]

theorem writes_eq_some_iff {data : Data} : importer.writes P value = some data ↔
    importer.loses value = false ∧ value.recodedData P = data := by
  rw [writes]
  cases importer.loses value <;> simp

/-! ## Key by key -/

theorem alive_none (time : Int) : Alive time none := by
  intro e h
  cases h

theorem not_alive_of_le {time : Int} (h : e ≤ time) : ¬ Alive time (some e) :=
  fun halive => absurd (halive e rfl) (Int.not_lt.mpr h)

theorem alive_of_lt {time : Int} (h : time < e) : Alive time (some e) := by
  intro other hother
  rw [← Option.some.inj hother]
  exact h

theorem restoredEntry_refl (imported : Int) (hasLine : Prop) (source target : Entry) :
    RestoredEntry imported hasLine source target source where
  observed := fun _ _ => rfl
  notRevived := by
    intro _ hpast _ hnone
    rw [hnone] at hpast
    exact hpast (alive_none imported)
  noLeftover := fun _ _ _ _ h => h

/-- What is shown of a key with time left is its whole entry. -/
theorem eq_of_observed {source target after : Entry} {hasLine : Prop} {data : Data}
    {expiration : Option Int} (hsource : source = (some data, expiration))
    (halive : Alive moments.imported expiration)
    (h : RestoredEntry moments.imported hasLine source target after) : after = source := by
  have hshown := h.observed moments.imported (Int.le_refl _)
  rw [Entry.observe_eq_some_iff.mpr ⟨hsource, halive⟩] at hshown
  exact (Entry.observe_eq_some_iff.mp hshown).1.trans hsource.symm

section Carries

variable {source target : Entry} {hasLine : Prop}

theorem restored_iff_of_none (hsource : source = (some (value.data P), none)) :
    RestoredEntry moments.imported hasLine source target (importer.writes P value, leftover) ↔
      value.IsText P ∧ importer.loses value = false ∧ leftover = none := by
  refine ⟨fun h => ?_, ?_⟩
  · have hentry := (eq_of_observed hsource (alive_none _) h).trans hsource
    rw [Prod.mk.injEq, writes_eq_some_iff, Value.recodedData_eq_iff] at hentry
    exact ⟨hentry.1.2, hentry.1.1, hentry.2⟩
  · rintro ⟨htext, hloses, rfl⟩
    rw [writes_eq_some_iff.mpr ⟨hloses, Value.recodedData_eq_iff.mpr htext⟩, ← hsource]
    exact restoredEntry_refl _ _ _ _

theorem restored_iff_of_lt (hsource : source = (some (value.data P), some e))
    (hlt : moments.imported < e) :
    RestoredEntry moments.imported hasLine source target (importer.writes P value, some e) ↔
      value.IsText P ∧ importer.loses value = false := by
  refine ⟨fun h => ?_, ?_⟩
  · have hentry := (eq_of_observed hsource (alive_of_lt hlt) h).trans hsource
    rw [Prod.mk.injEq, writes_eq_some_iff, Value.recodedData_eq_iff] at hentry
    exact ⟨hentry.1.2, hentry.1.1⟩
  · rintro ⟨htext, hloses⟩
    rw [writes_eq_some_iff.mpr ⟨hloses, Value.recodedData_eq_iff.mpr htext⟩, ← hsource]
    exact restoredEntry_refl _ _ _ _

/-- A key whose time is past is restored when nothing is left of it, or when it keeps
its time. -/
theorem restored_of_past {data : Option Data} {after : Entry} (hsource : source = (data, some e))
    (hle : e ≤ moments.imported) (hafter : after.1 = none ∨ after.2 = some e) :
    RestoredEntry moments.imported hasLine source target after where
  observed := by
    intro time htime
    rw [hsource, Entry.observe_of_past data (hle.trans htime)]
    obtain ⟨found, expiration⟩ := after
    rcases hafter with rfl | rfl
    · exact Entry.observe_none
    · exact Entry.observe_of_past found (hle.trans htime)
  notRevived := by
    intro _ _ hfound hnone
    rcases hafter with hlost | hkept
    · exact hfound hlost
    · rw [hnone] at hkept
      cases hkept
  noLeftover := by
    intro _ hfound time _ htime
    rcases hafter with hlost | hkept
    · exact absurd hlost hfound
    · rw [hsource, ← htime, hkept]

theorem restored_iff_of_past (hsource : source = (some (value.data P), some e))
    (hle : e ≤ moments.imported) (hline : hasLine)
    (hleftover : ∀ time, leftover = some time → target.2 = some time) :
    RestoredEntry moments.imported hasLine source target (importer.writes P value, leftover) ↔
      importer.loses value = true ∨ leftover = some e := by
  refine ⟨fun h => ?_, fun h => restored_of_past hsource hle ?_⟩
  · by_cases hloses : importer.loses value = true
    · exact Or.inl hloses
    · right
      rw [Bool.not_eq_true] at hloses
      have hfound : importer.writes P value ≠ none := by
        rw [writes, hloses]
        exact Option.some_ne_none _
      have hrevived := h.notRevived (by rw [hsource]; exact Option.some_ne_none _)
        (by rw [hsource]; exact not_alive_of_le hle) hfound
      obtain ⟨time, htime⟩ := Option.ne_none_iff_exists'.mp hrevived
      have hsame := h.noLeftover hline hfound time (hleftover time htime) htime
      rw [hsource] at hsame
      exact htime.trans hsame.symm
  · rcases h with hloses | hsame
    · left
      rw [writes, if_pos hloses]
    · exact Or.inr hsame

end Carries

/-- A key with a line is restored exactly when its value is carried over. -/
theorem restored_iff_carries {source target : Entry} {hasLine : Prop} {expiration : Option Int}
    (hsource : source = (some (value.data P), expiration))
    (hlong : ∀ e, expiration = some e → isLong e = true) (hline : hasLine)
    (hleftover : ∀ time, leftover = some time → target.2 = some time) :
    RestoredEntry moments.imported hasLine source target (importer.entry P moments.imported value
        (exportedTime moments.exported expiration) leftover) ↔
      importer.Carries P moments value leftover expiration := by
  have hnonneg : 0 ≤ moments.imported := moments.exported_nonneg.trans moments.exported_le
  have hexportedLong : isLong moments.exported = true := by
    have himported := moments.isLong_imported
    have hle := moments.exported_le
    have hpositive := moments.exported_nonneg
    rw [isLong, Bool.and_eq_true, decide_eq_true_eq, decide_eq_true_eq] at himported ⊢
    omega
  cases expiration with
  | none =>
      rw [exportedTime_none, entry_of_le (Int.le_refl _)]
      exact restored_iff_of_none hsource
  | some e =>
      have he := hlong e rfl
      rw [Carries]
      by_cases hbefore : e < moments.exported
      · have hle : e ≤ moments.imported := (Int.le_of_lt hbefore).trans moments.exported_le
        rw [entry_of_le (exportedTime_of_lt hexportedLong hbefore he),
          restored_iff_of_past hsource hle hline hleftover]
        exact ⟨fun h => ⟨fun hlt => absurd hlt (Int.not_lt.mpr hle), fun _ => h⟩,
          fun h => h.2 hbefore⟩
      · have hexported : moments.exported ≤ e := Int.not_lt.mp hbefore
        rw [exportedTime_of_le moments.exported_nonneg hexported he]
        by_cases hlt : moments.imported < e
        · rw [entry_of_lt hnonneg moments.isLong_imported hlt he, restored_iff_of_lt hsource hlt]
          exact ⟨fun h => ⟨fun _ => h, fun h => absurd h hbefore⟩, fun h => h.1 hlt⟩
        · have hle : e ≤ moments.imported := Int.not_lt.mp hlt
          refine iff_of_true (restored_of_past hsource hle ?_)
            ⟨fun h => absurd h hlt, fun h => absurd h hbefore⟩
          rcases entry_of_past hnonneg moments.isLong_imported
            (moments.exported_nonneg.trans hexported) hle he with hentry | hentry
          · left
            rw [hentry]
          · right
            rw [hentry]

theorem leftover_of_kept {target : Memory} {key : Str} {time : Int}
    (h : (importer.kept target).expiration? key = some time) :
    target.expiration? key = some time := by
  cases importer with
  | ndJson => exact h
  | file => cases h
  | http => cases h

/-- A key without a line is restored when both stores show the same from then on. -/
theorem restored_iff_observed {source target after : Entry} {hasLine : Prop} (hline : ¬ hasLine) :
    RestoredEntry moments.imported hasLine source target after ↔
      ∀ time, moments.imported ≤ time → after.observe time = source.observe time := by
  refine ⟨fun h => h.observed, fun h => ⟨h, ?_, fun hmem => absurd hmem hline⟩⟩
  intro _ hpast hfound hpermanent
  obtain ⟨data, hdata⟩ := Option.ne_none_iff_exists'.mp hfound
  have hshown : source.observe moments.imported = some (data, none) := by
    rw [← h moments.imported (Int.le_refl _), Entry.observe_eq_some_iff]
    exact ⟨Prod.ext hdata hpermanent, alive_none _⟩
  rw [Entry.observe_eq_some_iff] at hshown
  rw [hshown.1] at hpast
  exact hpast (alive_none _)

end Importer

section Restores

variable {P : NdJsonPlatform} {impl : Implementation} {storageRoot : Str} {importer : Importer}
  {moments : Moments} {compiled : P.Pattern}

theorem hasLine_iff (compiled : P.Pattern) {exported : Int} {source : Memory} {key : Str} :
    (∃ line ∈ linesOf P exported source (P.keyOrder (foundKeys P compiled source)),
      line.select "k" = some (.string key)) ↔
        P.finds compiled key = true ∧ source.value? key ≠ none := by
  refine ⟨?_, ?_⟩
  · rintro ⟨line, hline, hkey⟩
    obtain ⟨other, hother, value, hvalue, rfl⟩ := mem_linesOf.mp hline
    rw [select_key, Option.some.injEq, JsValue.string.injEq] at hkey
    rw [P.mem_keyOrder, mem_foundKeys, hkey] at hother
    exact hother
  · intro hfound
    obtain ⟨value, hvalue⟩ := Option.ne_none_iff_exists'.mp hfound.2
    refine ⟨_, mem_linesOf.mpr ⟨key, ?_, value, hvalue, rfl⟩, select_key⟩
    rw [P.mem_keyOrder, mem_foundKeys]
    exact hfound

/-- One key, whatever the way to import. -/
theorem restored_iff_restorable (source : TimedMemory) (target : Memory) (key : Str) {after : Entry}
    (hafter : after = if P.finds compiled key = true then
        leftEntry (importer.entry P.toStorePlatform moments.imported) moments.exported
          source.memory key ((importer.kept target).expiration? key)
      else (importer.kept target).entry P.toStorePlatform key) :
    RestoredEntry moments.imported
        (P.finds compiled key = true ∧ source.memory.value? key ≠ none)
        (source.memory.entry P.toStorePlatform key) (target.entry P.toStorePlatform key) after ↔
      importer.Restorable P compiled moments source.memory target key := by
  rw [Importer.Restorable, hafter]
  by_cases hfinds : P.finds compiled key = true
  · rw [if_pos hfinds, if_pos hfinds, leftEntry]
    cases hvalue : source.memory.value? key with
    | none =>
        refine iff_of_true ?_ (fun value h => by cases h)
        rw [Memory.entry, hvalue]
        exact ⟨fun _ _ => Entry.observe_none.trans Entry.observe_none.symm,
          fun h => absurd rfl h, fun _ h => absurd rfl h⟩
    | some value =>
        rw [Importer.restored_iff_carries (by rw [Memory.entry, hvalue]; rfl)
          (source.longTimes key) ⟨hfinds, Option.some_ne_none value⟩
          (fun _ => Importer.leftover_of_kept)]
        refine ⟨?_, fun h => h value rfl⟩
        rintro h other hother
        rw [← Option.some.inj hother]
        exact h
  · rw [if_neg hfinds, if_neg hfinds]
    exact Importer.restored_iff_observed (fun h => hfinds h.1)

/-- The stores of a root that is a pattern. -/
theorem restores_iff_of_compiled
    (hcompiled : compileRoot P storageRoot = some compiled)
    (source : TimedMemory) (target : Memory)
    (hreadable : ∀ lines, (fullNdJsonExport P storageRoot moments.exported source.memory).1 =
      .ok lines → Readable P lines) :
    Restores P impl storageRoot importer moments source.memory target ↔
      ∀ key, importer.Restorable P compiled moments source.memory target key := by
  have hexport := fullNdJsonExport_apply hcompiled moments.exported source.memory
  have hlines := hreadable _ (congrArg Prod.fst hexport)
  obtain ⟨after, hrun, hentry⟩ := importer.run_linesOf impl hcompiled moments.exported
    moments.imported source.memory target hlines
  refine ⟨?_, fun h => ⟨_, after, congrArg Prod.fst hexport, hrun, fun key => ?_⟩⟩
  · rintro ⟨lines, found, hfound, himport, hrestored⟩ key
    rw [hexport] at hfound
    rw [← Except.ok.inj hfound, hrun] at himport
    have hkey := hrestored key
    rw [← Except.ok.inj hfound, ← Except.ok.inj himport, hasLine_iff compiled] at hkey
    exact (restored_iff_restorable source target key (hentry key)).mp hkey
  · rw [hasLine_iff compiled]
    exact (restored_iff_restorable source target key (hentry key)).mpr (h key)

/-- An export and its import restore a store, from any memory of the program and into
any other one, if and only if the storage root is a pattern and every key can be
restored. -/
theorem restores_iff (P : NdJsonPlatform) (impl : Implementation) (storageRoot : Str)
    (importer : Importer) (moments : Moments) (source : TimedMemory) (target : Memory)
    (hreadable : ∀ lines, (fullNdJsonExport P storageRoot moments.exported source.memory).1 =
      .ok lines → Readable P lines) :
    Restores P impl storageRoot importer moments source.memory target ↔
      ∃ compiled, compileRoot P storageRoot = some compiled ∧
        ∀ key, importer.Restorable P compiled moments source.memory target key := by
  cases hcompile : compileRoot P storageRoot with
  | none =>
      refine iff_of_false ?_ ?_
      · rintro ⟨lines, after, hexport, -⟩
        rw [compileRoot] at hcompile
        rw [fullNdJsonExport, RedisLike.keys, hcompile] at hexport
        cases hexport
      · rintro ⟨compiled, hcompiled, -⟩
        cases hcompiled
  | some compiled =>
      rw [restores_iff_of_compiled hcompile source target hreadable]
      refine ⟨fun h => ⟨compiled, rfl, h⟩, ?_⟩
      rintro ⟨other, hother, h⟩
      rw [Option.some.inj hother]
      exact h

end Restores

/-! ## A store with one key -/

section Example

def exampleRoot : Str := "otoroshi".toList

def exampleKey : Str := "otoroshi:a".toList

def exampleLine : JsValue :=
  Json.obj [("k", .string exampleKey), ("v", .string "x".toList),
    ("t", Json.long ⟨-1, isLong_neg_one⟩), ("w", .string "string".toList)]

def exampleText : Str :=
  "\x7b\"k\":\"otoroshi:a\",\"v\":\"x\",\"t\":-1,\"w\":\"string\"\x7d".toList

/-- A platform that writes and parses one line. -/
noncomputable def linePlatform : NdJsonPlatform where
  toStorePlatform := starStorePlatform
  parse text := if text = exampleText then .ok exampleLine else .error .jsResult
  stringify _ := exampleText
  keyOrder := Finset.toList
  memberOrder := Finset.toList
  nodup_keyOrder := Finset.nodup_toList
  mem_keyOrder _ _ := Finset.mem_toList
  mem_memberOrder _ _ := Finset.mem_toList

theorem readable_exampleLine : Readable linePlatform [exampleLine] where
  parse_stringify := by
    intro line hline
    rw [List.mem_singleton.mp hline]
    show (if exampleText = exampleText then Except.ok exampleLine else .error .jsResult) = _
    rw [if_pos rfl]
  not_blank := by
    intro line _
    show trimsToEmpty exampleText = false
    decide

def otherKey : Str := "otoroshi:b".toList

theorem exists_compileRoot : ∃ compiled, compileRoot linePlatform exampleRoot = some compiled ∧
    linePlatform.finds compiled exampleKey = true ∧ linePlatform.finds compiled otherKey = true :=
  ⟨_, rfl, by decide, by decide⟩

/-- The store after one `set`. -/
def exampleStore (key : Str) (milliseconds : Option Int) : TimedMemory :=
  StoreEvent.reached starStorePlatform .modern [.command 0 (.set key [120] none milliseconds)]

theorem value?_exampleStore (key : Str) (milliseconds : Option Int) (other : Str) :
    (exampleStore key milliseconds).memory.value? other =
      if other = key then some (.bytes [120]) else none := by
  have hstore : (exampleStore key milliseconds).memory.store =
      AList.insert key (.bytes [120]) ∅ := by
    cases milliseconds with
    | none => rfl
    | some _ => rfl
  rw [Memory.value?, hstore]
  by_cases hkey : other = key
  · rw [if_pos hkey, hkey, AList.lookup_insert]
  · rw [if_neg hkey, AList.lookup_insert_ne hkey, AList.lookup_empty]

/-- A line without time left says that there is no expiration. -/
theorem export_exampleStore {milliseconds : Option Int} {now : Int} {lines : List JsValue}
    (hlifetime :
      lifetime now ((exampleStore exampleKey milliseconds).memory.expiration? exampleKey) = -1)
    (hexport : (fullNdJsonExport linePlatform exampleRoot now
      (exampleStore exampleKey milliseconds).memory).1 = .ok lines) : lines = [exampleLine] := by
  obtain ⟨compiled, hcompiled, hfinds, -⟩ := exists_compileRoot
  have hfound : foundKeys linePlatform compiled (exampleStore exampleKey milliseconds).memory =
      {exampleKey} := by
    ext key
    rw [mem_foundKeys, value?_exampleStore, Finset.mem_singleton]
    refine ⟨fun h => ?_, ?_⟩
    · by_contra hkey
      exact h.2 (if_neg hkey)
    · rintro rfl
      exact ⟨hfinds, Option.some_ne_none _⟩
  have hkeys : linePlatform.keyOrder {exampleKey} = [exampleKey] := Finset.toList_singleton _
  have hvalue := value?_exampleStore exampleKey milliseconds exampleKey
  rw [fullNdJsonExport_apply hcompiled, hfound, hkeys, linesOf_cons_of_some hvalue, lineOf,
    hlifetime] at hexport
  exact (Except.ok.inj hexport).symm

/-- A store with a permanent key is restored, and what the other store had is gone. -/
theorem restores_exampleStore :
    Restores linePlatform .modern exampleRoot .ndJson ⟨10, 20, by decide, by decide, rfl⟩
      (exampleStore exampleKey none).memory (exampleStore otherKey none).memory := by
  obtain ⟨compiled, hcompiled, hfinds, hother⟩ := exists_compileRoot
  refine (restores_iff linePlatform .modern exampleRoot .ndJson ⟨10, 20, by decide, by decide, rfl⟩
    (exampleStore exampleKey none) (exampleStore otherKey none).memory ?_).mpr
      ⟨compiled, hcompiled, fun key => ?_⟩
  · intro lines hexport
    rw [export_exampleStore rfl hexport]
    exact readable_exampleLine
  · rw [Importer.Restorable]
    split
    · intro value hvalue
      rw [value?_exampleStore] at hvalue
      split at hvalue
      · rw [← Option.some.inj hvalue]
        exact ⟨rfl, rfl, rfl⟩
      · cases hvalue
    · next hfound =>
        intro time _
        -- neither store has a key that the pattern does not find
        have hempty : ∀ held, linePlatform.finds compiled held = true →
            (exampleStore held none).memory.value? key = none := by
          intro held hheld
          rw [value?_exampleStore, if_neg]
          rintro rfl
          exact hfound hheld
        rw [Importer.kept, Memory.entry, Memory.entry, hempty exampleKey hfinds,
          hempty otherKey hother]
        exact Entry.observe_none.trans Entry.observe_none.symm

/-- A key that has expired, and that no pass of the sweeper has removed, becomes
permanent. -/
theorem not_restores_exampleStore :
    ¬ ∃ importer, Restores linePlatform .modern exampleRoot importer
      ⟨20, 20, by decide, by decide, rfl⟩ (exampleStore exampleKey (some 10)).memory .empty := by
  rintro ⟨importer, hrestores⟩
  obtain ⟨compiled, hcompiled, hfinds, -⟩ := exists_compileRoot
  rw [restores_iff_of_compiled hcompiled (exampleStore exampleKey (some 10))] at hrestores
  · have hkey := hrestores exampleKey
    rw [Importer.Restorable, if_pos hfinds] at hkey
    have hcarries := hkey _ (value?_exampleStore exampleKey (some 10) exampleKey)
    rcases hcarries.2 (by decide) with hloses | hleftover
    · cases importer <;> cases hloses
    · cases importer <;> cases hleftover
  · intro lines hexport
    rw [export_exampleStore rfl hexport]
    exact readable_exampleLine

end Example

end Otoroshi
