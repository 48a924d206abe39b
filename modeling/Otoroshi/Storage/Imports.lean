/-
# What an import leaves

Each way to import is described by the entry that the line of a key leaves under
it: an import writes it with commands, a reader puts it into new maps. Nothing else
changes at a line, so `steps_export` can go from one line to all of them, and
`Importer.run_linesOf` says what an import leaves under every key.
-/

import Otoroshi.Foundation.Maps
import Otoroshi.Foundation.Run
import Otoroshi.Storage.Entries

namespace Otoroshi

open Maps Memory Stateful RedisLikeNdJsonImport InMemoryDataStores Persistence

/-! ## What a line writes -/

section Write

variable {P : NdJsonPlatform} {impl : Implementation} {now : Int} {key : Str} {memory : Memory}

theorem call_of_ok {request : Command} {reply : Reply} {after : Memory}
    (h : impl.exec P.toStorePlatform now request memory = (.ok reply, after)) :
    call P impl now request memory = (.ok (), after) := by
  rw [call, bind_of_ok (mapError_of_ok h _)]
  rfl

theorem exec_set (bs : ByteString) :
    impl.exec P.toStorePlatform now (.set key bs none none) memory =
      (.ok (.bool true), { memory with store := memory.store.insert key (.bytes bs) }) := by
  cases impl <;> rfl

theorem exec_pexpire (milliseconds : Int) :
    impl.exec P.toStorePlatform now (.pexpire key milliseconds) memory =
      (.ok (.bool true), { memory with
        expirations := memory.expirations.insert key (wrapLong (now + milliseconds)) }) := by
  cases impl <;> rfl

theorem exec_lpush (h : memory.value? key = none) (values : List ByteString) :
    impl.exec P.toStorePlatform now (.lpush key values) memory = (.ok (.long values.length),
      { memory with store := memory.store.insert key (.list values.reverse) }) := by
  have hpush : RedisLike.lpushBS key values memory = (.ok (values.length : Int),
      { memory with store := memory.store.insert key (.list values.reverse) }) := by
    rw [RedisLike.lpushBS, bind_of_ok (getTypedOrUpdate_of_none h)]
    show (Except.ok _, Memory.mk ((memory.store.insert key _).insert key _) _) = _
    rw [AList.insert_insert, List.append_nil]
  cases impl <;> exact bind_of_ok hpush

theorem exec_sadd (h : memory.value? key = none) (members : List ByteString) :
    impl.exec P.toStorePlatform now (.sadd key members) memory = (.ok (.long members.length),
      { memory with store := memory.store.insert key (.set members.toFinset) }) := by
  have hadd : RedisLike.saddBS key members memory = (.ok (members.length : Int),
      { memory with store := memory.store.insert key (.set members.toFinset) }) := by
    rw [RedisLike.saddBS, bind_of_ok (getTypedOrUpdate_of_none h)]
    show (Except.ok _, Memory.mk ((memory.store.insert key _).insert key _) _) = _
    rw [AList.insert_insert, Finset.empty_union]
  cases impl <;> exact bind_of_ok hadd

/-- The key holds these fields, or nothing where there are none. -/
def HoldsFields (memory : Memory) (key : Str) (fields : Fields) : Prop :=
  memory.value? key = none ∧ fields = ∅ ∨ memory.value? key = some (.hash fields)

theorem ModernSwappableInMemoryRedis.hsetBS_apply {fields : Fields}
    (h : HoldsFields memory key fields) (field : Str) (bs : ByteString) :
    ModernSwappableInMemoryRedis.hsetBS key field bs memory = (.ok true,
      { memory with store := memory.store.insert key (.hash (fields.insert field bs)) }) := by
  rw [ModernSwappableInMemoryRedis.hsetBS]
  rcases h with ⟨hnone, rfl⟩ | hsome
  · rw [bind_of_ok (getTypedOrUpdate_of_none hnone)]
    show (Except.ok _, Memory.mk ((memory.store.insert key _).insert key _) _) = _
    rw [AList.insert_insert]
  · rw [bind_of_ok (getTypedOrUpdate_of_some hsome)]
    rfl

theorem SwappableInMemoryRedis.hsetBS_apply {fields : Fields}
    (h : HoldsFields memory key fields) (field : Str) (bs : ByteString) :
    SwappableInMemoryRedis.hsetBS key field bs memory = (.ok true,
      { memory with store := memory.store.insert key (.hash (fields.insert field bs)) }) := by
  rw [SwappableInMemoryRedis.hsetBS]
  rcases h with ⟨hnone, rfl⟩ | hsome
  · rw [bind_of_ok (getTypedOrElse_of_none hnone)]
    rfl
  · rw [bind_of_ok (getTypedOrElse_of_some hsome)]
    rfl

theorem exec_hset {fields : Fields} (h : HoldsFields memory key fields) (field : Str)
    (bs : ByteString) :
    impl.exec P.toStorePlatform now (.hset key field bs) memory = (.ok (.bool true),
      { memory with store := memory.store.insert key (.hash (fields.insert field bs)) }) := by
  cases impl with
  | modern => exact bind_of_ok (ModernSwappableInMemoryRedis.hsetBS_apply h field bs)
  | legacy => exact bind_of_ok (SwappableInMemoryRedis.hsetBS_apply h field bs)

theorem hsetAll_cons {fields : Fields} (h : HoldsFields memory key fields)
    (field : Str × JsValue) (rest : List (Str × JsValue)) :
    hsetAll P impl now key (field :: rest) memory = (.ok (), { memory with
      store := memory.store.insert key (.hash (insertAll
        ((field :: rest).map fun field => (field.1, P.encode (raw P field.2))) fields)) }) := by
  induction rest generalizing field memory fields with
  | nil =>
      rw [hsetAll, bind_of_ok (call_of_ok (exec_hset h _ _))]
      rfl
  | cons following rest ih =>
      rw [hsetAll, bind_of_ok (call_of_ok (exec_hset h _ _)), ih]
      · show (Except.ok _, Memory.mk ((memory.store.insert key _).insert key _) _) = _
        rw [AList.insert_insert]
        rfl
      · right
        rw [value?_insert, if_pos rfl]

/-- Under the key some data has been written, and nothing else has changed. -/
structure Written (P : StorePlatform) (key : Str) (data : Option Data) (before after : Memory) :
    Prop where
  data_eq : (after.value? key).map (Value.data P) = data
  others : ∀ other, other ≠ key → after.value? other = before.value? other
  expirations : after.expirations = before.expirations

theorem written_insert (key : Str) (memory : Memory) (value : Value) :
    Written P.toStorePlatform key (some (value.data P.toStorePlatform)) memory
      { memory with store := memory.store.insert key value } where
  data_eq := by rw [value?_insert, if_pos rfl, Option.map_some]
  others := by
    intro other hother
    rw [value?_insert, if_neg hother]
  expirations := rfl

/-- Nothing is written for an empty collection. -/
def writtenData (P : StorePlatform) (value : Value) : Option Data :=
  if value.isEmptyCollection then none else some (value.recodedData P)

theorem written_none (h : memory.value? key = none) :
    Written P.toStorePlatform key none memory memory where
  data_eq := by rw [h]; rfl
  others := fun _ _ => rfl
  expirations := rfl

/-- The hash of recoded fields. -/
theorem data_insertAll (fields : Fields) :
    (Value.hash (insertAll (fields.entries.map fun entry =>
      (entry.1, P.recode entry.2)) ∅)).data P.toStorePlatform =
        (Value.hash fields).recodedData P.toStorePlatform := by
  have hkeys : (fields.entries.map fun entry => (entry.1, P.recode entry.2)).map Prod.fst =
      fields.keys := by
    rw [List.map_map]
    rfl
  rw [Value.data, Value.recodedData]
  congr 1
  funext field
  rw [lookup_insertAll (by rw [hkeys]; exact fields.keys_nodup), lookup_map_entries P.recode,
    AList.lookup_empty, Option.or_none]

theorem toFinset_memberOrder (members : Finset ByteString) :
    ((P.memberOrder members).map P.recode).toFinset = members.image P.recode := by
  ext member
  simp [P.mem_memberOrder]

theorem hsetAll_of_ne_nil (h : memory.value? key = none) {fields : List (Str × JsValue)}
    (hfields : fields ≠ []) : hsetAll P impl now key fields memory = (.ok (), { memory with
      store := memory.store.insert key (.hash (insertAll
        (fields.map fun field => (field.1, P.encode (raw P field.2))) ∅)) }) := by
  obtain ⟨field, rest, rfl⟩ := List.exists_cons_of_ne_nil hfields
  exact hsetAll_cons (Or.inl ⟨h, rfl⟩) field rest

theorem writeValue_hash (h : memory.value? key = none) (fields : Fields) :
    ∃ after, writeValue P impl now key "hash".toList (toJson P (.hash fields)).2 memory =
        (.ok (), after) ∧
      Written P.toStorePlatform key (writtenData P.toStorePlatform (.hash fields)) memory
        after := by
  rw [writeValue, if_neg (by decide), if_pos rfl]
  show ∃ after, hsetAll P impl now key _ memory = _ ∧ _
  by_cases hempty : fields.entries = []
  · refine ⟨memory, by rw [hempty]; rfl, ?_⟩
    rw [writtenData, Value.isEmptyCollection, hempty]
    exact written_none h
  · rw [hsetAll_of_ne_nil h (by simpa using hempty), List.map_map]
    refine ⟨_, rfl, ?_⟩
    rw [writtenData, Value.isEmptyCollection, if_neg (by simpa using hempty), ← data_insertAll]
    exact written_insert key memory _

theorem writeValue_list (h : memory.value? key = none) (elements : List ByteString) :
    ∃ after, writeValue P impl now key "list".toList (toJson P (.list elements)).2 memory =
        (.ok (), after) ∧
      Written P.toStorePlatform key (writtenData P.toStorePlatform (.list elements)) memory
        after := by
  rw [writeValue, if_neg (by decide), if_neg (by decide), if_pos rfl]
  show ∃ after, (if (List.map JsValue.string (elements.map P.utf8String)).isEmpty then pure ()
    else call P impl now _ : Import Unit) memory = _ ∧ _
  by_cases hempty : elements = []
  · refine ⟨memory, by rw [hempty]; rfl, ?_⟩
    rw [writtenData, Value.isEmptyCollection, hempty]
    exact written_none h
  · rw [if_neg (by simpa using hempty), call_of_ok (exec_lpush h _)]
    refine ⟨_, rfl, ?_⟩
    have hdata : (Value.list (elements.map P.recode)).data P.toStorePlatform =
        (Value.list elements).recodedData P.toStorePlatform := rfl
    rw [writtenData, Value.isEmptyCollection, if_neg (by simpa using hempty), ← hdata,
      ← List.map_reverse, List.reverse_reverse, List.map_map, List.map_map]
    exact written_insert key memory _

theorem writeValue_set (h : memory.value? key = none) (members : Finset ByteString) :
    ∃ after, writeValue P impl now key "set".toList (toJson P (.set members)).2 memory =
        (.ok (), after) ∧
      Written P.toStorePlatform key (writtenData P.toStorePlatform (.set members)) memory
        after := by
  rw [writeValue, if_neg (by decide), if_neg (by decide), if_neg (by decide), if_pos rfl]
  show ∃ after, (if (List.map JsValue.string ((P.memberOrder members).map P.utf8String)).isEmpty
    then pure () else call P impl now _ : Import Unit) memory = _ ∧ _
  have hmembers : P.memberOrder members = [] ↔ members = ∅ := by
    rw [List.eq_nil_iff_forall_not_mem, Finset.eq_empty_iff_forall_notMem]
    simp only [P.mem_memberOrder]
  by_cases hempty : members = ∅
  · refine ⟨memory, by rw [hmembers.mpr hempty]; rfl, ?_⟩
    rw [writtenData, Value.isEmptyCollection, hempty]
    exact written_none h
  · rw [if_neg (by simpa [hmembers] using hempty), call_of_ok (exec_sadd h _)]
    refine ⟨_, rfl, ?_⟩
    have hdata : (Value.set (members.image P.recode)).data P.toStorePlatform =
        (Value.set members).recodedData P.toStorePlatform := rfl
    rw [writtenData, Value.isEmptyCollection, if_neg (by simpa using hempty), ← hdata,
      ← toFinset_memberOrder, List.map_map, List.map_map]
    exact written_insert key memory _

theorem writeValue_string (text : Str) :
    writeValue P impl now key "string".toList (.string text) memory =
      (.ok (), { memory with store := memory.store.insert key (.bytes (P.encode text)) }) := by
  rw [writeValue, if_pos (Or.inr rfl)]
  exact call_of_ok (exec_set _)

/-- The line of a value writes its recoded data, unless there is nothing in it. -/
theorem writeValue_toJson (impl : Implementation) (now : Int) (h : memory.value? key = none)
    (value : Value) :
    ∃ after, writeValue P impl now key (toJson P value).1.toList (toJson P value).2 memory =
        (.ok (), after) ∧
      Written P.toStorePlatform key (writtenData P.toStorePlatform value) memory after := by
  cases value with
  | bytes bs => exact ⟨_, writeValue_string _, written_insert _ _ (.bytes (P.recode bs))⟩
  | counter n => exact ⟨_, writeValue_string _, written_insert _ _ (.bytes (P.encode (longText n)))⟩
  | hash fields => exact writeValue_hash h fields
  | list elements => exact writeValue_list h elements
  | set members => exact writeValue_set h members

/-! ## What an import leaves -/

/-- The entry that a line leaves, where there was only an expiration before. -/
def importedEntry (P : StorePlatform) (now : Int) (value : Value) (expiresAt : Int)
    (leftover : Option Int) : Entry :=
  if -1 < expiresAt then
    if wrapLong (expiresAt - now) ≤ 0 then (none, leftover)
    else (writtenData P value, some (wrapLong (now + wrapLong (expiresAt - now))))
  else (writtenData P value, leftover)

/-- One key has got an entry, and nothing else has changed. -/
structure Touched (P : StorePlatform) (key : Str) (entry : Entry) (before after : Memory) :
    Prop where
  entry_eq : after.entry P key = entry
  value? : ∀ other, other ≠ key → after.value? other = before.value? other
  expiration? : ∀ other, other ≠ key → after.expiration? other = before.expiration? other

theorem Touched.entry {P : StorePlatform} {entry : Entry} {before after : Memory}
    (h : Touched P key entry before after) {other : Str} (hother : other ≠ key) :
    after.entry P other = before.entry P other := by
  rw [Memory.entry, Memory.entry, h.value? other hother, h.expiration? other hother]

theorem Written.touched {P : StorePlatform} {data : Option Data} {before after : Memory}
    (h : Written P key data before after) :
    Touched P key (data, before.expiration? key) before after where
  entry_eq := by rw [Memory.entry, h.data_eq, Memory.expiration?, h.expirations]; rfl
  value? := h.others
  expiration? := fun other _ => by rw [Memory.expiration?, h.expirations]; rfl

theorem Written.touched_expiration {P : StorePlatform} {data : Option Data} {before after : Memory}
    (h : Written P key data before after) (time : Int) :
    Touched P key (data, some time) before
      { after with expirations := after.expirations.insert key time } where
  entry_eq := by rw [Memory.entry, expiration?_insert, if_pos rfl, ← h.data_eq]; rfl
  value? := h.others
  expiration? := by
    intro other hother
    rw [expiration?_insert, if_neg hother, Memory.expiration?, h.expirations]
    rfl

section Line

variable {exported : Int} {expiration : Option Int} {value : Value}

theorem select_key : (lineOf P exported key expiration value).select "k" = some (.string key) := by
  simp [lineOf]

theorem select_value :
    (lineOf P exported key expiration value).select "v" = some (toJson P value).2 := by
  simp [lineOf]

theorem select_kind : (lineOf P exported key expiration value).select "w" =
    some (.string (toJson P value).1.toList) := by
  simp [lineOf]

theorem select_time : ((lineOf P exported key expiration value).select "t").asOptOrElse .long
    ⟨-1, rfl⟩ = expiresAt exported (lifetime exported expiration) := by
  have hselect : (lineOf P exported key expiration value).select "t" =
      some (Json.long (expiresAt exported (lifetime exported expiration))) := by
    simp [lineOf]
  rw [hselect]
  exact asOptOrElse_of_ok (reads_long _) _

theorem importLine_eq : importLine P impl now (lineOf P exported key expiration value) =
    (if -1 < exportedTime exported expiration ∧
        wrapLong (exportedTime exported expiration - now) ≤ 0 then pure ()
      else (do
        writeValue P impl now key (toJson P value).1.toList (toJson P value).2
        if -1 < exportedTime exported expiration then
          call P impl now (.pexpire key (wrapLong (exportedTime exported expiration - now)))
        else pure ())) := by
  rw [importLine, select_key, select_value, select_kind, select_time]
  rfl

end Line

theorem importLine_lineOf (impl : Implementation) (now exported : Int) (expiration : Option Int)
    (value : Value) (h : memory.value? key = none) :
    ∃ after, importLine P impl now (lineOf P exported key expiration value) memory =
        (.ok (), after) ∧
      Touched P.toStorePlatform key (importedEntry P.toStorePlatform now value
        (exportedTime exported expiration) (memory.expiration? key)) memory after := by
  rw [importLine_eq, importedEntry]
  obtain ⟨after, hwrite, hwritten⟩ := writeValue_toJson impl now h value
  by_cases hexpires : -1 < exportedTime exported expiration
  · by_cases hpast : wrapLong (exportedTime exported expiration - now) ≤ 0
    · rw [if_pos ⟨hexpires, hpast⟩, if_pos hexpires, if_pos hpast]
      exact ⟨memory, rfl, (written_none h).touched⟩
    · rw [if_neg (fun hskip => hpast hskip.2), if_pos hexpires, if_neg hpast,
        bind_of_ok hwrite, if_pos hexpires, call_of_ok (exec_pexpire _)]
      exact ⟨_, rfl, hwritten.touched_expiration _⟩
  · rw [if_neg (fun hskip => hexpires hskip.1), if_neg hexpires, bind_of_ok hwrite,
      if_neg hexpires]
    exact ⟨after, rfl, hwritten.touched⟩

/-! ## Line after line -/

/-- What becomes of the lines of a memory, when a line leaves `entry` of its value,
its time and the expiration that was there before. -/
def leftEntry (entry : Value → Int → Option Int → Entry) (exported : Int) (source : Memory)
    (key : Str) (leftover : Option Int) : Entry :=
  match source.value? key with
  | some value => entry value (exportedTime exported (source.expiration? key)) leftover
  | none => (none, leftover)

theorem linesOf_cons_of_none {exported : Int} {source : Memory} {keys : List Str}
    (h : source.value? key = none) :
    linesOf P exported source (key :: keys) = linesOf P exported source keys := by
  rw [linesOf, List.filterMap_cons, h]
  rfl

theorem linesOf_cons_of_some {exported : Int} {source : Memory} {keys : List Str} {value : Value}
    (h : source.value? key = some value) :
    linesOf P exported source (key :: keys) =
      lineOf P exported key (source.expiration? key) value :: linesOf P exported source keys := by
  rw [linesOf, List.filterMap_cons, h]
  rfl

/-- The line of a key writes its entry and nothing else, where the key has no value. -/
def WritesEntry (P : NdJsonPlatform) (step : JsValue → Memory → Memory → Prop)
    (entry : Value → Int → Option Int → Entry) (exported : Int) (key : Str)
    (expiration : Option Int) (value : Value) : Prop :=
  ∀ before, before.value? key = none →
    ∃ after, step (lineOf P exported key expiration value) before after ∧
      Touched P.toStorePlatform key (entry value (exportedTime exported expiration)
        (before.expiration? key)) before after

/-- When each line writes the entry of its own key and nothing else, so do all lines. -/
theorem steps_linesOf {step : JsValue → Memory → Memory → Prop}
    {entry : Value → Int → Option Int → Entry} (exported : Int) (source : Memory)
    {keys : List Str} (hnodup : keys.Nodup)
    (hstep : ∀ key ∈ keys, ∀ value, source.value? key = some value →
      WritesEntry P step entry exported key (source.expiration? key) value) {before : Memory}
    (habsent : ∀ key ∈ keys, before.value? key = none) :
    ∃ after, Steps step (linesOf P exported source keys) before after ∧
      (∀ key ∈ keys, after.entry P.toStorePlatform key =
        leftEntry entry exported source key (before.expiration? key)) ∧
      ∀ key, key ∉ keys →
        after.entry P.toStorePlatform key = before.entry P.toStorePlatform key := by
  induction keys generalizing before with
  | nil =>
      refine ⟨before, rfl, ?_, fun _ _ => rfl⟩
      intro key hkey
      cases hkey
  | cons key keys ih =>
      rw [List.forall_mem_cons] at habsent hstep
      rw [List.nodup_cons] at hnodup
      cases hvalue : source.value? key with
      | none =>
          rw [linesOf_cons_of_none hvalue]
          obtain ⟨after, hrun, hkeys, hothers⟩ := ih hnodup.2 hstep.2 habsent.2
          refine ⟨after, hrun, List.forall_mem_cons.mpr ⟨?_, hkeys⟩, ?_⟩
          · rw [hothers key hnodup.1, leftEntry, hvalue, Memory.entry, habsent.1]
            rfl
          · intro other hother
            exact hothers other (fun hmem => hother (List.mem_cons_of_mem key hmem))
      | some value =>
          rw [linesOf_cons_of_some hvalue]
          obtain ⟨middle, hline, htouched⟩ := hstep.1 value hvalue before habsent.1
          have hne : ∀ other ∈ keys, other ≠ key := fun other hmem hsame =>
            hnodup.1 (hsame ▸ hmem)
          have habsent' : ∀ other ∈ keys, middle.value? other = none := by
            intro other hmem
            rw [htouched.value? other (hne other hmem), habsent.2 other hmem]
          obtain ⟨after, hrun, hkeys, hothers⟩ := ih hnodup.2 hstep.2 habsent'
          refine ⟨after, ⟨middle, hline, hrun⟩, List.forall_mem_cons.mpr ⟨?_, ?_⟩, ?_⟩
          · rw [hothers key hnodup.1, htouched.entry_eq, leftEntry, hvalue]
          · intro other hmem
            rw [hkeys other hmem, htouched.expiration? other (hne other hmem)]
          · intro other hother
            rw [List.mem_cons, not_or] at hother
            rw [hothers other hother.2, htouched.entry hother.1]

variable {storageRoot : Str} {compiled : P.Pattern}

/-- The entries that all lines of an export leave, in a memory without values under
the keys that are found. -/
theorem steps_export (step : JsValue → Memory → Memory → Prop)
    (entry : Value → Int → Option Int → Entry) (exported : Int) (source : Memory)
    (hstep : ∀ key value, P.finds compiled key = true → source.value? key = some value →
      WritesEntry P step entry exported key (source.expiration? key) value)
    {before : Memory} (habsent : ∀ key, P.finds compiled key = true → before.value? key = none) :
    ∃ after, Steps step (linesOf P exported source (P.keyOrder (foundKeys P compiled source)))
        before after ∧
      ∀ key, after.entry P.toStorePlatform key = if P.finds compiled key = true then
        leftEntry entry exported source key (before.expiration? key)
      else before.entry P.toStorePlatform key := by
  have hmem : ∀ key, key ∈ P.keyOrder (foundKeys P compiled source) ↔
      P.finds compiled key = true ∧ source.value? key ≠ none := by
    intro key
    rw [P.mem_keyOrder, mem_foundKeys]
  obtain ⟨after, hrun, hkeys, hothers⟩ := steps_linesOf exported source (P.nodup_keyOrder _)
    (fun key hkey value => hstep key value ((hmem key).mp hkey).1)
    (fun key hkey => habsent key ((hmem key).mp hkey).1)
  refine ⟨after, hrun, fun key => ?_⟩
  by_cases hfinds : P.finds compiled key = true
  · rw [if_pos hfinds]
    by_cases hvalue : source.value? key = none
    · rw [hothers key (fun hkey => ((hmem key).mp hkey).2 hvalue), leftEntry, hvalue,
        Memory.entry, habsent key hfinds]
      rfl
    · exact hkeys key ((hmem key).mpr ⟨hfinds, hvalue⟩)
  · rw [if_neg hfinds, hothers key (fun hkey => hfinds ((hmem key).mp hkey).1)]

theorem importLines_of_steps {lines : List JsValue} {before after : Memory}
    (h : Steps (fun line before after => importLine P impl now line before = (.ok (), after))
      lines before after) : importLines P impl now lines before = (.ok (), after) := by
  induction lines generalizing before with
  | nil => exact congrArg (Prod.mk _) h
  | cons line lines ih =>
      obtain ⟨middle, hline, hlines⟩ := h
      rw [importLines, bind_of_ok hline]
      exact ih hlines

theorem removeAll_apply (keys : List Str) : RedisLike.removeAll keys memory =
    (.ok (), { memory with store := Maps.eraseAll keys memory.store }) := by
  induction keys generalizing memory with
  | nil => rfl
  | cons key keys ih =>
      have hremove : Memory.remove key memory =
        (.ok (), { memory with store := memory.store.erase key }) := rfl
      rw [RedisLike.removeAll, bind_of_ok hremove, ih]
      rfl

theorem exec_del (keys : List Str) :
    impl.exec P.toStorePlatform now (.del keys) memory = (.ok (.long keys.length),
      { memory with store := Maps.eraseAll keys memory.store }) := by
  have hdel : RedisLike.del keys memory = (.ok (keys.length : Int),
      { memory with store := Maps.eraseAll keys memory.store }) := by
    rw [RedisLike.del, bind_of_ok (removeAll_apply keys)]
    rfl
  cases impl <;> exact bind_of_ok hdel

/-- The target of an import without the values of the found keys. -/
def cleared (P : NdJsonPlatform) (compiled : P.Pattern) (target : Memory) : Memory where
  store := Maps.eraseAll (P.keyOrder (foundKeys P compiled target)) target.store
  expirations := target.expirations

theorem value?_cleared (target : Memory) : (cleared P compiled target).value? key =
    if P.finds compiled key = true then none else target.value? key := by
  have hdeleted : key ∈ P.keyOrder (foundKeys P compiled target) ↔
      P.finds compiled key = true ∧ target.value? key ≠ none := by
    rw [P.mem_keyOrder, mem_foundKeys]
  rw [Memory.value?, cleared, Maps.lookup_eraseAll, ← Memory.value?]
  by_cases hfinds : P.finds compiled key = true
  · rw [if_pos hfinds]
    by_cases hvalue : target.value? key = none
    · rw [hvalue, ite_self]
    · rw [if_pos (hdeleted.mpr ⟨hfinds, hvalue⟩)]
  · rw [if_neg hfinds, if_neg (fun hmem => hfinds (hdeleted.mp hmem).1)]

theorem fullNdJsonImport_eq
    (hcompiled : compileRoot P storageRoot = some compiled)
    (lines : List JsValue) (target : Memory) :
    fullNdJsonImport P impl storageRoot now lines target =
      importLines P impl now lines (cleared P compiled target) := by
  rw [fullNdJsonImport, bind_of_ok (mapError_of_ok (keys_apply hcompiled) _)]
  by_cases hempty : foundKeys P compiled target = ∅
  · have hnone : P.keyOrder ∅ = [] := by
      rw [List.eq_nil_iff_forall_not_mem]
      intro key
      rw [P.mem_keyOrder]
      exact Finset.notMem_empty key
    rw [if_pos hempty, cleared, hempty, hnone]
    rfl
  · rw [if_neg hempty, bind_of_ok (call_of_ok (exec_del _))]
    rfl

/-- What an import of an export leaves under every key. -/
theorem fullNdJsonImport_linesOf (impl : Implementation)
    (hcompiled : compileRoot P storageRoot = some compiled) (exported now : Int)
    (source target : Memory) :
    ∃ after, fullNdJsonImport P impl storageRoot now
        (linesOf P exported source (P.keyOrder (foundKeys P compiled source))) target =
          (.ok (), after) ∧
      ∀ key, after.entry P.toStorePlatform key = if P.finds compiled key = true then
          leftEntry (importedEntry P.toStorePlatform now) exported source key
            (target.expiration? key)
        else target.entry P.toStorePlatform key := by
  have habsent : ∀ key, P.finds compiled key = true →
      (cleared P compiled target).value? key = none := by
    intro key hfinds
    rw [value?_cleared, if_pos hfinds]
  obtain ⟨after, hsteps, hentry⟩ := steps_export
    (fun line before after => importLine P impl now line before = (.ok (), after))
    (importedEntry P.toStorePlatform now) exported source
    (fun key value _ _ _ h =>
      importLine_lineOf impl now exported (source.expiration? key) value h)
    habsent
  refine ⟨after, (fullNdJsonImport_eq hcompiled _ target).trans (importLines_of_steps hsteps), ?_⟩
  intro key
  rw [hentry key]
  by_cases hfinds : P.finds compiled key = true
  · rw [if_pos hfinds, if_pos hfinds]
    rfl
  · rw [if_neg hfinds, if_neg hfinds, Memory.entry, value?_cleared, if_neg hfinds]
    rfl

end Write

/-! ## What a reader leaves -/

section Read

variable {P : NdJsonPlatform} {key : Str} {memory : Memory}

/-- What the readers need of the platform: the texts of the lines are parsed to the
lines again, and none of them is blank. -/
structure Readable (P : NdJsonPlatform) (lines : List JsValue) : Prop where
  parse_stringify : ∀ line ∈ lines, P.parse (P.stringify line) = .ok line
  not_blank : ∀ line ∈ lines, trimsToEmpty (P.stringify line) = false

/-- The entry that a line leaves in a new memory. -/
def readEntry (P : StorePlatform) (value : Value) (expiresAt : Int) (leftover : Option Int) :
    Entry :=
  (some (value.recodedData P), if -1 < expiresAt then some expiresAt else leftover)

theorem mapM_fields (fields : List ((_ : Str) × ByteString)) :
    (fields.map fun field => (field.1, JsValue.string (P.utf8String field.2))).mapM
      (fun field => (Reads.string field.2).map fun str => (field.1, P.encode str)) =
        (.ok (fields.map fun field => (field.1, P.recode field.2)) :
          JsResult (List (Str × ByteString))) := by
  induction fields with
  | nil => rfl
  | cons field fields ih =>
      rw [List.map_cons, List.mapM_cons, ih]
      rfl

theorem fromJson_toJson (value : Value) :
    ∃ read, fromJson P (toJson P value).1.toList (toJson P value).2 = .ok (some read) ∧
      read.data P.toStorePlatform = value.recodedData P.toStorePlatform := by
  cases value with
  | bytes bs =>
      refine ⟨.bytes (P.recode bs), ?_, rfl⟩
      show fromJson P "string".toList _ = _
      rw [fromJson, if_neg (by decide), if_pos rfl]
      rfl
  | counter n =>
      refine ⟨.bytes (P.encode (longText n)), ?_, rfl⟩
      show fromJson P "string".toList _ = _
      rw [fromJson, if_neg (by decide), if_pos rfl]
      rfl
  | hash fields =>
      refine ⟨_, ?_, data_insertAll fields⟩
      show fromJson P "hash".toList _ = _
      rw [fromJson, if_neg (by decide), if_neg (by decide), if_neg (by decide),
        if_neg (by decide), if_pos rfl]
      show ((List.mapM _ _ : JsResult (List (Str × ByteString))) >>= _) = _
      rw [mapM_fields]
      rfl
  | list elements =>
      refine ⟨.list (elements.map P.recode), ?_, rfl⟩
      show fromJson P "list".toList (Json.strings _) = _
      rw [fromJson, if_neg (by decide), if_neg (by decide), if_neg (by decide), if_pos rfl,
        reads_strings]
      show Except.ok (some (Value.list (List.map _ (List.map _ _)))) = _
      rw [List.map_map]
      rfl
  | set members =>
      refine ⟨.set (members.image P.recode), ?_, rfl⟩
      show fromJson P "set".toList (Json.strings _) = _
      rw [fromJson, if_neg (by decide), if_neg (by decide), if_pos rfl, reads_strings,
        ← toFinset_memberOrder]
      show Except.ok (some (Value.set (List.toFinset (List.map _ (List.map _ _))))) = _
      rw [List.map_map]
      rfl

theorem readLine_lineOf (exported : Int) (expiration : Option Int) (value : Value)
    (hparse : P.parse (P.stringify (lineOf P exported key expiration value)) =
      .ok (lineOf P exported key expiration value)) :
    ∃ after, readLine P memory (P.stringify (lineOf P exported key expiration value)) =
        .ok after ∧
      Touched P.toStorePlatform key (readEntry P.toStorePlatform value
        (exportedTime exported expiration) (memory.expiration? key)) memory after := by
  obtain ⟨read, hread, hdata⟩ := fromJson_toJson (P := P) value
  have hline : readLine P memory (P.stringify (lineOf P exported key expiration value)) = .ok {
      store := memory.store.insert key read
      expirations := if -1 < exportedTime exported expiration then
        memory.expirations.insert key (exportedTime exported expiration)
      else memory.expirations } := by
    rw [readLine, hparse, ok_bind, select_key, select_value, select_kind, select_time]
    show (fromJson P _ _ >>= _) = _
    rw [hread]
    rfl
  have hwritten := written_insert (P := P) key memory read
  rw [hdata] at hwritten
  refine ⟨_, hline, ?_⟩
  rw [readEntry]
  by_cases hexpires : -1 < exportedTime exported expiration
  · rw [if_pos hexpires, if_pos hexpires]
    exact hwritten.touched_expiration _
  · rw [if_neg hexpires, if_neg hexpires]
    exact hwritten.touched

theorem foldlM_of_steps {lines : List JsValue} {before after : Memory}
    (h : Steps (fun line before after => readLine P before (P.stringify line) = .ok after)
      lines before after) :
    (lines.map P.stringify).foldlM (readLine P) before = .ok after := by
  induction lines generalizing before with
  | nil => exact congrArg Except.ok h
  | cons line lines ih =>
      obtain ⟨middle, hline, hlines⟩ := h
      rw [List.map_cons, List.foldlM_cons, hline, ok_bind]
      exact ih hlines

theorem mem_linesOf {exported : Int} {source : Memory} {keys : List Str} {line : JsValue} :
    line ∈ linesOf P exported source keys ↔ ∃ key ∈ keys, ∃ value,
      source.value? key = some value ∧
        lineOf P exported key (source.expiration? key) value = line := by
  simp only [linesOf, List.mem_filterMap, Option.map_eq_some_iff]

variable {storageRoot : Str} {compiled : P.Pattern}

/-- What the readers make of the lines of an export. -/
theorem foldlM_readLine_linesOf (exported : Int) (source : Memory)
    (hreadable : Readable P
      (linesOf P exported source (P.keyOrder (foundKeys P compiled source)))) :
    ∃ new, ((linesOf P exported source (P.keyOrder (foundKeys P compiled source))).map
        P.stringify).foldlM (readLine P) .empty = .ok new ∧
      ∀ key, new.entry P.toStorePlatform key = if P.finds compiled key = true then
        leftEntry (readEntry P.toStorePlatform) exported source key none else (none, none) := by
  obtain ⟨new, hsteps, hentry⟩ := steps_export
    (fun line before after => readLine P before (P.stringify line) = .ok after)
    (readEntry P.toStorePlatform) exported source
    (fun key value hfinds hvalue before _ => by
      refine readLine_lineOf exported _ value (hreadable.parse_stringify _ (mem_linesOf.mpr ?_))
      refine ⟨key, ?_, value, hvalue, rfl⟩
      rw [P.mem_keyOrder, mem_foundKeys, hvalue]
      exact ⟨hfinds, Option.some_ne_none value⟩)
    (fun _ _ => rfl : ∀ key, P.finds compiled key = true → Memory.empty.value? key = none)
  exact ⟨new, foldlM_of_steps hsteps, hentry⟩

theorem entry_swapIn (impl : Implementation) (new target : Memory) :
    (swapIn impl storageRoot new target).entry P.toStorePlatform key =
      new.entry P.toStorePlatform key := by
  cases impl with
  | legacy => rfl
  | modern =>
      rw [swapIn, ModernSwappableInMemoryRedis.rawSwap, Memory.entry, ModernMemory.value?_swap,
        ModernMemory.expiration?_swap]
      rfl

end Read

/-! ## The ways to import -/

/-- How the lines of an export get into a store. -/
inductive Importer
  | ndJson
  | file
  | http
  deriving DecidableEq

namespace Importer

variable (P : NdJsonPlatform)

/-- The memory after the import. The readers take the lines as texts. -/
def run (impl : Implementation) (storageRoot : Str) (now : Int) (lines : List JsValue)
    (target : Memory) : Importer → Except ImportException Memory
  | .ndJson =>
      let (result, after) := fullNdJsonImport P impl storageRoot now lines target
      result.map fun _ => after
  | .file => (readStateFromDisk P impl storageRoot (lines.map P.stringify) target).mapError .json
  | .http => (readStateFromHttp P impl storageRoot (lines.map P.stringify) target).mapError .json

/-- The entry that a line leaves. -/
def entry (P : StorePlatform) (now : Int) : Importer → Value → Int → Option Int → Entry
  | .ndJson => importedEntry P now
  | .file => readEntry P
  | .http => readEntry P

/-- What stays of the store that is written to, under the keys without a line. -/
def kept (target : Memory) : Importer → Memory
  | .ndJson => target
  | .file => .empty
  | .http => .empty

/-- The value does not come through. -/
def loses (value : Value) : Importer → Bool
  | .ndJson => value.isEmptyCollection
  | .file => false
  | .http => false

variable {P} {impl : Implementation} {storageRoot : Str} {compiled : P.Pattern}

theorem run_linesOf (importer : Importer) (impl : Implementation)
    (hcompiled : compileRoot P storageRoot = some compiled)
    (exported now : Int) (source target : Memory)
    (hreadable : Readable P
      (linesOf P exported source (P.keyOrder (foundKeys P compiled source)))) :
    ∃ after, importer.run P impl storageRoot now
        (linesOf P exported source (P.keyOrder (foundKeys P compiled source))) target =
          .ok after ∧
      ∀ key, after.entry P.toStorePlatform key = if P.finds compiled key = true then
          leftEntry (importer.entry P.toStorePlatform now) exported source key
            ((importer.kept target).expiration? key)
        else (importer.kept target).entry P.toStorePlatform key := by
  cases importer with
  | ndJson =>
      obtain ⟨after, hrun, hentry⟩ := fullNdJsonImport_linesOf impl hcompiled exported now
        source target
      exact ⟨after, by rw [run, hrun]; rfl, hentry⟩
  | file =>
      obtain ⟨new, hrun, hentry⟩ := foldlM_readLine_linesOf exported source hreadable
      refine ⟨swapIn impl storageRoot new target, ?_, fun key => ?_⟩
      · rw [run, readStateFromDisk, List.filter_eq_self.mpr, hrun]
        · rfl
        · intro text htext
          obtain ⟨line, hline, rfl⟩ := List.mem_map.mp htext
          rw [hreadable.not_blank line hline]
          rfl
      · rw [entry_swapIn, hentry key]
        rfl
  | http =>
      obtain ⟨new, hrun, hentry⟩ := foldlM_readLine_linesOf exported source hreadable
      refine ⟨swapIn impl storageRoot new target, ?_, fun key => ?_⟩
      · rw [run, readStateFromHttp, hrun]
        rfl
      · rw [entry_swapIn, hentry key]
        rfl

end Importer

end Otoroshi
