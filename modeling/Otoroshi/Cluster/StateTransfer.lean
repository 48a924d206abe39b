/-
# A worker takes over the state of its leader

`reproduces_iff` says when a worker accepts what its leader publishes, and then has exactly
the keys, values, types and times that were exported. A state that is compressed must not be
looked through for references to secrets: what comes out is no compressed state any more.

Where secrets are filled in, the value of an item is the one in its line with the secrets.
-/

import Otoroshi.Cluster.StateExports
import Otoroshi.Foundation.Utf8
import Otoroshi.Storage.Restore

namespace Otoroshi

namespace Cluster

open Memory Placeholders

/-- The first bytes of compressed data. -/
def gzipMagic : ByteString := [0x1f, 0x8b]

/-- What the platform promises, for the lines of an export as far as it is about JSON. -/
structure ClusterPlatform.Lawful (P : ClusterPlatform) (content : Exported) : Prop where
  encode_eq : ∀ text, P.encode text = Utf8.encode text
  utf8String_encode : ∀ text, P.utf8String (Utf8.encode text) = text
  utf8String_cons : ∀ bytes, P.utf8String (0x1f :: bytes) = Char.ofNat 0x1f :: P.utf8String bytes
  gunzip_gzip : ∀ level, 0 ≤ level → level ≤ 9 → ∀ chunks,
    P.gunzip (P.gzip level chunks) = some chunks.flatten
  magic_gzip : ∀ level, 0 ≤ level → level ≤ 9 → ∀ chunks, gzipMagic <+: P.gzip level chunks
  magic_of_gunzip : ∀ bytes body, P.gunzip bytes = some body → bytes = [] ∨ gzipMagic <+: bytes
  newline_notMem : ∀ json, '\n' ∉ P.stringify json
  getLast_stringify : ∀ item ∈ content.items, (P.stringify (item.json P)).getLast? = some '}'
  parse_stringify : ∀ item ∈ content.items,
    P.parse (P.stringify (item.json P)) = .ok (item.json P)

/-- A level of the compression, or `-1` for none. -/
structure Compression where
  level : Int
  neg_one_le : -1 ≤ level
  le_nine : level ≤ 9

/-! ## Items and their lines -/

section Lines

variable (P : ClusterPlatform)

/-- The JSON has the key, the type and the time of the item. -/
structure SameItem (item : ExportedItem) (json : JsValue) : Prop where
  key : json.select "k" = some (.string item.key)
  what : json.select "w" = some (.string (item.what P))
  expiresAt : (json.select "t").asOptOrElse .long ⟨-1, rfl⟩ = item.expiresAt

/-- The line says nothing of another item. -/
def Keeps (item : ExportedItem) (line : Str) : Prop :=
  ∀ json, P.parse line = .ok json → SameItem P item json

/-- The line is a line of the item. -/
def Remains (item : ExportedItem) (line : Str) : Prop :=
  ∃ json value read, P.parse line = .ok json ∧ SameItem P item json ∧
    json.select "v" = some value ∧
    Persistence.fromJson P.toNdJsonPlatform (item.what P) value = .ok (some read)

/-- The value that a line has for an item. -/
def valueOf (item : ExportedItem) (line : Str) : Option Value := do
  let json ← (P.parse line).toOption
  let value ← json.select "v"
  let read ← (Persistence.fromJson P.toNdJsonPlatform (item.what P) value).toOption
  read

/-- What a worker should have for an item. -/
def itemEntry (item : ExportedItem) (line : Str) : Entry :=
  (some (((valueOf P item line).map (Value.data P.toStorePlatform)).getD
      (item.value.recodedData P.toStorePlatform)),
    if -1 < item.expiresAt.1 then some item.expiresAt.1 else none)

variable {P} {item : ExportedItem} {line : Str} {before after : Memory}

theorem fromJson_ne_none (value : Value) (json : JsValue) :
    Persistence.fromJson P.toNdJsonPlatform
      (InMemoryDataStores.toJson P.toNdJsonPlatform value).1.toList json ≠ .ok none := by
  have hsome : ∀ {α : Type} (result : JsResult α) (f : α → Value),
      (result >>= fun a => (pure (some (f a)) : JsResult (Option Value))) ≠ .ok none := by
    intro α result f h
    cases result with
    | error e => cases h
    | ok a => cases h
  intro h
  cases value with
  | bytes bs =>
      change Persistence.fromJson P.toNdJsonPlatform "string".toList json = _ at h
      rw [Persistence.fromJson, if_neg (by decide), if_pos rfl] at h
      exact hsome _ _ h
  | counter n =>
      change Persistence.fromJson P.toNdJsonPlatform "string".toList json = _ at h
      rw [Persistence.fromJson, if_neg (by decide), if_pos rfl] at h
      exact hsome _ _ h
  | hash fields =>
      change Persistence.fromJson P.toNdJsonPlatform "hash".toList json = _ at h
      rw [Persistence.fromJson, if_neg (by decide), if_neg (by decide), if_neg (by decide),
        if_neg (by decide), if_pos rfl] at h
      obtain ⟨fields, -, hentries⟩ := bind_eq_ok_iff.mp h
      exact hsome _ _ hentries
  | list elements =>
      change Persistence.fromJson P.toNdJsonPlatform "list".toList json = _ at h
      rw [Persistence.fromJson, if_neg (by decide), if_neg (by decide), if_neg (by decide),
        if_pos rfl] at h
      exact hsome _ _ h
  | set members =>
      change Persistence.fromJson P.toNdJsonPlatform "set".toList json = _ at h
      rw [Persistence.fromJson, if_neg (by decide), if_neg (by decide), if_pos rfl] at h
      exact hsome _ _ h

variable {content : Exported} (hP : P.Lawful content)

include hP

theorem readFrame_of_error {e : JsException} (h : P.parse line = .error e) :
    readFrame P before (P.encode line) = .ok before := by
  rw [readFrame, hP.encode_eq, hP.utf8String_encode, h]

/-- The frame of a line that is JSON. -/
theorem readFrame_of_ok {json : JsValue} (hparse : P.parse line = .ok json)
    (hsame : SameItem P item json) :
    readFrame P before (P.encode line) = (do
      let value ← (json.select "v").as .jsValue
      let found ← Persistence.fromJson P.toNdJsonPlatform (item.what P) value
      pure {
        store := match found with
          | some v => before.store.insert item.key v
          | none => before.store
        expirations := if -1 < item.expiresAt.1 then
            before.expirations.insert item.key item.expiresAt.1
          else before.expirations }) := by
  rw [readFrame, hP.encode_eq, hP.utf8String_encode, hparse]
  show Persistence.readLine P.toNdJsonPlatform before line = _
  rw [Persistence.readLine, hparse, ok_bind, hsame.key, hsame.what, hsame.expiresAt]
  rfl

theorem touched_of_remains (h : Remains P item line)
    (hfresh : before.expiration? item.key = none) :
    ∃ after, readFrame P before (P.encode line) = .ok after ∧
      Touched P.toStorePlatform item.key (itemEntry P item line) before after := by
  obtain ⟨json, value, read, hparse, hsame, hvalue, hread⟩ := h
  have hfound : valueOf P item line = some read := by
    simp [valueOf, hparse, hvalue, hread, Except.toOption]
  have hframe : readFrame P before (P.encode line) = .ok {
      store := before.store.insert item.key read
      expirations := if -1 < item.expiresAt.1 then
          before.expirations.insert item.key item.expiresAt.1
        else before.expirations } := by
    rw [readFrame_of_ok hP hparse hsame, hvalue]
    show (Persistence.fromJson _ _ _ >>= _) = _
    rw [hread]
    rfl
  have hwritten := written_insert (P := P.toNdJsonPlatform) item.key before read
  refine ⟨_, hframe, ?_⟩
  rw [itemEntry, hfound]
  by_cases hexpires : -1 < item.expiresAt.1
  · rw [if_pos hexpires, if_pos hexpires]
    exact hwritten.touched_expiration _
  · rw [if_neg hexpires, if_neg hexpires, ← hfresh]
    exact hwritten.touched

/-- Either the line is skipped, or it is a line of its item. -/
theorem remains_of_readFrame (hkeeps : Keeps P item line)
    (hread : readFrame P before (P.encode line) = .ok after) :
    (∃ e, P.parse line = .error e) ∨ Remains P item line := by
  cases hparse : P.parse line with
  | error e => exact Or.inl ⟨e, rfl⟩
  | ok json =>
      right
      have hsame := hkeeps json hparse
      rw [readFrame_of_ok hP hparse hsame] at hread
      cases hvalue : json.select "v" with
      | none =>
          rw [hvalue] at hread
          cases hread
      | some value =>
          rw [hvalue] at hread
          obtain ⟨found, hfound, -⟩ := bind_eq_ok_iff.mp
            (show (Persistence.fromJson P.toNdJsonPlatform (item.what P) value >>= _) =
              .ok after from hread)
          cases found with
          | none => exact absurd hfound (fromJson_ne_none _ _)
          | some read => exact ⟨json, value, read, hparse, hsame, hvalue, hfound⟩

omit hP in
theorem keeps_of_remains (h : Remains P item line) : Keeps P item line := by
  obtain ⟨json, value, read, hparse, hsame, -⟩ := h
  intro other hother
  rw [hparse] at hother
  cases hother
  exact hsame

/-- A line is its item's own as it was exported. -/
theorem remains_stringify (hitem : item ∈ content.items) :
    Remains P item (P.stringify (item.json P)) := by
  obtain ⟨read, hread, -⟩ := fromJson_toJson (P := P.toNdJsonPlatform) item.value
  refine ⟨item.json P, _, read, hP.parse_stringify item hitem, ⟨?_, ?_, ?_⟩, ?_, hread⟩
  · simp [ExportedItem.json]
  · simp [ExportedItem.json]
  · have hselect : (item.json P).select "t" = some (Json.long item.expiresAt) := by
      simp [ExportedItem.json]
    rw [hselect]
    exact asOptOrElse_of_ok (reads_long _) _
  · simp [ExportedItem.json]

/-! ## All lines -/

/-- The lines of some items leave every other key as it is. -/
theorem entry_of_foldlM {items : List ExportedItem} {lines : List Str} {before new : Memory}
    (hkeeps : List.Forall₂ (Keeps P) items lines)
    (habsent : ∀ item ∈ items, before.expiration? item.key = none)
    (hnodup : (items.map (·.key)).Nodup)
    (hnew : (lines.map P.encode).foldlM (readFrame P) before = .ok new)
    {key : Str} (hkey : key ∉ items.map (·.key)) :
    new.entry P.toStorePlatform key = before.entry P.toStorePlatform key := by
  induction hkeeps generalizing before with
  | nil =>
      cases hnew
      rfl
  | @cons item line items lines hline hlines ih =>
      rw [List.map_cons, List.foldlM_cons] at hnew
      obtain ⟨middle, hmiddle, hrest⟩ := bind_eq_ok_iff.mp hnew
      rw [List.map_cons, List.mem_cons, not_or] at hkey
      rw [List.forall_mem_cons] at habsent
      rw [List.map_cons, List.nodup_cons] at hnodup
      rcases remains_of_readFrame hP hline hmiddle with ⟨e, herror⟩ | hremains
      · rw [readFrame_of_error hP herror] at hmiddle
        cases hmiddle
        exact ih habsent.2 hnodup.2 hrest hkey.2
      · obtain ⟨after, hafter, htouched⟩ := touched_of_remains hP hremains habsent.1
        rw [hmiddle] at hafter
        cases hafter
        have habsent' : ∀ other ∈ items, middle.expiration? other.key = none := by
          intro other hother
          rw [htouched.expiration? other.key, habsent.2 other hother]
          intro hsame
          exact hnodup.1 (hsame ▸ List.mem_map_of_mem hother)
        rw [ih habsent' hnodup.2 hrest hkey.2, htouched.entry hkey.1]

/-- No item has an entry. -/
def Absent (P : StorePlatform) (items : List ExportedItem) (memory : Memory) : Prop :=
  ∀ item ∈ items, memory.entry P item.key = (none, none)

omit hP in
theorem Absent.expiration? {items : List ExportedItem} {memory : Memory}
    (h : Absent P.toStorePlatform items memory) :
    ∀ item ∈ items, memory.expiration? item.key = none := fun item hitem =>
  congrArg Prod.snd (h item hitem)

omit hP in
/-- The items after the one whose line has been read. -/
theorem Absent.of_touched {items : List ExportedItem} {entry : Entry}
    (habsent : Absent P.toStorePlatform items before) (hnotMem : item.key ∉ items.map (·.key))
    (h : Touched P.toStorePlatform item.key entry before after) :
    Absent P.toStorePlatform items after := by
  intro other hother
  have hne : other.key ≠ item.key := fun hsame =>
    hnotMem (hsame ▸ List.mem_map_of_mem hother)
  rw [h.entry hne, habsent other hother]

/-- Lines of all items give the entries of all items. -/
theorem exists_of_remains {items : List ExportedItem} {lines : List Str}
    (hremains : List.Forall₂ (Remains P) items lines) (hnodup : (items.map (·.key)).Nodup)
    (habsent : Absent P.toStorePlatform items before) :
    ∃ new, (lines.map P.encode).foldlM (readFrame P) before = .ok new ∧
      List.Forall₂ (fun item line => new.entry P.toStorePlatform item.key =
        itemEntry P item line) items lines := by
  induction hremains generalizing before with
  | nil => exact ⟨before, rfl, List.Forall₂.nil⟩
  | @cons item line items lines hline hlines ih =>
      rw [List.map_cons, List.nodup_cons] at hnodup
      have hrest : Absent P.toStorePlatform items before := fun other hother =>
        habsent other (List.mem_cons_of_mem item hother)
      obtain ⟨middle, hmiddle, htouched⟩ := touched_of_remains hP hline
        (habsent.expiration? item List.mem_cons_self)
      have hafter := hrest.of_touched hnodup.1 htouched
      obtain ⟨new, hnew, hentries⟩ := ih hnodup.2 hafter
      refine ⟨new, ?_, List.Forall₂.cons ?_ hentries⟩
      · rw [List.map_cons, List.foldlM_cons, hmiddle]
        exact hnew
      · have hkeeps := hlines.imp fun _ _ h => keeps_of_remains h
        rw [entry_of_foldlM hP hkeeps hafter.expiration? hnodup.2 hnew hnodup.1,
          htouched.entry_eq]

/-- The entries of all items come from lines of all items. -/
theorem remains_of_entries {items : List ExportedItem} {lines : List Str} {new : Memory}
    (hkeeps : List.Forall₂ (Keeps P) items lines) (hnodup : (items.map (·.key)).Nodup)
    (habsent : Absent P.toStorePlatform items before)
    (hnew : (lines.map P.encode).foldlM (readFrame P) before = .ok new)
    (hentries : List.Forall₂ (fun item line => new.entry P.toStorePlatform item.key =
      itemEntry P item line) items lines) :
    List.Forall₂ (Remains P) items lines := by
  induction hkeeps generalizing before with
  | nil => exact List.Forall₂.nil
  | @cons item line items lines hline hlines ih =>
      rw [List.map_cons, List.nodup_cons] at hnodup
      rw [List.map_cons, List.foldlM_cons] at hnew
      obtain ⟨hentry, hothers⟩ := List.forall₂_cons.mp hentries
      obtain ⟨middle, hmiddle, hrest⟩ := bind_eq_ok_iff.mp hnew
      have habsentRest : Absent P.toStorePlatform items before := fun other hother =>
        habsent other (List.mem_cons_of_mem item hother)
      rcases remains_of_readFrame hP hline hmiddle with ⟨e, herror⟩ | hremains
      · -- the key of a line that is skipped is never written
        rw [readFrame_of_error hP herror] at hmiddle
        cases hmiddle
        rw [entry_of_foldlM hP hlines habsentRest.expiration? hnodup.2 hrest hnodup.1,
          habsent item List.mem_cons_self] at hentry
        cases congrArg Prod.fst hentry
      · obtain ⟨after, hafter, htouched⟩ := touched_of_remains hP hremains
          (habsent.expiration? item List.mem_cons_self)
        rw [hmiddle] at hafter
        cases hafter
        exact List.Forall₂.cons hremains
          (ih hnodup.2 (habsentRest.of_touched hnodup.1 htouched) hrest hothers)

end Lines

/-! ## What is published -/

section Published

variable {σ : Type} (P : ClusterPlatform) (vaults : Vaults σ) (compression : Int)
  (content : Exported) (state : σ)

/-- The line of an item, with its secrets if the leader is to fill them in. -/
def publishedLine (item : ExportedItem) : StateM σ Str :=
  if vaults.leaderFetchOnly then fillSecretsAsync P vaults (P.stringify (item.json P))
  else pure (P.stringify (item.json P))

def publishedLines : List Str := (content.items.mapM (publishedLine P vaults) state).1

def published : PublishedState :=
  (cacheState P vaults compression (content.items.map (·.json P)) state).1

/-- The worker accepts the state, every line is about its own item, and the new maps hold the
items and nothing else. -/
def Reproduces : Prop :=
  ∃ new, pollState P compression (published P vaults compression content state) = some new ∧
    List.Forall₂ (Keeps P) content.items (publishedLines P vaults content state) ∧
    List.Forall₂ (fun item line => new.entry P.toStorePlatform item.key = itemEntry P item line)
      content.items (publishedLines P vaults content state) ∧
    ∀ key, key ∉ content.items.map (·.key) → new.entry P.toStorePlatform key = (none, none)

/-- Secrets are not filled into a compressed state, no line is too long, and a line with its
secrets is still a line of its item. -/
structure Transfers : Prop where
  separate : compression = -1 ∨ vaults.leaderFetchOnly = false
  short : ∀ line ∈ publishedLines P vaults content state,
    (P.encode line).length ≤ maximumFrameLength
  remains : vaults.leaderFetchOnly = true →
    List.Forall₂ (Remains P) content.items (publishedLines P vaults content state)

variable {P vaults compression content state}

/-- The bytes of some lines. -/
def linesBytes (P : ClusterPlatform) (lines : List Str) : ByteString :=
  lines.flatMap fun line => P.encode (line ++ "\n".toList)

variable (hP : P.Lawful content)

include hP

theorem linesBytes_eq_join (lines : List Str) :
    linesBytes P lines = Framing.join lineBreak (lines.map P.encode) := by
  rw [linesBytes, Framing.join, List.flatMap_map]
  congr 1
  funext line
  rw [hP.encode_eq, hP.encode_eq, Utf8.encode_append]
  rfl

theorem linesBytes_eq_encode (lines : List Str) :
    linesBytes P lines = Utf8.encode (lines.flatMap (· ++ "\n".toList)) := by
  rw [linesBytes]
  induction lines with
  | nil => rfl
  | cons line lines ih =>
      rw [List.flatMap_cons, List.flatMap_cons, ih, hP.encode_eq, ← Utf8.encode_append]

/-- A worker that gets the bytes of some lines, with their count and digest. -/
theorem pollState_of_lines {lines : List Str} (hlines : ∀ line ∈ lines, '\n' ∉ line)
    {received : PublishedState}
    (hbody : gunzipFlow P compression received.cachedState = some (linesBytes P lines))
    (hcount : received.cachedCount = lines.length)
    (hdigest : received.cachedDigest = P.sha256 (linesBytes P lines)) :
    pollState P compression received =
      if ∀ line ∈ lines, (P.encode line).length ≤ maximumFrameLength then
        ((lines.map P.encode).foldlM (readFrame P) .empty).toOption
      else none := by
  have hbytes : ∀ bytes ∈ lines.map P.encode, lineBreak ∉ bytes := by
    intro bytes hmem
    obtain ⟨line, hline, rfl⟩ := List.mem_map.mp hmem
    rw [hP.encode_eq]
    exact Utf8.newline_notMem_encode (hlines line hline)
  rw [pollState, hbody, linesBytes_eq_join hP]
  show (Framing.delimiter lineBreak maximumFrameLength _ >>= _) = _
  rw [Framing.delimiter_join _ hbytes]
  simp only [List.forall_mem_map]
  split
  · show (((lines.map P.encode).foldlM (readFrame P) .empty).toOption >>= _) = _
    cases (lines.map P.encode).foldlM (readFrame P) .empty with
    | error e => rfl
    | ok new =>
        show (if _ then some new else none) = some new
        rw [if_pos]
        rw [List.length_map, hcount, hdigest, linesBytes_eq_join hP]
        exact ⟨rfl, rfl⟩
  · rfl

omit hP in
theorem newline_notMem_escapeSecret (hP : P.Lawful content) (secret : Str) :
    '\n' ∉ escapeSecret P secret := fun h =>
  hP.newline_notMem _ ((List.drop_sublist 1 _).subset ((List.dropLast_sublist _).subset h))

omit hP in
theorem secretOf_apply {expression : Str} {state after : σ} {found : Option Str}
    (h : vaults.resolve expression state = (found, after)) :
    secretOf P vaults expression state =
      ((found.map (escapeSecret P)).getD "not-found".toList, after) := by
  simp only [secretOf, bind, StateT.bind, h]
  cases found with
  | none => rfl
  | some secret => rfl

theorem newline_notMem_fillSecretsAsync {line : Str} (hline : '\n' ∉ line) (state : σ) :
    '\n' ∉ (fillSecretsAsync P vaults line state).1 := by
  rw [fillSecretsAsync]
  split
  · apply newline_notMem_replaceOnAsync _ line hline
    intro expression state
    cases hfound : vaults.resolve expression state with
    | mk found after =>
        rw [secretOf_apply hfound]
        cases found with
        | some secret => exact newline_notMem_escapeSecret hP secret
        | none =>
            show '\n' ∉ "not-found".toList
            decide
  · exact hline

omit hP in
/-- The secrets of some lines are filled in line by line. -/
theorem fillSecretsAsync_lines {lines : List Str} (hlines : ∀ line ∈ lines, Closed line) :
    fillSecretsAsync P vaults (lines.flatMap (· ++ "\n".toList)) = (do
      let filled ← lines.mapM (fillSecretsAsync P vaults)
      pure (filled.flatMap (· ++ "\n".toList))) := by
  induction lines with
  | nil =>
      rw [List.mapM_nil, pure_bind, fillSecretsAsync]
      split
      · exact replaceOnAsync_of_none rfl
      · rfl
  | cons line lines ih =>
      rw [List.forall_mem_cons] at hlines
      have hline : fillSecretsAsync P vaults ((line :: lines).flatMap (· ++ "\n".toList)) = (do
          let first ← fillSecretsAsync P vaults line
          let rest ← fillSecretsAsync P vaults (lines.flatMap (· ++ "\n".toList))
          pure (first ++ '\n' :: rest)) := by
        have htext : (line :: lines).flatMap (· ++ "\n".toList) =
            line ++ '\n' :: lines.flatMap (· ++ "\n".toList) := by
          simp [List.flatMap_cons]
        rw [htext]
        simp only [fillSecretsAsync]
        split
        · exact replaceOnAsync_append (by decide) (by decide) (by decide) line _ hlines.1
        · simp
      rw [hline, ih hlines.2, List.mapM_cons]
      simp only [bind_assoc, pure_bind, List.flatMap_cons, List.append_assoc]
      rfl

theorem newline_notMem_publishedLine (item : ExportedItem) (state : σ) :
    '\n' ∉ (publishedLine P vaults item state).1 := by
  rw [publishedLine]
  split
  · exact newline_notMem_fillSecretsAsync hP (hP.newline_notMem _) state
  · exact hP.newline_notMem _

omit hP in
/-- What holds of every result of a step holds of all results of a run. -/
theorem forall_mapM {α β : Type} {f : α → StateM σ β} {holds : β → Prop}
    (h : ∀ a state, holds (f a state).1) (items : List α) (state : σ) :
    ∀ b ∈ (items.mapM f state).1, holds b := by
  induction items generalizing state with
  | nil => exact List.forall_mem_nil _
  | cons a items ih =>
      rw [List.mapM_cons]
      show ∀ b ∈ (f a state).1 :: (items.mapM f (f a state).2).1, holds b
      rw [List.forall_mem_cons]
      exact ⟨h a state, ih (f a state).2⟩

omit hP in
theorem length_mapM {α β : Type} (f : α → StateM σ β) (items : List α) (state : σ) :
    (items.mapM f state).1.length = items.length := by
  induction items generalizing state with
  | nil => rfl
  | cons a items ih =>
      rw [List.mapM_cons]
      show ((f a state).1 :: (items.mapM f (f a state).2).1).length = _
      rw [List.length_cons, List.length_cons, ih]

theorem newline_notMem_publishedLines :
    ∀ line ∈ publishedLines P vaults content state, '\n' ∉ line :=
  forall_mapM (newline_notMem_publishedLine hP) content.items state

theorem gunzipFlow_gzipFlow (compression : Compression) (chunks : List ByteString) :
    gunzipFlow P compression.level (gzipFlow P compression.level chunks) =
      some chunks.flatten := by
  rw [gunzipFlow, gzipFlow]
  by_cases hplain : compression.level = -1
  · rw [if_pos hplain, if_pos hplain]
  · have hle := compression.neg_one_le
    rw [if_neg hplain, if_neg hplain,
      hP.gunzip_gzip compression.level (by omega) compression.le_nine]

omit hP in
theorem flatten_itemBytes (content : Exported) :
    (((content.items.map (·.json P)).map (itemBytes P)).flatten) =
      linesBytes P (content.items.map fun item => P.stringify (item.json P)) := by
  rw [linesBytes, List.flatMap_map, List.map_map, ← List.flatMap_def]
  rfl

omit hP in
/-- Without secrets the lines are the ones of the items. -/
theorem publishedLines_of_plain (hplain : vaults.leaderFetchOnly = false) :
    publishedLines P vaults content state =
      content.items.map fun item => P.stringify (item.json P) := by
  have hline : publishedLine P vaults = fun item => pure (P.stringify (item.json P)) := by
    funext item
    rw [publishedLine, hplain]
    rfl
  rw [publishedLines, hline, List.mapM_pure]
  rfl

omit hP in
theorem published_of_plain (hplain : vaults.leaderFetchOnly = false) :
    published P vaults compression content state =
      ⟨gzipFlow P compression ((content.items.map (·.json P)).map (itemBytes P)),
        content.items.length,
        P.sha256 (linesBytes P (content.items.map fun item => P.stringify (item.json P)))⟩ := by
  rw [published, cacheState, hplain, ← flatten_itemBytes]
  show (⟨gzipFlow P compression _, (List.map _ (List.map _ content.items)).length,
    P.sha256 _⟩ : PublishedState) = _
  rw [List.length_map, List.length_map]

theorem closed_stringify {item : ExportedItem} (hitem : item ∈ content.items) :
    Closed (P.stringify (item.json P)) := by
  intro c hc
  rw [hP.getLast_stringify item hitem] at hc
  exact (Option.some.inj hc).symm

/-- Secrets are filled into the lines that are not compressed. -/
theorem published_of_filled (hfilled : vaults.leaderFetchOnly = true) :
    published P vaults (-1) content state =
      ⟨linesBytes P (publishedLines P vaults content state), content.items.length,
        P.sha256 (linesBytes P (publishedLines P vaults content state))⟩ := by
  have hcache : gzipFlow P (-1) ((content.items.map (·.json P)).map (itemBytes P)) =
      Utf8.encode ((content.items.map fun item => P.stringify (item.json P)).flatMap
        (· ++ "\n".toList)) := by
    rw [← linesBytes_eq_encode hP, ← flatten_itemBytes]
    rfl
  have hclosed : ∀ line ∈ content.items.map fun item => P.stringify (item.json P),
      Closed line := by
    rw [List.forall_mem_map]
    intro item hitem
    exact closed_stringify hP hitem
  have hlines : publishedLines P vaults content state =
      ((content.items.map fun item => P.stringify (item.json P)).mapM
        (fillSecretsAsync P vaults) state).1 := by
    have hline : publishedLine P vaults =
        fun item => fillSecretsAsync P vaults (P.stringify (item.json P)) := by
      funext item
      rw [publishedLine, hfilled]
      rfl
    rw [publishedLines, hline, List.mapM_map]
    rfl
  rw [published, cacheState, hfilled, hcache]
  show ((fillSecretsAsync P vaults (P.utf8String _) >>= _ : StateM σ PublishedState) state).1 = _
  rw [hP.utf8String_encode, fillSecretsAsync_lines hclosed, hlines, linesBytes_eq_encode hP,
    ← hP.encode_eq]
  show (⟨P.encode _, (List.map _ (List.map _ content.items)).length,
    P.sha256 (P.encode _)⟩ : PublishedState) = _
  rw [List.length_map, List.length_map]
  rfl

/-- What is published of a state whose secrets were not filled in after the compression: the
bytes of its lines, their number and their digest. -/
theorem published_of_separate (compression : Compression)
    (hseparate : compression.level = -1 ∨ vaults.leaderFetchOnly = false) :
    gunzipFlow P compression.level
        (published P vaults compression.level content state).cachedState =
        some (linesBytes P (publishedLines P vaults content state)) ∧
      (published P vaults compression.level content state).cachedCount = content.items.length ∧
      (published P vaults compression.level content state).cachedDigest =
        P.sha256 (linesBytes P (publishedLines P vaults content state)) := by
  cases hfilled : vaults.leaderFetchOnly with
  | false =>
      rw [published_of_plain hfilled, gunzipFlow_gzipFlow hP compression,
        publishedLines_of_plain hfilled, flatten_itemBytes]
      exact ⟨rfl, rfl, rfl⟩
  | true =>
      have hplain : compression.level = -1 := hseparate.resolve_right (by rw [hfilled]; decide)
      rw [hplain, published_of_filled hP hfilled]
      exact ⟨rfl, rfl, rfl⟩

/-- A worker that gets such a state reads its lines one after the other. -/
theorem pollState_published (compression : Compression)
    (hseparate : compression.level = -1 ∨ vaults.leaderFetchOnly = false) :
    pollState P compression.level (published P vaults compression.level content state) =
      if ∀ line ∈ publishedLines P vaults content state,
          (P.encode line).length ≤ maximumFrameLength then
        (((publishedLines P vaults content state).map P.encode).foldlM (readFrame P)
          .empty).toOption
      else none := by
  obtain ⟨hbody, hcount, hdigest⟩ := published_of_separate hP compression hseparate
  apply pollState_of_lines hP (newline_notMem_publishedLines hP) hbody _ hdigest
  rw [hcount, publishedLines, length_mapM]

/-- Compressed bytes that were read as text are not compressed any more. -/
theorem pollState_of_both (compression : Compression) (hcompressed : compression.level ≠ -1)
    (hfilled : vaults.leaderFetchOnly = true) :
    pollState P compression.level (published P vaults compression.level content state) =
      none := by
  have hle := compression.neg_one_le
  obtain ⟨rest, hmagic⟩ := hP.magic_gzip compression.level (by omega) compression.le_nine
    ((content.items.map (·.json P)).map (itemBytes P))
  have htext : P.utf8String (gzipFlow P compression.level
      ((content.items.map (·.json P)).map (itemBytes P))) =
        Char.ofNat 0x1f :: P.utf8String (0x8b :: rest) := by
    rw [gzipFlow, if_neg hcompressed, ← hmagic]
    exact hP.utf8String_cons _
  obtain ⟨more, hfill⟩ : ∃ more, (fillSecretsAsync P vaults
      (Char.ofNat 0x1f :: P.utf8String (0x8b :: rest)) state).1 = Char.ofNat 0x1f :: more := by
    rw [fillSecretsAsync]
    split
    · exact exists_replaceOnAsync_cons (by decide) (by decide) _ state
    · exact ⟨_, rfl⟩
  have hstate : (published P vaults compression.level content state).cachedState =
      Utf8.encode (Char.ofNat 0x1f :: more) := by
    rw [published, cacheState, hfilled, htext]
    show P.encode (fillSecretsAsync P vaults _ state).1 = _
    rw [hfill, hP.encode_eq]
  have hnone : gunzipFlow P compression.level
      (published P vaults compression.level content state).cachedState = none := by
    rw [gunzipFlow, if_neg hcompressed, hstate]
    by_contra hsome
    obtain ⟨body, hbody⟩ := Option.ne_none_iff_exists'.mp hsome
    rcases hP.magic_of_gunzip _ _ hbody with hnil | hbegins
    · cases hnil
    · exact Utf8.not_prefix_encode (by decide) (by decide) hbegins
  rw [pollState, hnone]
  rfl

omit hP in
theorem absent_empty (content : Exported) :
    Absent P.toStorePlatform content.items .empty := fun _ _ => rfl

theorem remains_publishedLines (hplain : vaults.leaderFetchOnly = false) :
    List.Forall₂ (Remains P) content.items (publishedLines P vaults content state) := by
  rw [publishedLines_of_plain hplain, List.forall₂_map_right_iff, List.forall₂_same]
  intro item hitem
  exact remains_stringify hP hitem

end Published

/-- A worker takes over the state of its leader, whatever the store of the leader holds and
however the cluster is configured, if and only if it transfers. -/
theorem reproduces_iff {σ : Type} (P : ClusterPlatform) (vaults : Vaults σ)
    (compression : Compression) (content : Exported) (state : σ) (hP : P.Lawful content) :
    Reproduces P vaults compression.level content state ↔
      Transfers P vaults compression.level content state := by
  constructor
  · rintro ⟨new, hnew, hkeeps, hentries, -⟩
    have hseparate : compression.level = -1 ∨ vaults.leaderFetchOnly = false := by
      by_contra hboth
      rw [not_or, Bool.not_eq_false] at hboth
      rw [pollState_of_both hP compression hboth.1 hboth.2] at hnew
      cases hnew
    rw [pollState_published hP compression hseparate] at hnew
    split at hnew
    · next hshort =>
        refine ⟨hseparate, hshort, fun _ => ?_⟩
        cases hfold : ((publishedLines P vaults content state).map P.encode).foldlM
            (readFrame P) .empty with
        | error e =>
            rw [hfold] at hnew
            cases hnew
        | ok found =>
            rw [hfold] at hnew
            cases hnew
            exact remains_of_entries hP hkeeps content.nodup (absent_empty content) hfold hentries
    · cases hnew
  · intro htransfers
    have hremains : List.Forall₂ (Remains P) content.items
        (publishedLines P vaults content state) := by
      cases hfilled : vaults.leaderFetchOnly with
      | false => exact remains_publishedLines hP hfilled
      | true => exact htransfers.remains hfilled
    have hkeeps := hremains.imp fun _ _ h => keeps_of_remains h
    obtain ⟨new, hnew, hentries⟩ :=
      exists_of_remains hP hremains content.nodup (absent_empty content)
    refine ⟨new, ?_, hkeeps, hentries, fun key hkey => ?_⟩
    · rw [pollState_published hP compression htransfers.separate, if_pos htransfers.short, hnew]
      rfl
    · exact entry_of_foldlM hP hkeeps (absent_empty (P := P) content).expiration?
        content.nodup hnew hkey

/-! ## The export of an in-memory leader -/

section RawExport

variable {P : ClusterPlatform} {config : ClusterConfig} {compiled : P.Pattern}

/-- The keys that are synced. -/
def syncedKeys (P : ClusterPlatform) (config : ClusterConfig) (compiled : P.Pattern)
    (memory : Memory) : List Str :=
  (P.keyOrder (foundKeys P.toNdJsonPlatform compiled memory)).filter fun key =>
    !filteredKey config key

theorem exportedItems_sublist (now : Int) (memory : Memory) (keys : List Str) :
    ((exportedItems now memory keys).map (·.key)).Sublist keys := by
  induction keys with
  | nil => exact List.Sublist.refl _
  | cons key keys ih =>
      rw [exportedItems, List.filterMap_cons]
      cases memory.value? key with
      | none => exact ih.cons key
      | some value => exact ih.cons_cons key

/-- What a leader with that memory exports. -/
def exportedOf (P : ClusterPlatform) (config : ClusterConfig) (compiled : P.Pattern) (now : Int)
    (memory : Memory) : Exported where
  items := exportedItems now memory (syncedKeys P config compiled memory)
  nodup := (exportedItems_sublist _ _ _).nodup ((P.nodup_keyOrder _).filter _)

/-- The export of a memory has an item for each key that is synced. -/
theorem rawExport_apply (hcompiled : compileRoot P.toNdJsonPlatform config.storageRoot =
      some compiled) (now : Int) (memory : Memory) :
    rawExport P config now memory =
      (.ok ((exportedOf P config compiled now memory).items.map (·.json P)), memory) := by
  rw [rawExport, Stateful.bind_of_ok (keys_apply hcompiled),
    Stateful.bind_of_ok (Stateful.mapM_of_reads (fun _ => exportLine_apply) _)]
  show (Except.ok _, memory) = _
  simp only [exportedOf, exportedItems, List.filterMap_map, List.map_filterMap]
  congr 3
  funext key
  show (memory.value? key).map _ = ((memory.value? key).map _).map _
  rw [Option.map_map]
  rfl

end RawExport

/-! ## A leader with one key -/

def unmarked (bytes : ByteString) : Option ByteString :=
  if gzipMagic <+: bytes then some (bytes.drop gzipMagic.length)
  else if bytes = [] then some [] else none

/-- The platform of one line, with bytes that only have the first bytes of compressed ones. -/
noncomputable def lineCluster : ClusterPlatform where
  toNdJsonPlatform := { linePlatform with encode := Utf8.encode, utf8String := Utf8.decode }
  gzip _ chunks := gzipMagic ++ chunks.flatten
  gunzip := unmarked
  sha256 bytes := bytes.map fun byte => Char.ofNat byte.toNat

def exampleContent : Exported where
  items := [{ key := exampleKey, value := .bytes (Utf8.encode "x".toList)
              expiresAt := ⟨-1, isLong_neg_one⟩ }]
  nodup := List.nodup_singleton _

theorem lawful_lineCluster : lineCluster.Lawful exampleContent where
  encode_eq _ := rfl
  utf8String_encode _ := Utf8.decode_encode
  utf8String_cons := Utf8.decode_cons rfl
  gunzip_gzip := by
    intro level _ _ chunks
    show unmarked (gzipMagic ++ chunks.flatten) = _
    rw [unmarked, if_pos (List.prefix_append _ _)]
    rfl
  magic_gzip _ _ _ _ := List.prefix_append _ _
  magic_of_gunzip := by
    intro bytes body hbody
    by_cases hmagic : gzipMagic <+: bytes
    · exact Or.inr hmagic
    · by_cases hnil : bytes = []
      · exact Or.inl hnil
      · have hnone : lineCluster.gunzip bytes = none := (if_neg hmagic).trans (if_neg hnil)
        rw [hnone] at hbody
        cases hbody
  newline_notMem _ := by
    show '\n' ∉ exampleText
    decide
  getLast_stringify _ _ := rfl
  parse_stringify := by
    intro item hitem
    rw [List.mem_singleton.mp hitem]
    have hjson : ExportedItem.json lineCluster
        ⟨exampleKey, .bytes (Utf8.encode "x".toList), ⟨-1, isLong_neg_one⟩⟩ = exampleLine := by
      show Json.obj [("k", _), ("v", .string (Utf8.decode (Utf8.encode "x".toList))), _, _] = _
      rw [Utf8.decode_encode]
      rfl
    show (if exampleText = exampleText then Except.ok exampleLine else .error .jsResult) =
      .ok (ExportedItem.json lineCluster _)
    rw [if_pos rfl, hjson]

def vaultsOf (leaderFetchOnly : Bool) : Vaults Unit where
  enabled := true
  leaderFetchOnly
  resolve _ := pure none

theorem fillSecretsAsync_exampleText :
    fillSecretsAsync lineCluster (vaultsOf true) exampleText = pure exampleText := by
  have hnone : Placeholders.find vaultOpening exampleText = none := by decide
  exact (if_pos rfl).trans (Placeholders.replaceOnAsync_of_none hnone)

theorem publishedLines_exampleContent :
    publishedLines lineCluster (vaultsOf true) exampleContent () = [exampleText] := by
  show ((do
    let line ← fillSecretsAsync lineCluster (vaultsOf true) exampleText
    pure [line] : StateM Unit (List Str)) ()).1 = _
  rw [fillSecretsAsync_exampleText]
  rfl

/-- A state that is not compressed arrives, also if its secrets are looked up. -/
theorem reproduces_exampleContent :
    Reproduces lineCluster (vaultsOf true) (-1) exampleContent () := by
  apply (reproduces_iff lineCluster (vaultsOf true) ⟨-1, by decide, by decide⟩ exampleContent ()
    lawful_lineCluster).mpr
  refine ⟨Or.inl rfl, ?_, fun _ => ?_⟩
  · rw [publishedLines_exampleContent]
    intro line hline
    rw [List.mem_singleton.mp hline]
    show (Utf8.encode exampleText).length ≤ maximumFrameLength
    decide
  · rw [publishedLines_exampleContent]
    exact .cons (remains_stringify lawful_lineCluster List.mem_cons_self) .nil

/-- Workers never accept a compressed state that secrets are filled into. -/
theorem exists_not_reproduces :
    ¬ ∀ (P : ClusterPlatform) (vaults : Vaults Unit) (compression : Compression)
      (content : Exported), P.Lawful content →
        Reproduces P vaults compression.level content () := by
  intro hclaim
  obtain ⟨new, hnew, -⟩ := hclaim lineCluster (vaultsOf true) ⟨5, by decide, by decide⟩
    exampleContent lawful_lineCluster
  rw [pollState_of_both lawful_lineCluster ⟨5, by decide, by decide⟩ (by decide) rfl] at hnew
  cases hnew

end Cluster

end Otoroshi
