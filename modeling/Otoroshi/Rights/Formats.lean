/-
# The text and the JSON of rights

An access is written as its name, a colon and its permissions: `r` and `w`, or `not` for none.
It is read from that text, and from the older ones: a name alone has both permissions, and any
other permissions are looked for letter by letter.

Names are lower cased and trimmed when they are read, so what is read does not change when it is
written and read again. `rights_survive` says so for accesses of any text, and for the rights of
a user, which are written as an array.
-/

import Otoroshi.Foundation.Sorting
import Otoroshi.Rights.Joining

namespace Otoroshi.Rights

/-! ## Reading and writing -/

/-- `TenantAccess(raw)`. Its constructor takes the name as it is, where that of a team lower
cases and trims it once more. -/
def Access.tenantOfRaw (P : Platform) (text : Str) : TenantAccess :=
  let raw := P.normalized text
  if ':' ∈ raw then
    let parts := (P.toLowerCase raw).splitOn ':'
    let permissions := parts.getLastD []
    let canRead := permissions != "not".toList && permissions.contains 'r'
    let canWrite := permissions != "not".toList && permissions.contains 'w'
    ⟨P.normalized (parts.headD []), canRead, canRead && canWrite⟩
  else ⟨P.normalized raw, true, true⟩

/-- `raw`. -/
def Access.raw (access : Access) : Str :=
  if access.canRead then
    access.value ++ (":r".toList ++ if access.canWrite then "w".toList else [])
  else access.value ++ ":not".toList

/-- `UserRight.format.writes`. -/
def UserRight.writes (right : UserRight) : JsValue :=
  Json.obj [("tenant", .string right.tenant.raw),
    ("teams", .array (right.teams.eraseDups.map fun team => .string team.raw))]

namespace UserRights

/-- `UserRights.format.writes`. -/
def writes (user : UserRights) : JsValue := .array (user.rights.map UserRight.writes)

variable (P : Platform)

/-- `UserRights.format.reads`. -/
def reads : Reads UserRights := fun json => do
  let array ← Reads.jsArray json
  pure (readFromArray P array)

/-- `UserRights.superAdmin`. -/
def ofSuperAdmin : UserRights :=
  ⟨[⟨Access.ofRaw P "*".toList, [Access.ofRaw P "*".toList]⟩]⟩

/-- `readFromObject`: rights that are missing are none, unless an old instance reads them as
those of a super administrator. -/
def readFromObject (json : JsValue) (superAdminWhenNoRights : Bool) : UserRights :=
  (((json.select "rights").asOpt Reads.jsArray).map (readFromArray P)).getD
    (if superAdminWhenNoRights then ofSuperAdmin P else ⟨[]⟩)

end UserRights

/-! ## Lower casing -/

variable {P : Platform}

/-- A character that lower casing gives for some text. -/
def Platform.Settled (P : Platform) (c : Char) : Prop := ∃ text, c ∈ P.toLowerCase text

/-- Lower casing leaves the characters alone that it gives, and lower case letters and the
colon, whatever stands before them. -/
structure Platform.LowerCases (P : Platform) : Prop where
  settled : ∀ text, (∀ c ∈ text, P.Settled c) → P.toLowerCase text = text
  ending : ∀ text suffix, (∀ c ∈ suffix, c.isLower = true ∨ c = ':') →
    ∃ start, P.toLowerCase (text ++ suffix) = start ++ suffix

theorem mem_of_mem_trim {c : Char} {text : Str} (h : c ∈ trim text) : c ∈ text :=
  (List.dropWhile_suffix _).subset ((List.rdropWhile_prefix _ _).subset h)

theorem settled_of_mem_normalized {text : Str} {c : Char} (h : c ∈ P.normalized text) :
    P.Settled c :=
  ⟨text, mem_of_mem_trim h⟩

theorem Platform.LowerCases.normalized_of_settled (hP : P.LowerCases) {text : Str}
    (h : ∀ c ∈ text, P.Settled c) : P.normalized text = trim text := by
  rw [Platform.normalized, hP.settled text h]

/-- Once is enough. -/
theorem Platform.LowerCases.normalized_normalized (hP : P.LowerCases) (text : Str) :
    P.normalized (P.normalized text) = P.normalized text := by
  rw [hP.normalized_of_settled fun c hc => settled_of_mem_normalized hc, Platform.normalized,
    trim_trim]

theorem Platform.LowerCases.toLowerCase_normalized (hP : P.LowerCases) (text : Str) :
    P.toLowerCase (P.normalized text) = P.normalized text :=
  hP.settled _ fun _ hc => settled_of_mem_normalized hc

theorem Platform.LowerCases.settled_of_isLower (hP : P.LowerCases) {c : Char}
    (h : c.isLower = true ∨ c = ':') : P.Settled c := by
  obtain ⟨start, hstart⟩ := hP.ending [] [c] fun d hd => by
    rwa [List.mem_singleton.mp hd]
  exact ⟨[c], by
    rw [List.nil_append] at hstart
    rw [hstart]
    exact List.mem_append_right _ List.mem_cons_self⟩

/-! ## Permissions -/

namespace Access

variable {text start permissions : Str}

/-- A name without a colon has both permissions. -/
theorem ofRaw_of_notMem (hP : P.LowerCases) (h : ':' ∉ P.normalized text) :
    ofRaw P text = ⟨P.normalized text, true, true⟩ := by
  simp only [ofRaw, if_neg h, ofValue, hP.normalized_normalized]

/-- What is read of a name and permissions. -/
def withPermissions (name permissions : Str) : Access :=
  ⟨name, permissions != "not".toList && permissions.contains 'r',
    (permissions != "not".toList && permissions.contains 'r') &&
      (permissions != "not".toList && permissions.contains 'w')⟩

theorem headD_splitOn_append (text : Str) (parts : List Str) :
    (text.splitOn ':' ++ parts).headD [] = (text.splitOn ':').headD [] := by
  cases hparts : text.splitOn ':' with
  | nil => exact absurd hparts (List.splitOn_ne_nil _ _)
  | cons part rest => rfl

/-- The name stands before the first colon, the permissions behind the last one. -/
theorem ofRaw_of_append (hP : P.LowerCases)
    (h : P.normalized text = start ++ ':' :: permissions) (hpermissions : ':' ∉ permissions) :
    ofRaw P text = withPermissions (P.normalized ((start.splitOn ':').headD [])) permissions := by
  have hmem : ':' ∈ P.normalized text := by
    rw [h]
    exact List.mem_append_right _ List.mem_cons_self
  have hparts : (P.toLowerCase (P.normalized text)).splitOn ':' =
      start.splitOn ':' ++ [permissions] := by
    rw [hP.toLowerCase_normalized, h, List.splitOn_append_cons_self,
      List.splitOn_eq_singleton hpermissions]
  simp only [ofRaw, if_pos hmem, hparts, headD_splitOn_append, ofValue, hP.normalized_normalized,
    List.getLastD_concat, withPermissions]

/-- A name as it is read: lower cased, trimmed, and without a colon. -/
structure IsName (P : Platform) (name : Str) : Prop where
  settled : ∀ c ∈ name, P.Settled c
  trimmed : trim name = name
  colon : ':' ∉ name

/-- The name is what stands before the first colon. -/
theorem value_ofRaw_of_append (hP : P.LowerCases) {rest : Str}
    (h : P.normalized text = start ++ ':' :: rest) (hstart : ':' ∉ start) :
    (ofRaw P text).value = P.normalized start := by
  have hmem : ':' ∈ P.normalized text := by
    rw [h]
    exact List.mem_append_right _ List.mem_cons_self
  have hparts : (P.toLowerCase (P.normalized text)).splitOn ':' = start :: rest.splitOn ':' := by
    rw [hP.toLowerCase_normalized, h, List.splitOn_append_cons_self,
      List.splitOn_eq_singleton hstart]
    rfl
  simp only [ofRaw, if_pos hmem, hparts, List.headD_cons, ofValue, hP.normalized_normalized]

theorem isName_ofRaw (hP : P.LowerCases) (text : Str) : IsName P (ofRaw P text).value := by
  by_cases hmem : ':' ∈ P.normalized text
  · obtain ⟨start, rest, hsplit, hstart⟩ := List.eq_append_cons_of_mem hmem
    have hsettled : ∀ c ∈ start, P.Settled c := fun c hc =>
      @settled_of_mem_normalized P text c (hsplit ▸ List.mem_append_left _ hc)
    rw [value_ofRaw_of_append hP hsplit hstart, hP.normalized_of_settled hsettled]
    exact ⟨fun c hc => hsettled c (mem_of_mem_trim hc), trim_trim _, fun hc =>
      hstart (mem_of_mem_trim hc)⟩
  · rw [ofRaw_of_notMem hP hmem]
    exact ⟨fun _ hc => settled_of_mem_normalized hc, trim_trim _, hmem⟩

/-- There is no right to write without the one to read. -/
theorem canRead_of_canWrite (text : Str) (h : (ofRaw P text).canWrite = true) :
    (ofRaw P text).canRead = true := by
  rw [ofRaw] at h ⊢
  split at h
  case isTrue hmem =>
    rw [if_pos hmem]
    exact (Bool.and_eq_true_iff.mp h).1
  case isFalse hmem =>
    rw [if_neg hmem]
    rfl

/-! ## Reading what was written -/

theorem le_of_isLower {c : Char} (h : c.isLower = true) : 97 ≤ c.toNat := by
  have hbounds : (decide (c.val ≥ 'a'.val) && decide (c.val ≤ 'z'.val)) = true := h
  rw [Bool.and_eq_true, decide_eq_true_eq] at hbounds
  exact hbounds.1

/-- Nothing is trimmed behind a lower case letter. -/
theorem isTrimmed_of_isLower {c : Char} (h : c.isLower = true) : isTrimmed c = false := by
  have hlow := le_of_isLower h
  rw [isTrimmed, decide_eq_false_iff_not]
  intro hle
  have hhigh : c.toNat ≤ 32 := hle
  omega

theorem trim_append_colon (hlower : ∀ c ∈ permissions, c.isLower = true) :
    trim (start ++ ':' :: permissions) = start.dropWhile isTrimmed ++ ':' :: permissions := by
  have hdrop : (start ++ ':' :: permissions).dropWhile isTrimmed =
      start.dropWhile isTrimmed ++ ':' :: permissions := by
    have hcolon : (':' :: permissions).dropWhile isTrimmed = ':' :: permissions := rfl
    rw [List.dropWhile_append, hcolon]
    split
    · rename_i hnil
      rw [List.isEmpty_iff.mp hnil, List.nil_append]
    · rfl
  rw [trim, hdrop, List.rdropWhile_eq_self_iff]
  intro hne
  have hlast : (start.dropWhile isTrimmed ++ ':' :: permissions).getLast hne ∈
      ':' :: permissions := by
    rw [List.getLast_append_of_ne_nil _ (List.cons_ne_nil _ _)]
    exact List.getLast_mem _
  rcases List.mem_cons.mp hlast with hcolon | hletter
  · rw [hcolon]
    decide
  · rw [isTrimmed_of_isLower (hlower _ hletter)]
    exact Bool.false_ne_true

/-- A name with permissions is read as it is written. -/
theorem ofRaw_append (hP : P.LowerCases) {name : Str} (hname : IsName P name)
    (hlower : ∀ c ∈ permissions, c.isLower = true) :
    ofRaw P (name ++ ':' :: permissions) = withPermissions name permissions := by
  have hcolon : ':' ∉ permissions := fun hmem => absurd (hlower _ hmem) (by decide)
  have hsettled : ∀ c ∈ name ++ ':' :: permissions, P.Settled c := by
    intro c hc
    rcases List.mem_append.mp hc with hc | hc
    · exact hname.settled c hc
    · rcases List.mem_cons.mp hc with rfl | hc
      · exact hP.settled_of_isLower (.inr rfl)
      · exact hP.settled_of_isLower (.inl (hlower c hc))
  have hname' : name.dropWhile isTrimmed = name := by
    rw [← hname.trimmed]
    exact dropWhile_of_head (head?_trim name)
  have htrim : trim (name ++ ':' :: permissions) = name ++ ':' :: permissions := by
    rw [trim_append_colon hlower, hname']
  have hnormalized : P.normalized (name ++ ':' :: permissions) = name ++ ':' :: permissions := by
    rw [hP.normalized_of_settled hsettled, htrim]
  rw [ofRaw_of_append hP hnormalized hcolon, List.splitOn_eq_singleton hname.colon,
    List.headD_cons, hP.normalized_of_settled hname.settled, hname.trimmed]

theorem ofRaw_raw_of_isName (hP : P.LowerCases) {access : Access}
    (hname : IsName P access.value) (hwrite : access.canWrite = true → access.canRead = true) :
    ofRaw P access.raw = access := by
  obtain ⟨value, canRead, canWrite⟩ := access
  cases canRead with
  | true =>
      cases canWrite with
      | true => exact @ofRaw_append _ "rw".toList hP _ hname (forall_mem_of_all rfl)
      | false => exact @ofRaw_append _ "r".toList hP _ hname (forall_mem_of_all rfl)
  | false =>
      cases canWrite with
      | true => exact absurd (hwrite rfl) Bool.false_ne_true
      | false => exact @ofRaw_append _ "not".toList hP _ hname (forall_mem_of_all rfl)

/-- What is read is read again when it is written. -/
theorem ofRaw_raw_ofRaw (hP : P.LowerCases) (text : Str) :
    ofRaw P (ofRaw P text).raw = ofRaw P text :=
  ofRaw_raw_of_isName hP (isName_ofRaw hP text) (canRead_of_canWrite text)

/-- An access of any name without the right to read is read without any right. -/
theorem ofRaw_raw_of_canRead (hP : P.LowerCases) {access : Access}
    (h : access.canRead = false) :
    (ofRaw P access.raw).canRead = false ∧ (ofRaw P access.raw).canWrite = false := by
  obtain ⟨start, hstart⟩ := hP.ending access.value ":not".toList (forall_mem_of_all rfl)
  have hraw : access.raw = access.value ++ ":not".toList := by
    rw [raw, h]
    rfl
  have hnormalized : P.normalized access.raw =
      start.dropWhile isTrimmed ++ ':' :: "not".toList := by
    rw [Platform.normalized, hraw, hstart]
    exact trim_append_colon (forall_mem_of_all rfl)
  rw [ofRaw_of_append hP hnormalized (by decide)]
  exact ⟨rfl, rfl⟩

theorem tenantOfRaw_eq (hP : P.LowerCases) (text : Str) : tenantOfRaw P text = ofRaw P text := by
  simp only [tenantOfRaw, ofRaw, ofValue, hP.normalized_normalized]

end Access

/-! ## The rights of a user -/

/-- The accesses of a right are some that were read, each team once. -/
def UserRight.IsRead (P : Platform) (right : UserRight) : Prop :=
  (∃ text, right.tenant = Access.ofRaw P text) ∧ right.teams.Nodup ∧
    ∀ team ∈ right.teams, ∃ text, team = Access.ofRaw P text

theorem UserRight.isRead_of_reads {json : JsValue} {right : UserRight}
    (h : UserRight.reads P json = .ok right) : right.IsRead P := by
  obtain ⟨tenant, -, h⟩ := bind_eq_ok_iff.mp h
  obtain ⟨teams, -, h⟩ := bind_eq_ok_iff.mp h
  obtain ⟨names, -, h⟩ := bind_eq_ok_iff.mp h
  cases h
  refine ⟨⟨tenant, rfl⟩, nodup_eraseDups _, fun team hteam => ?_⟩
  obtain ⟨name, -, hname⟩ := List.mem_map.mp (List.mem_eraseDups.mp hteam)
  exact ⟨name, hname.symm⟩

theorem mapM_string (names : List Str) :
    (names.map JsValue.string).mapM Reads.string = .ok names := by
  induction names with
  | nil => rfl
  | cons name names ih =>
      rw [List.map_cons, List.mapM_cons, ih]
      rfl

/-- A right that was read is read again when it is written. -/
theorem UserRight.reads_writes (hP : P.LowerCases) {right : UserRight} (h : right.IsRead P) :
    UserRight.reads P right.writes = .ok right := by
  obtain ⟨⟨text, htenant⟩, hnodup, hteams⟩ := h
  have hnames : (right.teams.map Access.raw).map (Access.ofRaw P) = right.teams := by
    rw [List.map_map]
    refine (List.map_congr_left fun team hteam => ?_).trans (List.map_id _)
    obtain ⟨name, rfl⟩ := hteams team hteam
    exact Access.ofRaw_raw_ofRaw hP name
  have htenant' : Access.ofRaw P right.tenant.raw = right.tenant := by
    rw [htenant, Access.ofRaw_raw_ofRaw hP]
  have hstrings : (right.teams.eraseDups.map fun team => JsValue.string team.raw) =
      (right.teams.map Access.raw).map JsValue.string := by
    rw [eraseDups_of_nodup hnodup, List.map_map]
    rfl
  have htenantField : (right.writes.select "tenant").as Reads.string = .ok right.tenant.raw := by
    simp [UserRight.writes, Json.obj, JsValue.select, JsLookupResult.as, Reads.string]
  have hteamsField : (right.writes.select "teams").as Reads.jsArray =
      .ok (right.teams.eraseDups.map fun team => .string team.raw) := by
    simp [UserRight.writes, Json.obj, JsValue.select, JsLookupResult.as, Reads.jsArray,
      List.lookup_cons]
  rw [UserRight.reads, htenantField, ok_bind, hteamsField, ok_bind, hstrings, mapM_string,
    ok_bind, htenant', hnames, eraseDups_of_nodup hnodup]
  rfl

namespace UserRights

/-- Every right is one that was read. -/
def IsRead (P : Platform) (user : UserRights) : Prop := ∀ right ∈ user.rights, right.IsRead P

theorem isRead_readFromArray (array : List JsValue) : (readFromArray P array).IsRead P := by
  intro right hright
  obtain ⟨json, -, hread⟩ := List.mem_filterMap.mp hright
  cases hresult : UserRight.reads P json with
  | ok found =>
      rw [hresult] at hread
      cases hread
      exact UserRight.isRead_of_reads hresult
  | error e =>
      rw [hresult] at hread
      cases hread

theorem isRead_ofSuperAdmin : (ofSuperAdmin P).IsRead P := by
  intro right hright
  rw [List.mem_singleton.mp hright]
  refine ⟨⟨_, rfl⟩, List.nodup_singleton _, fun team hteam => ?_⟩
  exact ⟨_, List.mem_singleton.mp hteam⟩

/-- Rights obtained from a JSON, as a value of their own or as a field of another one. -/
inductive Obtained (P : Platform) : UserRights → Prop
  | value {json : JsValue} {user : UserRights} (h : reads P json = .ok user) : Obtained P user
  | field (json : JsValue) (superAdminWhenNoRights : Bool) :
      Obtained P (readFromObject P json superAdminWhenNoRights)

theorem Obtained.isRead {user : UserRights} (h : Obtained P user) : user.IsRead P := by
  cases h with
  | value h =>
      obtain ⟨array, -, h⟩ := bind_eq_ok_iff.mp h
      cases h
      exact isRead_readFromArray array
  | field json superAdminWhenNoRights =>
      rw [readFromObject]
      cases (json.select "rights").asOpt Reads.jsArray with
      | some array => exact isRead_readFromArray array
      | none =>
          cases superAdminWhenNoRights with
          | true => exact isRead_ofSuperAdmin
          | false =>
              intro right hright
              cases hright

theorem reads_writes (hP : P.LowerCases) {user : UserRights} (h : user.IsRead P) :
    reads P user.writes = .ok user := by
  have hrights : (user.rights.map UserRight.writes).filterMap
      (fun json => (UserRight.reads P json).toOption) = user.rights := by
    rw [List.filterMap_map]
    refine (List.filterMap_congr fun right hright => ?_).trans (List.filterMap_some)
    rw [Function.comp_apply, UserRight.reads_writes hP (h right hright)]
    rfl
  show Except.ok (readFromArray P (user.rights.map UserRight.writes)) = _
  rw [readFromArray, hrights]

end UserRights

/-- Rights survive their textual form. -/
theorem rights_survive (hP : P.LowerCases) :
    (∀ text, Access.ofRaw P (Access.ofRaw P text).raw = Access.ofRaw P text) ∧
    (∀ text, Access.tenantOfRaw P (Access.tenantOfRaw P text).raw = Access.tenantOfRaw P text) ∧
    (∀ access : Access, access.canRead = false → access.canWrite = false →
      (Access.ofRaw P access.raw).canRead = false ∧
      (Access.ofRaw P access.raw).canWrite = false ∧
      (Access.tenantOfRaw P access.raw).canRead = false ∧
      (Access.tenantOfRaw P access.raw).canWrite = false) ∧
    ∀ user : UserRights, user.Obtained P → UserRights.reads P user.writes = .ok user := by
  refine ⟨Access.ofRaw_raw_ofRaw hP, fun text => ?_, fun access hread _ => ?_, fun user h =>
    UserRights.reads_writes hP h.isRead⟩
  · rw [Access.tenantOfRaw_eq hP, Access.tenantOfRaw_eq hP, Access.ofRaw_raw_ofRaw hP]
  · obtain ⟨hread', hwrite'⟩ := Access.ofRaw_raw_of_canRead hP hread
    rw [Access.tenantOfRaw_eq hP]
    exact ⟨hread', hwrite', hread', hwrite'⟩

theorem toLower_of_isLower {c : Char} (h : c.isLower = true ∨ c = ':') : c.toLower = c := by
  rcases h with h | rfl
  · have hlow := Access.le_of_isLower h
    apply Char.toNat_inj.mp
    rw [toNat_toLower, if_neg]
    omega
  · rfl

theorem asciiPlatform_lowerCases : ApiActionContext.asciiPlatform.LowerCases where
  settled text h := by
    refine (List.map_congr_left fun c hc => ?_).trans (List.map_id text)
    obtain ⟨other, hother⟩ := h c hc
    obtain ⟨d, -, rfl⟩ := List.mem_map.mp hother
    exact toLower_toLower d
  ending text suffix h := by
    refine ⟨text.map Char.toLower, ?_⟩
    have hsuffix : suffix.map Char.toLower = suffix :=
      (List.map_congr_left fun c hc => toLower_of_isLower (h c hc)).trans (List.map_id suffix)
    show (text ++ suffix).map Char.toLower = _
    rw [List.map_append, hsuffix]

theorem rights_survive_example :
    Access.ofRaw ApiActionContext.asciiPlatform
        (Access.ofRaw ApiActionContext.asciiPlatform " Dev:r:NOT".toList).raw =
      ⟨"dev".toList, false, false⟩ := by
  rw [(rights_survive asciiPlatform_lowerCases).1]
  decide

end Otoroshi.Rights
