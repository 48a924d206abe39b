/-
# Access by roles

The roles of a consumer are read from a jwt, an apikey and a user, each of which has several
sources of roles: tags, metadata, a configured path, data of the user. Every source is tested by
itself against the lists of allowed and of denied roles, and one source that passes lets the
consumer in. A text under a path is tested as one role first, and then as the list of its roles.

So a denied role keeps the consumer out of what is tested together with it, and of nothing else.
`denies_iff` says when that is enough, for every configuration that denies a consumer with any of
the denied roles.
-/

import Otoroshi.Foundation.Json
import Otoroshi.Foundation.Replacing

namespace Otoroshi

structure RBACConfig where
  allow : List Str := []
  deny : List Str := []
  allowAll : Bool := false
  denyAll : Bool := false
  jwtPath : Option Str := none
  apikeyPath : Option Str := none
  userPath : Option Str := none
  rolePrefix : Option Str := none
  roles : Str := "roles".toList

def RBACConfig.rolesPrefix (config : RBACConfig) : Str :=
  match config.rolePrefix with
  | some v => v ++ ":role:".toList
  | none => "role:".toList

/-- What the plugin takes from its platform: the parser of JSON, the values at a path, and the
engine that reads the prefix of a tag as a regular expression. -/
structure RBACPlatform where
  parse : Str → Option JsValue
  atPath : JsValue → Str → Option JsValue
  engine : RegexFinder

/-- The payload of the token, when there is one. -/
structure JwtInjection where
  decodedToken : Option JsValue

/-- An apikey or a user, with its document and, of a user, its data. -/
structure RoleHolder where
  tags : List Str
  metadata : Str → Option Str
  otoroshiData : Option JsValue
  json : JsValue

structure RBACContext where
  jwtInjection : Option JwtInjection
  apikey : Option RoleHolder
  user : Option RoleHolder

namespace RBAC

/-- `RBAC.matches`. -/
def isMatch (roles : List Str) (config : RBACConfig) : Bool :=
  if roles.isEmpty then false
  else
    let isAllowed :=
      if config.allow.isEmpty then true
      else if config.allowAll then config.allow.all fun role => roles.contains role
      else config.allow.any fun role => roles.contains role
    let isDenied :=
      if config.deny.isEmpty then false
      else if config.denyAll then config.deny.all fun role => roles.contains role
      else config.deny.any fun role => roles.contains role
    isAllowed && !isDenied

/-- The texts of an array, `none` where it has an item of another type. -/
def asStrings : JsValue → Option (List Str)
  | .array items => items.mapM fun
      | .string text => some text
      | _ => none
  | _ => none

def field (json : JsValue) (name : Str) : Option JsValue :=
  match json with
  | .object fields => fields.lookup name
  | _ => none

variable (P : RBACPlatform) (config : RBACConfig)

def tryParse (value : Str) : List Str :=
  if startsWith (trim value) ['['] && endsWith (trim value) [']'] then
    ((P.parse value).bind asStrings).getD []
  else (split ',' value).map trim

/-- The test of a value under a path, `none` where reading its roles throws. -/
def matchesValue : Option JsValue → Option Bool
  | some (.string value) =>
      some (if isMatch [value] config then true else isMatch (tryParse P value) config)
  | some (.array items) => (asStrings (.array items)).map fun roles => isMatch roles config
  | _ => some false

def checkRightsFromJwtInjection (injection : JwtInjection) : Option Bool :=
  match injection.decodedToken with
  | none => some false
  | some jsonToken =>
      let roles := ((field jsonToken config.roles).bind asStrings).getD []
      if isMatch roles config then some true
      else matchesValue P config (config.jwtPath.bind (P.atPath jsonToken))

/-- The tags that have the prefix, without it. -/
def rolesTags (holder : RoleHolder) : Option (List Str) :=
  (holder.tags.filter fun tag => startsWith tag config.rolesPrefix).mapM fun tag =>
    P.engine.removeFirst tag config.rolesPrefix

def rolesMeta (holder : RoleHolder) : Option (List Str) :=
  match holder.metadata config.roles with
  | none => some []
  | some text => (P.parse text).bind asStrings

def checkRightsFromApikey (apikey : RoleHolder) : Option Bool := do
  let tags ← rolesTags P config apikey
  let metadata ← rolesMeta P config apikey
  let pathMatch ← matchesValue P config (config.apikeyPath.bind (P.atPath apikey.json))
  return pathMatch || isMatch tags config || isMatch metadata config

def checkRightsFromUser (user : RoleHolder) : Option Bool := do
  let tags ← rolesTags P config user
  let metadata ← rolesMeta P config user
  let dataMatch ← matchesValue P config (user.otoroshiData.bind (field · config.roles))
  let pathMatch ← matchesValue P config (config.userPath.bind (P.atPath user.json))
  return pathMatch || dataMatch || isMatch tags config || isMatch metadata config

/-- One more identity is checked while none has passed. -/
def orElse (shouldPass : Bool) (check : Option Bool) : Option Bool :=
  if shouldPass then some true else check

/-- The access is allowed or denied, or the request fails with an exception. -/
def access (ctx : RBACContext) : Option Bool := do
  let jwt ← (ctx.jwtInjection.map (checkRightsFromJwtInjection P config)).getD (some false)
  let apikey ← orElse jwt ((ctx.apikey.map (checkRightsFromApikey P config)).getD (some false))
  orElse apikey ((ctx.user.map (checkRightsFromUser P config)).getD (some false))

/-! ## The lists of roles that are tested -/

/-- The role lists that are tested one after the other, and whether an exception follows. -/
structure Tested where
  lists : List (List Str)
  throws : Bool

namespace Tested

def verdict (tested : Tested) : Option Bool :=
  if tested.lists.any fun roles => isMatch roles config then some true
  else if tested.throws then none
  else some false

def andThen (tested next : Tested) : Tested :=
  ⟨tested.lists ++ if tested.throws then [] else next.lists, tested.throws || next.throws⟩

def nothing : Tested := ⟨[], false⟩

/-- No list is tested where reading the lists throws. -/
def ofOption : Option (List (List Str)) → Tested
  | some lists => ⟨lists, false⟩
  | none => ⟨[], true⟩

end Tested

/-- A text is tested as one role, and then as the list of its roles. -/
def valueLists : Option JsValue → Option (List (List Str))
  | some (.string value) => some [[value], tryParse P value]
  | some (.array items) => (asStrings (.array items)).map fun roles => [roles]
  | _ => some []

def testedJwt (injection : JwtInjection) : Tested :=
  match injection.decodedToken with
  | none => .nothing
  | some jsonToken =>
      Tested.andThen ⟨[((field jsonToken config.roles).bind asStrings).getD []], false⟩
        (.ofOption (valueLists P (config.jwtPath.bind (P.atPath jsonToken))))

def testedApikey (apikey : RoleHolder) : Tested :=
  .ofOption do
    let tags ← rolesTags P config apikey
    let metadata ← rolesMeta P config apikey
    let path ← valueLists P (config.apikeyPath.bind (P.atPath apikey.json))
    return path ++ [tags, metadata]

def testedUser (user : RoleHolder) : Tested :=
  .ofOption do
    let tags ← rolesTags P config user
    let metadata ← rolesMeta P config user
    let data ← valueLists P (user.otoroshiData.bind (field · config.roles))
    let path ← valueLists P (config.userPath.bind (P.atPath user.json))
    return path ++ data ++ [tags, metadata]

def tested (ctx : RBACContext) : Tested :=
  (((ctx.jwtInjection.map (testedJwt P config)).getD .nothing).andThen
    ((ctx.apikey.map (testedApikey P config)).getD .nothing)).andThen
    ((ctx.user.map (testedUser P config)).getD .nothing)

variable {P config}

theorem verdict_andThen (first second : Tested) :
    ((first.verdict config).bind fun passed => orElse passed (second.verdict config)) =
      (first.andThen second).verdict config := by
  unfold Tested.verdict Tested.andThen
  cases hpass : first.lists.any fun roles => isMatch roles config with
  | true => simp [hpass, orElse]
  | false => cases first.throws <;> simp [hpass, orElse]

theorem matchesValue_eq (value : Option JsValue) :
    matchesValue P config value =
      (valueLists P value).map fun lists => lists.any fun roles => isMatch roles config := by
  unfold matchesValue valueLists
  split
  case h_1 value =>
    cases hone : isMatch [value] config <;> simp [hone]
  case h_2 items => cases asStrings (.array items) <;> simp
  case h_3 => rfl

theorem verdict_ofOption (lists : Option (List (List Str))) :
    (Tested.ofOption lists).verdict config =
      lists.map fun lists => lists.any fun roles => isMatch roles config := by
  cases lists with
  | none => rfl
  | some lists =>
      simp only [Tested.ofOption, Tested.verdict, Option.map_some]
      simp only [Bool.false_eq_true, if_false]
      split_ifs with hany
      · exact congrArg some hany.symm
      · exact congrArg some (eq_false_of_ne_true hany).symm

theorem checkRightsFromJwtInjection_eq (injection : JwtInjection) :
    checkRightsFromJwtInjection P config injection =
      (testedJwt P config injection).verdict config := by
  unfold checkRightsFromJwtInjection testedJwt
  split
  · rfl
  · rw [← verdict_andThen, verdict_ofOption, ← matchesValue_eq]
    simp only [Tested.verdict, List.any_cons, List.any_nil, Bool.or_false, Bool.false_eq_true,
      if_false]
    split_ifs <;> rfl

theorem checkRightsFromApikey_eq (apikey : RoleHolder) :
    checkRightsFromApikey P config apikey = (testedApikey P config apikey).verdict config := by
  unfold checkRightsFromApikey testedApikey
  rw [verdict_ofOption, matchesValue_eq]
  cases rolesTags P config apikey <;> cases rolesMeta P config apikey <;>
    cases valueLists P (config.apikeyPath.bind (P.atPath apikey.json)) <;>
    simp [Bool.or_assoc]

theorem checkRightsFromUser_eq (user : RoleHolder) :
    checkRightsFromUser P config user = (testedUser P config user).verdict config := by
  unfold checkRightsFromUser testedUser
  rw [verdict_ofOption, matchesValue_eq, matchesValue_eq]
  cases rolesTags P config user <;> cases rolesMeta P config user <;>
    cases valueLists P (user.otoroshiData.bind (field · config.roles)) <;>
    cases valueLists P (config.userPath.bind (P.atPath user.json)) <;>
    simp [Bool.or_assoc]

theorem verdict_getD {α : Type} (check : α → Option Bool) (lists : α → Tested)
    (h : ∀ a, check a = (lists a).verdict config) (identity : Option α) :
    (identity.map check).getD (some false) =
      ((identity.map lists).getD .nothing).verdict config := by
  cases identity with
  | none => rfl
  | some a => exact h a

/-- The access is decided by the lists that are tested. -/
theorem access_eq (ctx : RBACContext) :
    access P config ctx = (tested P config ctx).verdict config := by
  unfold access tested
  rw [verdict_getD _ _ checkRightsFromJwtInjection_eq, verdict_getD _ _ checkRightsFromApikey_eq,
    verdict_getD _ _ checkRightsFromUser_eq, ← verdict_andThen, ← verdict_andThen]
  exact (Option.bind_assoc ..).symm

theorem access_eq_false_iff (ctx : RBACContext) :
    access P config ctx = some false ↔
      (∀ roles ∈ (tested P config ctx).lists, ¬ isMatch roles config = true) ∧
        (tested P config ctx).throws = false := by
  rw [access_eq, Tested.verdict, ← List.any_eq_false]
  split_ifs with hany hthrows
  · simp [hany]
  · simp [hthrows]
  · simp [eq_false_of_ne_true hany, eq_false_of_ne_true hthrows]

/-! ## Denied roles -/

variable (P config)

/-- The roles of a value: a text is the list of its roles. -/
def valueRoles : Option JsValue → List Str
  | some (.string value) => tryParse P value
  | some (.array items) => (asStrings (.array items)).getD []
  | _ => []

/-- The roles of an identity: its tags without their prefix, its metadata and its values. -/
def holderRoles (holder : RoleHolder) (values : List (Option JsValue)) : List (List Str) :=
  ((holder.tags.filter fun tag => startsWith tag config.rolesPrefix).map
      fun tag => tag.drop config.rolesPrefix.length) ::
    (rolesMeta P config holder).getD [] :: values.map (valueRoles P)

def jwtRoles (injection : JwtInjection) : List (List Str) :=
  match injection.decodedToken with
  | none => []
  | some jsonToken =>
      [((field jsonToken config.roles).bind asStrings).getD [],
        valueRoles P (config.jwtPath.bind (P.atPath jsonToken))]

/-- All roles of a consumer, source by source. -/
def sources (ctx : RBACContext) : List (List Str) :=
  ctx.jwtInjection.toList.flatMap (jwtRoles P config) ++
    ctx.apikey.toList.flatMap (fun apikey =>
      holderRoles P config apikey [config.apikeyPath.bind (P.atPath apikey.json)]) ++
    ctx.user.toList.flatMap fun user =>
      holderRoles P config user [user.otoroshiData.bind (field · config.roles),
        config.userPath.bind (P.atPath user.json)]

/-- The consumer has a role that the configuration denies. -/
def HasDenied (ctx : RBACContext) : Prop :=
  ∃ roles ∈ sources P config ctx, ∃ role ∈ roles, role ∈ config.deny

/-- None of the roles is denied. -/
def FreeOfDenied (roles : List Str) : Prop := ∀ role ∈ roles, role ∉ config.deny

/-- The roles meet the list of allowed roles. -/
def Allowed (roles : List Str) : Prop :=
  roles ≠ [] ∧ (config.allow = [] ∨
    if config.allowAll then ∀ role ∈ config.allow, role ∈ roles
    else ∃ role ∈ config.allow, role ∈ roles)

variable {P config}

theorem denied_eq_false_iff (roles : List Str) :
    (if config.deny.isEmpty then false else config.deny.any fun role => roles.contains role) =
        false ↔
      FreeOfDenied config roles := by
  have hempty : (if config.deny.isEmpty then false
      else config.deny.any fun role => roles.contains role) =
        config.deny.any fun role => roles.contains role := by
    cases config.deny <;> simp
  rw [hempty, List.any_eq_false]
  simp only [List.contains_iff_mem]
  exact ⟨fun h role hrole hdenied => h role hdenied hrole,
    fun h role hdenied hrole => h role hrole hdenied⟩

/-- A list of roles passes when it is free of denied roles and meets the list of allowed roles. -/
theorem isMatch_iff (hany : config.denyAll = false) (roles : List Str) :
    isMatch roles config = true ↔ FreeOfDenied config roles ∧ Allowed config roles := by
  rw [← denied_eq_false_iff]
  unfold isMatch Allowed
  cases roles with
  | nil => simp
  | cons role rest =>
      simp only [List.isEmpty_cons, Bool.false_eq_true, if_false, hany, Bool.and_eq_true,
        Bool.not_eq_true', ne_eq, reduceCtorEq, not_false_eq_true, true_and]
      rw [and_comm]
      refine and_congr_right fun _ => ?_
      cases config.allow <;> cases config.allowAll <;> simp

/-- A consumer with a denied role is denied exactly when the roles are read without an exception
and no list of them that is free of denied roles meets the allowed roles, and a text is judged as
the list of its roles exactly when it does not pass as one role without passing as this list. -/
theorem denies_iff (hany : config.denyAll = false) (ctx : RBACContext) (value : Str) :
    ((HasDenied P config ctx → access P config ctx = some false) ∧
        matchesValue P config (some (.string value)) =
          some (isMatch (tryParse P value) config)) ↔
      (HasDenied P config ctx → (tested P config ctx).throws = false ∧
          ∀ roles ∈ (tested P config ctx).lists,
            FreeOfDenied config roles → ¬ Allowed config roles) ∧
        (FreeOfDenied config [value] ∧ Allowed config [value] →
          FreeOfDenied config (tryParse P value) ∧ Allowed config (tryParse P value)) := by
  refine and_congr (imp_congr_right fun _ => ?_) ?_
  · rw [access_eq_false_iff, and_comm]
    simp only [isMatch_iff hany, not_and]
  · rw [matchesValue, ← isMatch_iff hany, ← isMatch_iff hany, Option.some_inj]
    cases hone : isMatch [value] config <;>
      cases hall : isMatch (tryParse P value) config <;> simp

/-- A platform whose roles are tags only. -/
def tagPlatform : RBACPlatform := ⟨fun _ => none, fun _ _ => none, textFinder⟩

def holderWithTag (tag : String) : RoleHolder := ⟨[tag.toList], fun _ => none, none, .null⟩

def denyBanned : RBACConfig where
  deny := ["banned".toList]

theorem denies_iff_example :
    denyBanned.denyAll = false ∧
      (((HasDenied tagPlatform denyBanned ⟨none, none, some (holderWithTag "role:banned")⟩ →
          access tagPlatform denyBanned ⟨none, none, some (holderWithTag "role:banned")⟩ =
            some false) ∧
        matchesValue tagPlatform denyBanned (some (.string "x".toList)) =
          some (isMatch (tryParse tagPlatform "x".toList) denyBanned)) ↔
      (HasDenied tagPlatform denyBanned ⟨none, none, some (holderWithTag "role:banned")⟩ →
          (tested tagPlatform denyBanned
            ⟨none, none, some (holderWithTag "role:banned")⟩).throws = false ∧
          ∀ roles ∈ (tested tagPlatform denyBanned
              ⟨none, none, some (holderWithTag "role:banned")⟩).lists,
            FreeOfDenied denyBanned roles → ¬ Allowed denyBanned roles) ∧
        (FreeOfDenied denyBanned ["x".toList] ∧ Allowed denyBanned ["x".toList] →
          FreeOfDenied denyBanned (tryParse tagPlatform "x".toList) ∧
            Allowed denyBanned (tryParse tagPlatform "x".toList))) :=
  ⟨rfl, denies_iff rfl _ _⟩

/-- A user with a denied role passes by the role of the apikey, and a text with a denied role
passes as one role. -/
theorem exists_denied_admitted :
    ∃ (P : RBACPlatform) (config : RBACConfig) (ctx : RBACContext) (value : Str),
      config.denyAll = false ∧ HasDenied P config ctx ∧ access P config ctx = some true ∧
        matchesValue P config (some (.string value)) ≠
          some (isMatch (tryParse P value) config) := by
  refine ⟨tagPlatform, denyBanned,
    ⟨none, some (holderWithTag "role:ok"), some (holderWithTag "role:banned")⟩,
    "banned,x".toList, rfl, ⟨["banned".toList], ?_, "banned".toList, ?_, ?_⟩, ?_, ?_⟩
  all_goals decide

end RBAC

end Otoroshi
