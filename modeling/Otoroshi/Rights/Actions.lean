/-
# What an administrator can read and write

A call of the admin api has a current tenant and a user. The user may read or
write an entity of the current tenant if the rights give the tenant and one of
the teams of the entity. A tenant is an entity without teams, and an apikey is
only written by a user whose rights cover the rights the key carries.

The tenant and the team are searched separately, so the right that gives the one
need not be the right that gives the other. `oneRight_of_canUser_iff` says for
which rights that makes no difference.
-/

import Otoroshi.Apikeys.Authorizations
import Otoroshi.Rights.UserRights

namespace Otoroshi.Rights

/-- The fields of a key that say what its holder may do. -/
structure ApiKey where
  authorizedEntities : List EntityIdentifier
  metadata : AList fun _ : Str => Str := ∅

namespace ApiKey

def accessRightsMetadataKey : Str := "otoroshi-access-rights".toList

def authorizedOnService (apikey : ApiKey) (id : Str) : Bool :=
  apikey.authorizedEntities.contains (.serviceDescriptor id)

def authorizedOnGroup (apikey : ApiKey) (id : Str) : Bool :=
  apikey.authorizedEntities.contains (.serviceGroup id)

end ApiKey

structure EntityLocation where
  tenant : TenantId
  teams : List TeamId

inductive EntityKind
  | tenant
  | apiKey (apikey : ApiKey)
  | other

structure Entity where
  kind : EntityKind
  location : EntityLocation

/-- `Tenant.location`: a tenant is located in itself, without a team. -/
def Entity.ofTenant (id : TenantId) : Entity := ⟨.tenant, ⟨id, []⟩⟩

structure BackOfficeUser where
  rights : UserRights

/-- The settings and objects of the running instance. -/
structure Env where
  bypassUserRightsCheck : Bool := false
  backOfficeGroup : Str
  backOfficeDescriptor : Str

/-- A call of the admin api. Without a user, the key of the call has no
restriction. -/
structure ApiActionContext where
  currentTenant : TenantId
  backOfficeUser : Except Str (Option BackOfficeUser)

variable (P : Platform) {E : RegexEngine} (pool : Pool E) (env : Env)

/-- `readFromArray` of the text in the metadata, where it is one. -/
def readMetadata (raw : Str) : Option UserRights :=
  ((P.parse raw).bind fun json => (Reads.jsArray json).toOption).map (UserRights.readFromArray P)

namespace ApiActionContext

/-- `canUserGrantApikeyRights`. -/
def canUserGrantApikeyRights (apikey : ApiKey) (user : BackOfficeUser) :
    Except JvmException Bool :=
  match apikey.metadata.lookup ApiKey.accessRightsMetadataKey with
  | none => return user.rights.superAdmin env.bypassUserRightsCheck ||
      !(apikey.authorizedOnGroup env.backOfficeGroup ||
        apikey.authorizedOnService env.backOfficeDescriptor)
  | some raw =>
      match readMetadata P raw with
      | none => return false
      | some rights => user.rights.covers pool rights

variable (ctx : ApiActionContext)

/-- The entity is where the call is made. -/
def isHere (item : Entity) : Bool :=
  ctx.currentTenant.value P == item.location.tenant.value P ||
    item.location.tenant == AccessId.all P

/-- The check of a user who is no super administrator. -/
def readsLocation (rights : UserRights) (item : Entity) : Except JvmException Bool :=
  match item.kind with
  | .tenant => rights.canReadTenant P pool env.bypassUserRightsCheck item.location.tenant
  | _ => (return ctx.isHere P item) <&&>
      rights.canReadTenant P pool env.bypassUserRightsCheck item.location.tenant <&&>
      rights.canReadTeams P pool env.bypassUserRightsCheck ctx.currentTenant item.location.teams

/-- `canUserRead`. -/
def canUserRead (item : Entity) : Except JvmException Bool :=
  match ctx.backOfficeUser with
  | .error _ => return false
  | .ok none => return true
  | .ok (some user) =>
      (return env.bypassUserRightsCheck || user.rights.superAdmin env.bypassUserRightsCheck) <||>
        ctx.readsLocation P pool env user.rights item

/-- `locationIsMine`. -/
def writesLocation (rights : UserRights) (item : Entity) : Except JvmException Bool :=
  (return ctx.isHere P item) <&&>
    rights.canWriteTenant P pool env.bypassUserRightsCheck item.location.tenant <&&>
    match item.kind with
    | .tenant => return true
    | _ => rights.canWriteTeams P pool env.bypassUserRightsCheck ctx.currentTenant
        item.location.teams

/-- The user may give the rights the entity carries. -/
def grantsRights (user : BackOfficeUser) (item : Entity) : Except JvmException Bool :=
  match item.kind with
  | .apiKey apikey => canUserGrantApikeyRights P pool env apikey user
  | _ => return true

/-- `canUserWrite`. -/
def canUserWrite (item : Entity) : Except JvmException Bool :=
  match ctx.backOfficeUser with
  | .error _ => return false
  | .ok none => return true
  | .ok (some user) =>
      (return env.bypassUserRightsCheck || user.rights.superAdmin env.bypassUserRightsCheck) <||>
        ctx.writesLocation P pool env user.rights item <&&> grantsRights P pool env user item

end ApiActionContext

/-! ## One right for the tenant and the team -/

/-- Somewhere in the right there is a team access for the team. -/
def UserRight.GivesTeam (permission : Access → Bool) (right : UserRight) (team : TeamId) : Prop :=
  ∃ access ∈ right.teams, access.matchesId P pool team = .ok true ∧ permission access = true

namespace UserRights

/-- One right gives the tenant and one of the teams. -/
def OneRightGives (permission : Access → Bool) (user : UserRights) (location : EntityLocation) :
    Prop :=
  ∃ right ∈ user.rights, right.givesTenant P pool permission location.tenant = .ok true ∧
    ∃ team ∈ location.teams, right.GivesTeam P pool permission team

/-- The tenant and the teams are searched separately. The searches join if an
administrator of the tenant meets an entity with a team, and if for anybody else who
passes both some right gives the tenant and a team. -/
structure Joins (permission : Access → Bool) (bypass : Bool) (user : UserRights)
    (location : EntityLocation) : Prop where
  located : user.tenantAdmin P pool bypass location.tenant = .ok true → location.teams ≠ []
  joined : user.tenantAdmin P pool bypass location.tenant = .ok false →
    (user.rights.anyM fun right => right.givesTenant P pool permission location.tenant) =
      .ok true →
    (location.teams.anyM fun team =>
      user.rights.anyM fun right => right.givesTeam P pool permission team) = .ok true →
    user.OneRightGives P pool permission location

end UserRights

end Otoroshi.Rights
