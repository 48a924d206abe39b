/-
# The rights of an administrator

The rights of a user are a list: each right joins an access to tenants with
accesses to teams. A decision searches the list, and each search is free to find
its own right. An administrator of a tenant, who has one right with both
permissions on it and on all teams, may do everything there.
-/

import Otoroshi.Rights.Access

namespace Otoroshi.Rights

structure UserRight where
  tenant : TenantAccess
  teams : List TeamAccess
  deriving DecidableEq

structure UserRights where
  rights : List UserRight
  deriving DecidableEq

variable (P : Platform) {E : RegexEngine} (pool : Pool E)

/-! ## Reading -/

/-- `UserRight.format.reads`. -/
def UserRight.reads : Reads UserRight := fun json => do
  let tenant ← (json.select "tenant").as Reads.string
  let teams ← (json.select "teams").as Reads.jsArray
  let names ← teams.mapM Reads.string
  return ⟨Access.ofRaw P tenant, (names.map (Access.ofRaw P)).eraseDups⟩

/-- `readFromArray`: what cannot be read is left out. -/
def UserRights.readFromArray (array : List JsValue) : UserRights :=
  ⟨array.filterMap fun json => (UserRight.reads P json).toOption⟩

/-! ## Decisions -/

/-- What a right gives on a tenant. -/
def UserRight.administrates (right : UserRight) (tenant : TenantId) : Except JvmException Bool :=
  right.tenant.matchesId P pool tenant <&&> return (right.tenant.canReadWrite &&
    right.teams.any fun team => team.wildcard && team.canRead && team.canWrite)

def UserRight.givesTenant (permission : Access → Bool) (right : UserRight)
    (tenant : TenantId) : Except JvmException Bool :=
  right.tenant.matchesId P pool tenant <&&> return permission right.tenant

def UserRight.readsTenant : UserRight → TenantId → Except JvmException Bool :=
  UserRight.givesTenant P pool Access.canRead

def UserRight.writesTenant : UserRight → TenantId → Except JvmException Bool :=
  UserRight.givesTenant P pool Access.canReadWrite

def UserRight.givesTeam (permission : Access → Bool) (right : UserRight) (team : TeamId) :
    Except JvmException Bool :=
  right.teams.anyM fun access => access.matchesId P pool team <&&> return permission access

def UserRight.readsTeam : UserRight → TeamId → Except JvmException Bool :=
  UserRight.givesTeam P pool Access.canRead

def UserRight.writesTeam : UserRight → TeamId → Except JvmException Bool :=
  UserRight.givesTeam P pool Access.canReadWrite

namespace UserRights

/-- `env.bypassUserRightsCheck` is passed as `bypass`. -/
def superAdmin (bypass : Bool) (user : UserRights) : Bool :=
  bypass || user.rights.any fun right =>
    right.tenant.value == "*".toList && right.tenant.canReadWrite &&
      right.teams.any fun team => team.wildcard && team.canRead && team.canWrite

def tenantAdmin (bypass : Bool) (user : UserRights) (tenant : TenantId) :
    Except JvmException Bool :=
  if bypass || user.superAdmin bypass then return true
  else user.rights.anyM fun right => right.administrates P pool tenant

def rootOrTenantAdmin (bypass : Bool) (user : UserRights) (tenant : TenantId)
    (f : Except JvmException Bool) : Except JvmException Bool :=
  (return bypass || user.superAdmin bypass) <||> user.tenantAdmin P pool bypass tenant <||> f

def decidesTenant (permission : Access → Bool) (bypass : Bool) (user : UserRights)
    (tenant : TenantId) : Except JvmException Bool :=
  user.rootOrTenantAdmin P pool bypass tenant <|
    user.rights.anyM fun right => right.givesTenant P pool permission tenant

def canReadTenant : Bool → UserRights → TenantId → Except JvmException Bool :=
  decidesTenant P pool Access.canRead

def canWriteTenant : Bool → UserRights → TenantId → Except JvmException Bool :=
  decidesTenant P pool Access.canReadWrite

/-- Both decisions on teams ask for the tenant to be readable. -/
def decidesTeams (permission : Access → Bool) (bypass : Bool) (user : UserRights)
    (tenant : TenantId) (teams : List TeamId) : Except JvmException Bool :=
  user.rootOrTenantAdmin P pool bypass tenant <|
    user.canReadTenant P pool bypass tenant <&&>
      teams.anyM fun team =>
        user.rights.anyM fun right => right.givesTeam P pool permission team

def canReadTeams : Bool → UserRights → TenantId → List TeamId → Except JvmException Bool :=
  decidesTeams P pool Access.canRead

def canWriteTeams : Bool → UserRights → TenantId → List TeamId → Except JvmException Bool :=
  decidesTeams P pool Access.canReadWrite

/-- `covers`. -/
def covers (mine other : UserRights) : Except JvmException Bool :=
  allM (fun requested => mine.rights.anyM fun right =>
    right.tenant.covers pool requested.tenant <&&>
      allM (fun team => right.teams.anyM fun access => access.covers pool team) requested.teams)
    other.rights

end UserRights

/-! ## What a positive decision was found in -/

variable {P} {pool}

theorem UserRight.administrates_eq_true_iff {right : UserRight} {tenant : TenantId} :
    right.administrates P pool tenant = .ok true ↔
      right.tenant.matchesId P pool tenant = .ok true ∧ right.tenant.canReadWrite = true ∧
        ∃ team ∈ right.teams, team.wildcard = true ∧ team.canReadWrite = true := by
  simp [UserRight.administrates, Access.canReadWrite, and_assoc]

theorem UserRight.givesTenant_eq_true_iff {permission : Access → Bool} {right : UserRight}
    {tenant : TenantId} :
    right.givesTenant P pool permission tenant = .ok true ↔
      right.tenant.matchesId P pool tenant = .ok true ∧ permission right.tenant = true := by
  simp [UserRight.givesTenant]

namespace UserRights

variable {bypass : Bool} {user : UserRights} {tenant : TenantId} {f : Except JvmException Bool}

theorem not_bypass (h : user.superAdmin bypass = false) : bypass = false := by
  rw [superAdmin, Bool.or_eq_false_iff] at h
  exact h.1

theorem tenantAdmin_of_not_superAdmin (h : user.superAdmin bypass = false) :
    user.tenantAdmin P pool bypass tenant =
      user.rights.anyM fun right => right.administrates P pool tenant := by
  rw [tenantAdmin, h, not_bypass h]
  rfl

/-- Below a super administrator, a decision is taken by the administrators of the
tenant or by its own search. -/
theorem rootOrTenantAdmin_eq_true_iff (h : user.superAdmin bypass = false) :
    user.rootOrTenantAdmin P pool bypass tenant f = .ok true ↔
      user.tenantAdmin P pool bypass tenant = .ok true ∨
        (user.tenantAdmin P pool bypass tenant = .ok false ∧ f = .ok true) := by
  rw [rootOrTenantAdmin, h, not_bypass h, or_eq_ok_true, or_eq_ok_true]
  simp

theorem rootOrTenantAdmin_of_superAdmin (h : user.superAdmin bypass = true) :
    user.rootOrTenantAdmin P pool bypass tenant f = .ok true := by
  rw [rootOrTenantAdmin, h, Bool.or_true]
  rfl

theorem rootOrTenantAdmin_of_tenantAdmin
    (h : user.tenantAdmin P pool bypass tenant = .ok true) :
    user.rootOrTenantAdmin P pool bypass tenant f = .ok true := by
  cases hsuper : user.superAdmin bypass with
  | true => exact rootOrTenantAdmin_of_superAdmin hsuper
  | false => exact (rootOrTenantAdmin_eq_true_iff hsuper).mpr (.inl h)

end UserRights

end Otoroshi.Rights
