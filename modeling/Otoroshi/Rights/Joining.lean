/-
# Rights held on different tenants

A user who is no super administrator writes an entity when the rights give its
tenant and one of its teams. The two are searched one after the other in the
whole list of rights, so a right on another tenant can give the team.

`oneRight_of_canUser_iff` says for which users and entities one right gives both.
-/

import Otoroshi.Rights.Actions

namespace Otoroshi.Rights

variable {P : Platform} {E : RegexEngine} {pool : Pool E}

/-! ## Ids of one value -/

section Congr

variable {first second : TenantId} (hfirst : first ≠ AccessId.all P)
  (hsecond : second ≠ AccessId.all P) (hvalue : first.value P = second.value P)

include hfirst hsecond hvalue

theorem UserRights.tenantAdmin_congr (bypass : Bool) (user : UserRights) :
    user.tenantAdmin P pool bypass first = user.tenantAdmin P pool bypass second := by
  have hrights : ∀ right : UserRight,
      right.administrates P pool first = right.administrates P pool second := by
    intro right
    rw [UserRight.administrates, UserRight.administrates,
      right.tenant.matchesId_congr P pool hfirst hsecond hvalue]
  simp only [UserRights.tenantAdmin, hrights]

theorem UserRights.canReadTenant_congr (bypass : Bool) (user : UserRights) :
    user.canReadTenant P pool bypass first = user.canReadTenant P pool bypass second := by
  have hrights : ∀ right : UserRight,
      right.givesTenant P pool Access.canRead first =
        right.givesTenant P pool Access.canRead second := by
    intro right
    rw [UserRight.givesTenant, UserRight.givesTenant,
      right.tenant.matchesId_congr P pool hfirst hsecond hvalue]
  simp only [UserRights.canReadTenant, UserRights.decidesTenant, UserRights.rootOrTenantAdmin,
    hrights, UserRights.tenantAdmin_congr hfirst hsecond hvalue]

theorem UserRights.decidesTeams_congr (permission : Access → Bool) (bypass : Bool)
    (user : UserRights) (teams : List TeamId) :
    user.decidesTeams P pool permission bypass first teams =
      user.decidesTeams P pool permission bypass second teams := by
  simp only [UserRights.decidesTeams, UserRights.rootOrTenantAdmin,
    UserRights.tenantAdmin_congr hfirst hsecond hvalue,
    UserRights.canReadTenant_congr hfirst hsecond hvalue]

end Congr

/-! ## The two searches of a decision -/

section Searches

variable {permission : Access → Bool} {bypass : Bool} {user : UserRights} {tenant : TenantId}
  {teams : List TeamId} {location : EntityLocation}

theorem canRead_of_canReadWrite {access : Access} (h : access.canReadWrite = true) :
    access.canRead = true := by
  rw [Access.canReadWrite, Bool.and_eq_true] at h
  exact h.1

/-- A search for a tenant fails where its patterns do, whatever the permission. -/
theorem canReadTenant_of_search (hread : ∀ access, permission access = true →
      access.canRead = true)
    (h : (user.rights.anyM fun right => right.givesTenant P pool permission tenant) = .ok true) :
    (user.rights.anyM fun right => right.givesTenant P pool Access.canRead tenant) =
      .ok true := by
  apply anyM_eq_true_of_imp _ _ h
  · intro right _ hgives
    rw [UserRight.givesTenant_eq_true_iff] at hgives ⊢
    exact ⟨hgives.1, hread _ hgives.2⟩
  · intro right _ hanswers
    rw [UserRight.givesTenant] at hanswers ⊢
    exact (hanswers.left_of_and).and (answers_pure _)

/-- The test on the tenant and the test on the teams, both left to an administrator
of the tenant first. -/
theorem decides_both_iff (hsuper : user.superAdmin bypass = false)
    (hread : ∀ access, permission access = true → access.canRead = true) :
    (user.decidesTenant P pool permission bypass tenant = .ok true ∧
        user.decidesTeams P pool permission bypass tenant teams = .ok true) ↔
      user.tenantAdmin P pool bypass tenant = .ok true ∨
        (user.tenantAdmin P pool bypass tenant = .ok false ∧
          (user.rights.anyM fun right => right.givesTenant P pool permission tenant) = .ok true ∧
          (teams.anyM fun team =>
            user.rights.anyM fun right => right.givesTeam P pool permission team) = .ok true) := by
  rw [UserRights.decidesTenant, UserRights.decidesTeams, UserRights.canReadTenant,
    UserRights.decidesTenant, UserRights.rootOrTenantAdmin_eq_true_iff hsuper,
    UserRights.rootOrTenantAdmin_eq_true_iff hsuper, and_eq_ok_true,
    UserRights.rootOrTenantAdmin_eq_true_iff hsuper]
  constructor
  · rintro ⟨hadmin | ⟨hno, htenant⟩, hadmin' | ⟨hno', hreads, hsearch⟩⟩
    · exact .inl hadmin
    · exact .inl hadmin
    · exact .inl hadmin'
    · exact .inr ⟨hno, htenant, hsearch⟩
  · rintro (hadmin | ⟨hno, htenant, hsearch⟩)
    · exact ⟨.inl hadmin, .inl hadmin⟩
    · exact ⟨.inr ⟨hno, htenant⟩,
        .inr ⟨hno, .inr ⟨hno, canReadTenant_of_search hread htenant⟩, hsearch⟩⟩

/-- An administrator of the tenant has one right for it and a team exactly when
there is a team. -/
theorem oneRightGives_iff_of_tenantAdmin (hsuper : user.superAdmin bypass = false)
    (hwrite : ∀ access : Access, access.canReadWrite = true → permission access = true)
    (hadmin : user.tenantAdmin P pool bypass location.tenant = .ok true) :
    user.OneRightGives P pool permission location ↔ location.teams ≠ [] := by
  constructor
  · rintro ⟨-, -, -, team, hteam, -⟩
    exact List.ne_nil_of_mem hteam
  · intro hteams
    rw [UserRights.tenantAdmin_of_not_superAdmin hsuper] at hadmin
    obtain ⟨right, hright, hadministrates⟩ := exists_of_anyM_eq_true hadmin
    obtain ⟨htenant, hboth, access, haccess, hwildcard, hteam⟩ :=
      UserRight.administrates_eq_true_iff.mp hadministrates
    obtain ⟨team, hmem⟩ := List.exists_mem_of_ne_nil _ hteams
    exact ⟨right, hright, UserRight.givesTenant_eq_true_iff.mpr ⟨htenant, hwrite _ hboth⟩, team,
      hmem, access, haccess, access.matchesId_of_wildcard P pool hwildcard team, hwrite _ hteam⟩

/-- A decision on a tenant and teams comes from one right exactly when its searches
join. -/
theorem oneRightGives_iff_joins (hsuper : user.superAdmin bypass = false)
    (hread : ∀ access, permission access = true → access.canRead = true)
    (hwrite : ∀ access : Access, access.canReadWrite = true → permission access = true) :
    (user.decidesTenant P pool permission bypass location.tenant = .ok true ∧
        user.decidesTeams P pool permission bypass location.tenant location.teams = .ok true →
        user.OneRightGives P pool permission location) ↔
      user.Joins P pool permission bypass location := by
  rw [decides_both_iff hsuper hread]
  constructor
  · intro h
    exact ⟨fun hadmin =>
        (oneRightGives_iff_of_tenantAdmin hsuper hwrite hadmin).mp (h (.inl hadmin)),
      fun hno htenant hteams => h (.inr ⟨hno, htenant, hteams⟩)⟩
  · rintro h (hadmin | ⟨hno, htenant, hteams⟩)
    · exact (oneRightGives_iff_of_tenantAdmin hsuper hwrite hadmin).mpr (h.located hadmin)
    · exact h.joined hno htenant hteams

/-- A decision on a tenant comes from one right. -/
theorem exists_of_decidesTenant (hsuper : user.superAdmin bypass = false)
    (hwrite : ∀ access : Access, access.canReadWrite = true → permission access = true)
    (h : user.decidesTenant P pool permission bypass tenant = .ok true) :
    ∃ right ∈ user.rights, right.givesTenant P pool permission tenant = .ok true := by
  rw [UserRights.decidesTenant, UserRights.rootOrTenantAdmin_eq_true_iff hsuper,
    UserRights.tenantAdmin_of_not_superAdmin hsuper] at h
  cases h with
  | inl hadmin =>
      obtain ⟨right, hright, hadministrates⟩ := exists_of_anyM_eq_true hadmin
      obtain ⟨htenant, hboth, -⟩ := UserRight.administrates_eq_true_iff.mp hadministrates
      exact ⟨right, hright, UserRight.givesTenant_eq_true_iff.mpr ⟨htenant, hwrite _ hboth⟩⟩
  | inr hsearch => exact exists_of_anyM_eq_true hsearch.2

end Searches

/-! ## Entities -/

namespace ApiActionContext

variable {env : Env} {ctx : ApiActionContext} {user : BackOfficeUser} {item : Entity}

/-- One right gives the tenant, and one of the teams unless the entity is a tenant,
which has none. -/
def ByOneRight (P : Platform) (pool : Pool E) (permission : Access → Bool) (rights : UserRights)
    (item : Entity) : Prop :=
  match item.kind with
  | .tenant => ∃ right ∈ rights.rights,
      right.givesTenant P pool permission item.location.tenant = .ok true
  | _ => rights.OneRightGives P pool permission item.location

theorem byOneRight_iff_of_ne_tenant {permission : Access → Bool} {rights : UserRights}
    (hkind : item.kind ≠ .tenant) :
    ByOneRight P pool permission rights item ↔
      rights.OneRightGives P pool permission item.location := by
  rw [ByOneRight]
  split
  · contradiction
  · rfl

/-- The searches for an entity with teams join, if the entity is in the current
tenant and the user may give the rights it carries. -/
structure JoinsFor (P : Platform) (pool : Pool E) (env : Env) (ctx : ApiActionContext)
    (user : BackOfficeUser) (item : Entity) : Prop where
  writes : item.kind ≠ .tenant → ctx.currentTenant.value P = item.location.tenant.value P →
    grantsRights P pool env user item = .ok true →
    user.rights.Joins P pool Access.canReadWrite env.bypassUserRightsCheck item.location
  reads : item.kind ≠ .tenant → ctx.currentTenant.value P = item.location.tenant.value P →
    user.rights.Joins P pool Access.canRead env.bypassUserRightsCheck item.location

theorem isHere_iff (hplain : item.location.tenant.Plain P) :
    ctx.isHere P item = true ↔ ctx.currentTenant.value P = item.location.tenant.value P := by
  simp [isHere, hplain.ne_all]

theorem canUserRead_eq_of_not_superAdmin (huser : ctx.backOfficeUser = .ok (some user))
    (hsuper : user.rights.superAdmin env.bypassUserRightsCheck = false) :
    ctx.canUserRead P pool env item = ctx.readsLocation P pool env user.rights item := by
  rw [canUserRead, huser]
  apply or_of_not_left
  rw [hsuper, UserRights.not_bypass hsuper]
  rfl

theorem canUserWrite_eq_of_not_superAdmin (huser : ctx.backOfficeUser = .ok (some user))
    (hsuper : user.rights.superAdmin env.bypassUserRightsCheck = false) :
    ctx.canUserWrite P pool env item =
      (ctx.writesLocation P pool env user.rights item <&&>
        grantsRights P pool env user item) := by
  rw [canUserWrite, huser]
  apply or_of_not_left
  rw [hsuper, UserRights.not_bypass hsuper]
  rfl

/-- Where the entity is in the current tenant, the decision on it is the one on the
tenant and its teams. -/
theorem decidesTeams_currentTenant (hplain : item.location.tenant.Plain P)
    (hhere : ctx.currentTenant.value P = item.location.tenant.value P)
    (permission : Access → Bool) (rights : UserRights) (bypass : Bool) (teams : List TeamId) :
    rights.decidesTeams P pool permission bypass ctx.currentTenant teams =
      rights.decidesTeams P pool permission bypass item.location.tenant teams := by
  have hcurrent : ctx.currentTenant.Plain P := by rwa [AccessId.Plain, hhere]
  exact rights.decidesTeams_congr hcurrent.ne_all hplain.ne_all hhere permission bypass teams

private theorem readsByOneRight_iff (huser : ctx.backOfficeUser = .ok (some user))
    (hsuper : user.rights.superAdmin env.bypassUserRightsCheck = false)
    (hplain : item.location.tenant.Plain P) :
    (ctx.canUserRead P pool env item = .ok true →
        ByOneRight P pool Access.canRead user.rights item) ↔
      (item.kind ≠ .tenant → ctx.currentTenant.value P = item.location.tenant.value P →
        user.rights.Joins P pool Access.canRead env.bypassUserRightsCheck item.location) := by
  rw [canUserRead_eq_of_not_superAdmin huser hsuper]
  by_cases hkind : item.kind = .tenant
  · rw [readsLocation, ByOneRight, hkind]
    have hone := @exists_of_decidesTenant P E pool Access.canRead _ _
      item.location.tenant hsuper fun _ => canRead_of_canReadWrite
    simpa [UserRights.canReadTenant] using hone
  · have hlocation : ctx.readsLocation P pool env user.rights item = .ok true ↔
        ctx.isHere P item = true ∧
          user.rights.canReadTenant P pool env.bypassUserRightsCheck item.location.tenant =
            .ok true ∧
          user.rights.canReadTeams P pool env.bypassUserRightsCheck ctx.currentTenant
            item.location.teams = .ok true := by
      rw [readsLocation]
      split
      · contradiction
      · simp
    have hjoins := @oneRightGives_iff_joins P E pool Access.canRead _ _ item.location
      hsuper (fun _ => id) fun _ => canRead_of_canReadWrite
    rw [byOneRight_iff_of_ne_tenant hkind, hlocation, isHere_iff hplain, and_imp]
    constructor
    · intro h _ hhere
      have hdecided := h hhere
      rw [UserRights.canReadTeams, decidesTeams_currentTenant hplain hhere] at hdecided
      exact hjoins.mp hdecided
    · intro h hhere
      rw [UserRights.canReadTeams, decidesTeams_currentTenant hplain hhere]
      exact hjoins.mpr (h hkind hhere)

private theorem writesByOneRight_iff (huser : ctx.backOfficeUser = .ok (some user))
    (hsuper : user.rights.superAdmin env.bypassUserRightsCheck = false)
    (hplain : item.location.tenant.Plain P) :
    (ctx.canUserWrite P pool env item = .ok true →
        ByOneRight P pool Access.canReadWrite user.rights item) ↔
      (item.kind ≠ .tenant → ctx.currentTenant.value P = item.location.tenant.value P →
        grantsRights P pool env user item = .ok true →
        user.rights.Joins P pool Access.canReadWrite env.bypassUserRightsCheck
          item.location) := by
  rw [canUserWrite_eq_of_not_superAdmin huser hsuper, and_eq_ok_true]
  by_cases hkind : item.kind = .tenant
  · rw [writesLocation, ByOneRight, hkind]
    have hone := @exists_of_decidesTenant P E pool Access.canReadWrite _ _
      item.location.tenant hsuper fun _ => id
    simpa [UserRights.canWriteTenant] using fun _ hdecided _ => hone hdecided
  · have hlocation : ctx.writesLocation P pool env user.rights item = .ok true ↔
        ctx.isHere P item = true ∧
          user.rights.canWriteTenant P pool env.bypassUserRightsCheck item.location.tenant =
            .ok true ∧
          user.rights.canWriteTeams P pool env.bypassUserRightsCheck ctx.currentTenant
            item.location.teams = .ok true := by
      rw [writesLocation]
      split
      · contradiction
      · simp
    have hjoins := @oneRightGives_iff_joins P E pool Access.canReadWrite _ _ item.location
      hsuper (fun _ => canRead_of_canReadWrite) fun _ => id
    rw [byOneRight_iff_of_ne_tenant hkind, hlocation, isHere_iff hplain, and_assoc, and_imp]
    constructor
    · intro h _ hhere hgrants
      have hdecided := fun hboth => h hhere ⟨hboth, hgrants⟩
      rw [UserRights.canWriteTeams, decidesTeams_currentTenant hplain hhere] at hdecided
      exact hjoins.mp hdecided
    · rintro h hhere ⟨hboth, hgrants⟩
      rw [UserRights.canWriteTeams, decidesTeams_currentTenant hplain hhere] at hboth
      exact hjoins.mpr (h hkind hhere hgrants) hboth

/-- What a user below the super administrators may do with an entity of a plain
tenant comes from one right exactly when the searches for its tenant and its teams
join. -/
theorem oneRight_of_canUser_iff (huser : ctx.backOfficeUser = .ok (some user))
    (hsuper : user.rights.superAdmin env.bypassUserRightsCheck = false)
    (hplain : item.location.tenant.Plain P) :
    ((ctx.canUserWrite P pool env item = .ok true →
          ByOneRight P pool Access.canReadWrite user.rights item) ∧
        (ctx.canUserRead P pool env item = .ok true →
          ByOneRight P pool Access.canRead user.rights item)) ↔
      ctx.JoinsFor P pool env user item := by
  rw [writesByOneRight_iff huser hsuper hplain, readsByOneRight_iff huser hsuper hplain]
  constructor
  · rintro ⟨hwrites, hreads⟩
    exact ⟨hwrites, hreads⟩
  · intro h
    exact ⟨h.writes, h.reads⟩

/-! ## Two rights on two tenants -/

/-- A platform for names of ASCII letters. -/
def asciiPlatform : Platform where
  toLowerCase text := text.map Char.toLower
  toLowerCase_star := by decide
  parse _ := none

def plainEnv : Env where
  backOfficeGroup := "admin-api-group".toList
  backOfficeDescriptor := "admin-api-service".toList

/-- A right with both permissions on one tenant and one team. -/
def rightOn (tenant team : String) : UserRight where
  tenant := .ofValue asciiPlatform tenant.toList true true
  teams := [.ofValue asciiPlatform team.toList true true]

def twoTenantsUser : BackOfficeUser := ⟨⟨[rightOn "acme" "ops", rightOn "umbrella" "billing"]⟩⟩

def acmeContext : ApiActionContext where
  currentTenant := .apply asciiPlatform "acme".toList
  backOfficeUser := .ok (some twoTenantsUser)

/-- An entity of the first tenant, in the given team. -/
def acmeEntity (team : String) : Entity where
  kind := .other
  location := ⟨.apply asciiPlatform "acme".toList, [.apply asciiPlatform team.toList]⟩

theorem oneRight_of_canUser_iff_example :
    (acmeContext.canUserWrite asciiPlatform (freshPool starEngine) plainEnv (acmeEntity "ops") =
          .ok true →
        ByOneRight asciiPlatform (freshPool starEngine) Access.canReadWrite twoTenantsUser.rights
          (acmeEntity "ops")) ∧
      (acmeContext.canUserRead asciiPlatform (freshPool starEngine) plainEnv (acmeEntity "ops") =
          .ok true →
        ByOneRight asciiPlatform (freshPool starEngine) Access.canRead twoTenantsUser.rights
          (acmeEntity "ops")) ↔
      acmeContext.JoinsFor asciiPlatform (freshPool starEngine) plainEnv twoTenantsUser
        (acmeEntity "ops") :=
  oneRight_of_canUser_iff rfl (by decide) (by unfold AccessId.Plain; decide)

/-- The team of one tenant opens an entity of the other tenant. -/
theorem exists_canUserWrite_across_tenants :
    ¬ ∀ (P : Platform) (E : RegexEngine) (pool : Pool E) (env : Env) (ctx : ApiActionContext)
        (user : BackOfficeUser) (item : Entity),
        ctx.backOfficeUser = .ok (some user) →
        user.rights.superAdmin env.bypassUserRightsCheck = false →
        item.location.tenant.Plain P → (∀ team ∈ item.location.teams, team.Plain P) →
        (ctx.canUserWrite P pool env item = .ok true →
            ByOneRight P pool Access.canReadWrite user.rights item) ∧
          (ctx.canUserRead P pool env item = .ok true →
            ByOneRight P pool Access.canRead user.rights item) := by
  intro h
  have hclaim := (h asciiPlatform starEngine (freshPool starEngine) plainEnv acmeContext
    twoTenantsUser (acmeEntity "billing") rfl (by decide) (by unfold AccessId.Plain; decide)
    (by unfold AccessId.Plain; decide)).1 (by decide)
  obtain ⟨right, hright, htenant, team, hteam, access, haccess, hteamMatches, -⟩ := hclaim
  have hbilling : team = .apply asciiPlatform "billing".toList := List.mem_singleton.mp hteam
  subst hbilling
  have hrights : right = rightOn "acme" "ops" ∨ right = rightOn "umbrella" "billing" := by
    simpa [twoTenantsUser] using hright
  cases hrights with
  | inl hacme =>
      subst hacme
      have hops : access = .ofValue asciiPlatform "ops".toList true true :=
        List.mem_singleton.mp haccess
      subst hops
      revert hteamMatches
      decide
  | inr humbrella =>
      subst humbrella
      revert htenant
      decide

end ApiActionContext

end Otoroshi.Rights
