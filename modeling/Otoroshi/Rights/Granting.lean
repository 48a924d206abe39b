/-
# Granting rights

An apikey carries rights for its holder, and a user may only write one whose
rights are covered by the user's own. `covers` compares the texts of patterns: a
requested pattern without a star is taken for a name. A decision reads the same
text as a regular expression, which can stand for more than one name.

`within_iff` says over which patterns what is covered is never wider.
-/

import Otoroshi.Rights.Joining

namespace Otoroshi.Rights

variable (P : Platform) {E : RegexEngine} (pool : Pool E)

/-! ## Decisions and holders -/

/-- What can be asked of a set of rights. -/
inductive Decision
  | superAdmin
  | tenantAdmin (tenant : TenantId)
  | canReadTenant (tenant : TenantId)
  | canWriteTenant (tenant : TenantId)
  | canReadTeams (tenant : TenantId) (teams : List TeamId)
  | canWriteTeams (tenant : TenantId) (teams : List TeamId)

def UserRights.decides (bypass : Bool) (user : UserRights) : Decision → Except JvmException Bool
  | .superAdmin => return user.superAdmin bypass
  | .tenantAdmin tenant => user.tenantAdmin P pool bypass tenant
  | .canReadTenant tenant => user.canReadTenant P pool bypass tenant
  | .canWriteTenant tenant => user.canWriteTenant P pool bypass tenant
  | .canReadTeams tenant teams => user.canReadTeams P pool bypass tenant teams
  | .canWriteTeams tenant teams => user.canWriteTeams P pool bypass tenant teams

/-- The first set of rights grants whatever the second one grants. -/
def UserRights.GrantsAll (bypass : Bool) (mine other : UserRights) : Prop :=
  ∀ decision, other.decides P pool bypass decision = .ok true →
    mine.decides P pool bypass decision = .ok true

/-- `backOfficeUser` of a call made with a key alone: the rights of its holder,
`some none` where there is no restriction. A text that is not JSON makes the call
fail, which is `none`. -/
def ApiKey.holder (env : Env) (apikey : ApiKey) : Option (Option UserRights) :=
  if env.bypassUserRightsCheck then some none
  else
    match apikey.metadata.lookup ApiKey.accessRightsMetadataKey with
    | none => some none
    | some raw => (P.parse raw).map fun json =>
        (Reads.jsArray json).toOption.map (UserRights.readFromArray P)

/-- What is asked of the holder of a key, who may be without restriction. -/
def holderDecides (bypass : Bool) (holder : Option UserRights) (decision : Decision) :
    Except JvmException Bool :=
  match holder with
  | none => return true
  | some rights => rights.decides P pool bypass decision

/-- The keys that the admin api takes. -/
def ApiKey.isAuthorizedOnAdminApi (env : Env) (apikey : ApiKey) : Bool :=
  apikey.authorizedOnGroup env.backOfficeGroup ||
    apikey.authorizedOnService env.backOfficeDescriptor

/-! ## Rights over given patterns -/

/-- All patterns of the rights are among the given ones. -/
def UserRights.Over (patterns : Set Str) (user : UserRights) : Prop :=
  ∀ right ∈ user.rights, right.tenant.value ∈ patterns ∧
    ∀ team ∈ right.teams, team.value ∈ patterns

/-- Over these patterns of the writer and of the granted rights, a granted pattern
that is covered stands for nothing that the covering one does not stand for, and
the engine takes every pattern of the writer where it takes the granted one. -/
def PatternsWithin (mine other : Set Str) : Prop :=
  ∀ covering ∈ mine, ∀ covered ∈ other,
    AccessCoverage.coversValue pool covering covered = .ok true → ∀ id : AccessId,
      (patternMatches P pool covered id = .ok true →
        patternMatches P pool covering id = .ok true) ∧
      (Answers (patternMatches P pool covered id) →
        ∀ pattern ∈ mine, Answers (patternMatches P pool pattern id))

/-- Rights over these patterns never grant more than the ones that cover them, and
a key is only accepted if its holder is granted nothing on the admin api that the
writer is not. -/
def GrantsWithin (mine other : Set Str) : Prop :=
  (∀ (bypass : Bool) (granting granted : UserRights), granting.Over mine → granted.Over other →
    granting.covers pool granted = .ok true → granting.GrantsAll P pool bypass granted) ∧
  ∀ (env : Env) (user : BackOfficeUser) (apikey : ApiKey) (holder : Option UserRights),
    user.rights.Over mine → (∀ rights ∈ holder, rights.Over other) →
    ApiActionContext.canUserGrantApikeyRights P pool env apikey user = .ok true →
    apikey.isAuthorizedOnAdminApi env = true → apikey.holder P env = some holder →
    ∀ decision, holderDecides P pool env.bypassUserRightsCheck holder decision = .ok true →
      user.rights.decides P pool env.bypassUserRightsCheck decision = .ok true

/-! ## What is covered is granted -/

variable {P} {pool}

/-- Each right that is covered, with the right that covers it. -/
theorem exists_right_of_covers {mine other : UserRights} (h : mine.covers pool other = .ok true)
    {requested : UserRight} (hrequested : requested ∈ other.rights) :
    ∃ right ∈ mine.rights, right.tenant.covers pool requested.tenant = .ok true ∧
      ∀ team ∈ requested.teams, ∃ access ∈ right.teams, access.covers pool team = .ok true := by
  rw [UserRights.covers, allM_eq_true_iff] at h
  obtain ⟨right, hright, hcovers⟩ := exists_of_anyM_eq_true (h requested hrequested)
  rw [and_eq_ok_true, allM_eq_true_iff] at hcovers
  exact ⟨right, hright, hcovers.1, fun team hteam => exists_of_anyM_eq_true (hcovers.2 team hteam)⟩

/-- Only the star covers the star. -/
theorem eq_star_of_covers {mine other : Access} (h : mine.covers pool other = .ok true)
    (hstar : other.value = "*".toList) : mine.value = "*".toList := by
  rw [Access.covers_eq_true_iff, AccessCoverage.coversValue, hstar] at h
  by_contra hne
  rw [if_neg hne, if_pos (by decide)] at h
  exact hne (by simpa using h.1)

/-- The permissions of a covered access. -/
theorem canReadWrite_of_covers {mine other : Access} (h : mine.covers pool other = .ok true)
    (hwrite : other.canReadWrite = true) : mine.canReadWrite = true := by
  rw [Access.covers_eq_true_iff] at h
  rw [Access.canReadWrite, Bool.and_eq_true] at hwrite ⊢
  exact ⟨h.2.1 hwrite.1, h.2.2 hwrite.2⟩

/-- An access with both permissions on all teams is covered by such an access. -/
theorem exists_wildcard_of_covers {right requested : UserRight}
    (hteams : ∀ team ∈ requested.teams, ∃ access ∈ right.teams, access.covers pool team = .ok true)
    (h : ∃ team ∈ requested.teams, team.wildcard = true ∧ team.canReadWrite = true) :
    ∃ team ∈ right.teams, team.wildcard = true ∧ team.canReadWrite = true := by
  obtain ⟨team, hteam, hwildcard, hwrite⟩ := h
  obtain ⟨access, haccess, hcovers⟩ := hteams team hteam
  rw [Access.wildcard, beq_iff_eq] at hwildcard
  refine ⟨access, haccess, ?_, canReadWrite_of_covers hcovers hwrite⟩
  rw [Access.wildcard, beq_iff_eq, eq_star_of_covers hcovers hwildcard]

theorem superAdmin_eq_true_iff {bypass : Bool} {user : UserRights} :
    user.superAdmin bypass = true ↔ bypass = true ∨
      ∃ right ∈ user.rights, right.tenant.value = "*".toList ∧ right.tenant.canReadWrite = true ∧
        ∃ team ∈ right.teams, team.wildcard = true ∧ team.canReadWrite = true := by
  simp [UserRights.superAdmin, Access.canReadWrite, and_assoc]

theorem superAdmin_of_covers {bypass : Bool} {mine other : UserRights}
    (hcovers : mine.covers pool other = .ok true) (h : other.superAdmin bypass = true) :
    mine.superAdmin bypass = true := by
  rw [superAdmin_eq_true_iff] at h ⊢
  cases h with
  | inl hbypass => exact .inl hbypass
  | inr h =>
      obtain ⟨requested, hrequested, hstar, hwrite, hwildcard⟩ := h
      obtain ⟨right, hright, htenant, hteams⟩ := exists_right_of_covers hcovers hrequested
      exact .inr ⟨right, hright, eq_star_of_covers htenant hstar,
        canReadWrite_of_covers htenant hwrite, exists_wildcard_of_covers hteams hwildcard⟩

/-- Whatever is asked of a super administrator is granted. -/
theorem decides_of_superAdmin {bypass : Bool} {user : UserRights}
    (h : user.superAdmin bypass = true) (decision : Decision) :
    user.decides P pool bypass decision = .ok true := by
  cases decision with
  | superAdmin => rw [UserRights.decides, h, pure_eq_ok]
  | tenantAdmin tenant =>
      rw [UserRights.decides, UserRights.tenantAdmin, h, Bool.or_true, if_pos rfl, pure_eq_ok]
  | canReadTenant tenant => exact UserRights.rootOrTenantAdmin_of_superAdmin h
  | canWriteTenant tenant => exact UserRights.rootOrTenantAdmin_of_superAdmin h
  | canReadTeams tenant teams => exact UserRights.rootOrTenantAdmin_of_superAdmin h
  | canWriteTeams tenant teams => exact UserRights.rootOrTenantAdmin_of_superAdmin h

section Within

variable {M O : Set Str} {bypass : Bool} {mine other : UserRights} {tenant : TenantId}
  (hwithin : PatternsWithin P pool M O) (hmine : mine.Over M) (hother : other.Over O)
  (hcovers : mine.covers pool other = .ok true)

include hwithin hmine hother hcovers

/-- Where the engine takes the tenant pattern of a covered right, no test on the
tenants of the writer fails. -/
theorem answers_tenant_test {requested : UserRight} (hrequested : requested ∈ other.rights)
    (hanswers : Answers (requested.tenant.matchesId P pool tenant)) (test : UserRight → Bool) :
    ∀ right ∈ mine.rights,
      Answers (right.tenant.matchesId P pool tenant <&&> return test right) := by
  intro right hright
  obtain ⟨covering, hcovering, htenant, -⟩ := exists_right_of_covers hcovers hrequested
  rw [Access.covers_eq_true_iff] at htenant
  have htaken := (hwithin _ (hmine covering hcovering).1 _ (hother requested hrequested).1
    htenant.1 tenant).2 hanswers
  exact (htaken _ (hmine right hright).1).and (answers_pure _)

/-- A covered tenant access that matches is covered by one that matches. -/
theorem exists_tenant_of_matches {requested : UserRight} (hrequested : requested ∈ other.rights)
    (hmatches : requested.tenant.matchesId P pool tenant = .ok true) :
    ∃ right ∈ mine.rights, right.tenant.matchesId P pool tenant = .ok true ∧
      right.tenant.covers pool requested.tenant = .ok true ∧
      ∀ team ∈ requested.teams, ∃ access ∈ right.teams, access.covers pool team = .ok true := by
  obtain ⟨right, hright, htenant, hteams⟩ := exists_right_of_covers hcovers hrequested
  have hvalue := ((Access.covers_eq_true_iff pool _ _).mp htenant).1
  exact ⟨right, hright, (hwithin _ (hmine right hright).1 _ (hother requested hrequested).1
    hvalue tenant).1 hmatches, htenant, hteams⟩

theorem answers_tenantAdmin {requested : UserRight} (hrequested : requested ∈ other.rights)
    (hanswers : Answers (requested.tenant.matchesId P pool tenant))
    (hsuper : mine.superAdmin bypass = false) :
    Answers (mine.tenantAdmin P pool bypass tenant) := by
  rw [UserRights.tenantAdmin_of_not_superAdmin hsuper]
  exact answers_anyM (answers_tenant_test hwithin hmine hother hcovers hrequested hanswers _)

theorem tenantAdmin_of_covers (hsuper : mine.superAdmin bypass = false)
    (h : other.tenantAdmin P pool bypass tenant = .ok true) :
    mine.tenantAdmin P pool bypass tenant = .ok true := by
  have hotherSuper : other.superAdmin bypass = false := by
    by_contra hyes
    simp [superAdmin_of_covers hcovers (by simpa using hyes)] at hsuper
  rw [UserRights.tenantAdmin_of_not_superAdmin hotherSuper] at h
  obtain ⟨requested, hrequested, hadministrates⟩ := exists_of_anyM_eq_true h
  obtain ⟨hmatches, hwrite, hwildcard⟩ := UserRight.administrates_eq_true_iff.mp hadministrates
  obtain ⟨right, hright, hrightMatches, htenant, hteams⟩ :=
    exists_tenant_of_matches hwithin hmine hother hcovers hrequested hmatches
  have htests := answers_tenant_test hwithin hmine hother hcovers hrequested ⟨true, hmatches⟩
  rw [UserRights.tenantAdmin_of_not_superAdmin hsuper]
  exact (anyM_eq_true_iff (htests _)).mpr ⟨right, hright,
    UserRight.administrates_eq_true_iff.mpr ⟨hrightMatches,
      canReadWrite_of_covers htenant hwrite, exists_wildcard_of_covers hteams hwildcard⟩⟩

/-- A decision of somebody who is not in charge of everything passes to the writer,
if its own search does once the engine takes the tenant. -/
theorem rootOrTenantAdmin_of_covers {f g : Except JvmException Bool}
    (hsuper : mine.superAdmin bypass = false)
    (hf : f = .ok true → g = .ok true ∧ ∃ requested ∈ other.rights,
      Answers (requested.tenant.matchesId P pool tenant))
    (h : other.rootOrTenantAdmin P pool bypass tenant f = .ok true) :
    mine.rootOrTenantAdmin P pool bypass tenant g = .ok true := by
  have hotherSuper : other.superAdmin bypass = false := by
    by_contra hyes
    simp [superAdmin_of_covers hcovers (by simpa using hyes)] at hsuper
  rw [UserRights.rootOrTenantAdmin_eq_true_iff hotherSuper] at h
  rw [UserRights.rootOrTenantAdmin_eq_true_iff hsuper]
  cases h with
  | inl hadmin => exact .inl (tenantAdmin_of_covers hwithin hmine hother hcovers hsuper hadmin)
  | inr h =>
      obtain ⟨hg, requested, hrequested, hanswers⟩ := hf h.2
      cases answers_tenantAdmin hwithin hmine hother hcovers hrequested hanswers hsuper with
      | intro answer hadmin =>
          cases answer with
          | true => exact .inl hadmin
          | false => exact .inr ⟨hadmin, hg⟩

variable {permission : Access → Bool}
  (hpermission : ∀ covering covered : Access, covering.covers pool covered = .ok true →
    permission covered = true → permission covering = true)

include hpermission

/-- The search for a tenant finds something among the rights of the writer too. -/
theorem searchTenant_of_covers
    (h : (other.rights.anyM fun right => right.givesTenant P pool permission tenant) = .ok true) :
    (mine.rights.anyM fun right => right.givesTenant P pool permission tenant) = .ok true ∧
      ∃ requested ∈ other.rights, Answers (requested.tenant.matchesId P pool tenant) := by
  obtain ⟨requested, hrequested, hgives⟩ := exists_of_anyM_eq_true h
  obtain ⟨hmatches, hallowed⟩ := UserRight.givesTenant_eq_true_iff.mp hgives
  obtain ⟨right, hright, hrightMatches, htenant, -⟩ :=
    exists_tenant_of_matches hwithin hmine hother hcovers hrequested hmatches
  use (anyM_eq_true_iff (answers_tenant_test hwithin hmine hother hcovers hrequested
    ⟨true, hmatches⟩ _)).mpr ⟨right, hright, UserRight.givesTenant_eq_true_iff.mpr
      ⟨hrightMatches, hpermission _ _ htenant hallowed⟩⟩
  exact ⟨requested, hrequested, true, hmatches⟩

theorem decidesTenant_of_covers (hsuper : mine.superAdmin bypass = false)
    (h : other.decidesTenant P pool permission bypass tenant = .ok true) :
    mine.decidesTenant P pool permission bypass tenant = .ok true :=
  rootOrTenantAdmin_of_covers hwithin hmine hother hcovers hsuper
    (searchTenant_of_covers hwithin hmine hother hcovers hpermission) h

omit hpermission in
/-- Where the engine takes the pattern of a covered team access, no test on the teams
of the writer fails. -/
theorem answers_givesTeam {requested : UserRight} (hrequested : requested ∈ other.rights)
    {covered : TeamAccess} (hcovered : covered ∈ requested.teams) {team : TeamId}
    (hanswers : Answers (covered.matchesId P pool team)) (allowed : Access → Bool) :
    ∀ right ∈ mine.rights, Answers (right.givesTeam P pool allowed team) := by
  intro right hright
  obtain ⟨covering, hcovering, -, hteams⟩ := exists_right_of_covers hcovers hrequested
  obtain ⟨access, haccess, hteam⟩ := hteams covered hcovered
  have hvalue := ((Access.covers_eq_true_iff pool _ _).mp hteam).1
  apply answers_anyM
  intro found hfound
  have htaken := (hwithin _ ((hmine covering hcovering).2 access haccess) _
    ((hother requested hrequested).2 covered hcovered) hvalue team).2 hanswers
  exact (htaken _ ((hmine right hright).2 found hfound)).and (answers_pure _)

/-- The search for a team finds something among the rights of the writer too. -/
theorem searchTeam_of_covers {team : TeamId}
    (h : (other.rights.anyM fun right => right.givesTeam P pool permission team) = .ok true) :
    (mine.rights.anyM fun right => right.givesTeam P pool permission team) = .ok true := by
  obtain ⟨requested, hrequested, hgives⟩ := exists_of_anyM_eq_true h
  obtain ⟨covered, hcovered, htest⟩ := exists_of_anyM_eq_true hgives
  rw [and_eq_ok_true, pure_eq_ok, Except.ok.injEq] at htest
  obtain ⟨right, hright, -, hteams⟩ := exists_right_of_covers hcovers hrequested
  obtain ⟨access, haccess, hteam⟩ := hteams covered hcovered
  have hvalue := ((Access.covers_eq_true_iff pool _ _).mp hteam).1
  have hmatches : access.matchesId P pool team = .ok true :=
    (hwithin _ ((hmine right hright).2 access haccess) _
      ((hother requested hrequested).2 covered hcovered) hvalue team).1 htest.1
  have hrights := answers_givesTeam hwithin hmine hother hcovers hrequested hcovered
    ⟨true, htest.1⟩ permission
  have haccesses : ∀ found ∈ right.teams,
      Answers (found.matchesId P pool team <&&> return permission found) := by
    intro found hfound
    have hvalue' := (hwithin _ ((hmine right hright).2 access haccess) _
      ((hother requested hrequested).2 covered hcovered) hvalue team).2 ⟨true, htest.1⟩
    exact (hvalue' _ ((hmine right hright).2 found hfound)).and (answers_pure _)
  apply (anyM_eq_true_iff hrights).mpr
  use right, hright
  apply (anyM_eq_true_iff haccesses).mpr
  use access, haccess
  rw [and_eq_ok_true, pure_eq_ok, hpermission _ _ hteam htest.2]
  exact ⟨hmatches, rfl⟩

/-- The search over several teams stops where the other one did, at the latest. -/
theorem searchTeams_of_covers {teams : List TeamId}
    (h : (teams.anyM fun team =>
      other.rights.anyM fun right => right.givesTeam P pool permission team) = .ok true) :
    (teams.anyM fun team =>
      mine.rights.anyM fun right => right.givesTeam P pool permission team) = .ok true := by
  obtain ⟨found, -, hfound⟩ := exists_of_anyM_eq_true h
  obtain ⟨requested, hrequested, hgives⟩ := exists_of_anyM_eq_true hfound
  obtain ⟨covered, hcovered, -⟩ := exists_of_anyM_eq_true hgives
  apply anyM_eq_true_of_imp _ _ h
  · intro team _ hteam
    exact searchTeam_of_covers hwithin hmine hother hcovers hpermission hteam
  · intro team _ hanswers
    obtain ⟨answer, hanswer⟩ := hanswers
    cases answer with
    | true =>
        exact ⟨true, searchTeam_of_covers hwithin hmine hother hcovers hpermission hanswer⟩
    | false =>
        -- the access that gave the found team was asked for this one as well
        have hasked := forall_of_anyM_eq_false
          (forall_of_anyM_eq_false hanswer requested hrequested) covered hcovered
        have htaken : Answers (covered.matchesId P pool team) :=
          Answers.left_of_and ⟨false, hasked⟩
        exact answers_anyM (answers_givesTeam hwithin hmine hother hcovers hrequested hcovered
          htaken permission)

theorem decidesTeams_of_covers (hsuper : mine.superAdmin bypass = false) {teams : List TeamId}
    (h : other.decidesTeams P pool permission bypass tenant teams = .ok true) :
    mine.decidesTeams P pool permission bypass tenant teams = .ok true := by
  have hotherSuper : other.superAdmin bypass = false := by
    by_contra hyes
    simp [superAdmin_of_covers hcovers (by simpa using hyes)] at hsuper
  have hreads : ∀ covering covered : Access, covering.covers pool covered = .ok true →
      covered.canRead = true → covering.canRead = true :=
    fun covering covered hcovered => ((Access.covers_eq_true_iff pool _ _).mp hcovered).2.1
  rw [UserRights.decidesTeams, UserRights.rootOrTenantAdmin_eq_true_iff hotherSuper] at h
  rw [UserRights.decidesTeams]
  cases h with
  | inl hadmin =>
      exact UserRights.rootOrTenantAdmin_of_tenantAdmin
        (tenantAdmin_of_covers hwithin hmine hother hcovers hsuper hadmin)
  | inr h =>
      rw [and_eq_ok_true] at h
      have htenant : mine.canReadTenant P pool bypass tenant = .ok true :=
        decidesTenant_of_covers hwithin hmine hother hcovers hreads hsuper h.2.1
      have hteams := searchTeams_of_covers hwithin hmine hother hcovers hpermission h.2.2
      have hsearch := h.2.1
      rw [UserRights.canReadTenant, UserRights.decidesTenant,
        UserRights.rootOrTenantAdmin_eq_true_iff hotherSuper, h.1] at hsearch
      have hsearch' := (hsearch.resolve_left (by simp)).2
      obtain ⟨requested, hrequested, hanswers⟩ :=
        (searchTenant_of_covers hwithin hmine hother hcovers hreads hsearch').2
      rw [UserRights.rootOrTenantAdmin_eq_true_iff hsuper, and_eq_ok_true]
      cases answers_tenantAdmin hwithin hmine hother hcovers hrequested hanswers hsuper with
      | intro answer hadmin =>
          cases answer with
          | true => exact .inl hadmin
          | false => exact .inr ⟨hadmin, htenant, hteams⟩

end Within

theorem grantsAll_of_covers {M O : Set Str} (hwithin : PatternsWithin P pool M O) {bypass : Bool}
    {mine other : UserRights} (hmine : mine.Over M) (hother : other.Over O)
    (hcovers : mine.covers pool other = .ok true) : mine.GrantsAll P pool bypass other := by
  intro decision h
  have hreads : ∀ covering covered : Access, covering.covers pool covered = .ok true →
      covered.canRead = true → covering.canRead = true :=
    fun covering covered hcovered => ((Access.covers_eq_true_iff pool _ _).mp hcovered).2.1
  have hwrites : ∀ covering covered : Access, covering.covers pool covered = .ok true →
      covered.canReadWrite = true → covering.canReadWrite = true :=
    fun covering covered hcovered => canReadWrite_of_covers hcovered
  cases hsuper : mine.superAdmin bypass with
  | true => exact decides_of_superAdmin hsuper decision
  | false =>
      cases decision with
      | superAdmin =>
          rw [UserRights.decides, pure_eq_ok, Except.ok.injEq] at h
          simp [superAdmin_of_covers hcovers h] at hsuper
      | tenantAdmin tenant =>
          exact tenantAdmin_of_covers hwithin hmine hother hcovers hsuper h
      | canReadTenant tenant =>
          exact decidesTenant_of_covers hwithin hmine hother hcovers hreads hsuper h
      | canWriteTenant tenant =>
          exact decidesTenant_of_covers hwithin hmine hother hcovers hwrites hsuper h
      | canReadTeams tenant teams =>
          exact decidesTeams_of_covers hwithin hmine hother hcovers hreads hsuper h
      | canWriteTeams tenant teams =>
          exact decidesTeams_of_covers hwithin hmine hother hcovers hwrites hsuper h

/-- What the writer of an accepted key may do there, its holder's rights are covered or
the writer is in charge of everything. -/
theorem covers_of_grants {env : Env} {user : BackOfficeUser} {apikey : ApiKey}
    {holder : Option UserRights}
    (haccepted : ApiActionContext.canUserGrantApikeyRights P pool env apikey user = .ok true)
    (hadmin : apikey.isAuthorizedOnAdminApi env = true)
    (hholder : apikey.holder P env = some holder) :
    user.rights.superAdmin env.bypassUserRightsCheck = true ∨
      ∃ rights, holder = some rights ∧ user.rights.covers pool rights = .ok true := by
  cases hbypass : env.bypassUserRightsCheck with
  | true => exact .inl (by rw [UserRights.superAdmin, Bool.true_or])
  | false =>
      rw [ApiKey.isAuthorizedOnAdminApi] at hadmin
      rw [ApiKey.holder, hbypass, if_neg Bool.false_ne_true] at hholder
      rw [ApiActionContext.canUserGrantApikeyRights, hbypass] at haccepted
      cases hraw : apikey.metadata.lookup ApiKey.accessRightsMetadataKey with
      | none =>
          simp only [hraw, hadmin, Bool.not_true, Bool.or_false, pure_eq_ok,
            Except.ok.injEq] at haccepted
          exact .inl haccepted
      | some raw =>
          simp only [hraw, readMetadata] at haccepted hholder
          cases hparse : P.parse raw with
          | none => simp [hparse] at hholder
          | some json =>
              rw [hparse, Option.map_some, Option.some.injEq] at hholder
              simp only [hparse, Option.bind_some, hholder] at haccepted
              cases holder with
              | none => simp at haccepted
              | some rights => exact .inr ⟨rights, rfl, haccepted⟩

/-! ## What is covered has to be granted -/

/-- The rights to read some tenants and teams. -/
def readerOf (pattern : Str) : UserRights :=
  ⟨[⟨⟨pattern, true, false⟩, [⟨pattern, true, false⟩]⟩]⟩

/-- The same rights behind a right that gives nothing and names other teams. -/
def readerBehind (first pattern : Str) : UserRights :=
  ⟨⟨⟨pattern, false, false⟩, [⟨first, false, false⟩]⟩ :: (readerOf pattern).rights⟩

section Readers

variable {first pattern covering covered : Str} {M : Set Str}

theorem over_readerOf (h : pattern ∈ M) : (readerOf pattern).Over M := by
  simpa [UserRights.Over, readerOf] using h

theorem over_readerBehind (hfirst : first ∈ M) (h : pattern ∈ M) :
    (readerBehind first pattern).Over M := by
  simp [UserRights.Over, readerBehind, readerOf, hfirst, h]

theorem covers_readerOf (h : AccessCoverage.coversValue pool covering covered = .ok true) :
    (readerOf covering).covers pool (readerOf covered) = .ok true := by
  have hself : (⟨covering, true, false⟩ : Access).covers pool ⟨covered, true, false⟩ =
      .ok true := by
    simp [Access.covers_eq_true_iff, h]
  simp only [UserRights.covers, readerOf, allM_eq_true_iff, List.mem_singleton, forall_eq,
    anyM_one, and_eq_ok_true, hself, and_self]

theorem covers_readerBehind (h : AccessCoverage.coversValue pool covering covered = .ok true) :
    (readerBehind first covering).covers pool (readerOf covered) = .ok true := by
  have hskipped : (⟨covering, false, false⟩ : Access).covers pool ⟨covered, true, false⟩ =
      .ok false := by
    rw [Access.covers, h]
    rfl
  have hfalse := and_eq_ok_false_of_left (allM (fun team =>
    ([⟨first, false, false⟩] : List TeamAccess).anyM fun access => access.covers pool team)
      [⟨covered, true, false⟩]) hskipped
  have hreader := @covers_readerOf E pool _ _ h
  rw [UserRights.covers] at hreader ⊢
  simp only [readerBehind, readerOf, allM_eq_true_iff, List.mem_singleton,
    forall_eq] at hreader ⊢
  rw [anyM_cons_eq_or, or_of_not_left _ hfalse]
  exact hreader

theorem superAdmin_readerOf : (readerOf pattern).superAdmin false = false := by
  simp [UserRights.superAdmin, readerOf, Access.canReadWrite]

theorem superAdmin_readerBehind : (readerBehind first pattern).superAdmin false = false := by
  simp [UserRights.superAdmin, readerBehind, readerOf, Access.canReadWrite]

theorem tenantAdmin_readerOf_ne {tenant : TenantId} :
    (readerOf pattern).tenantAdmin P pool false tenant ≠ .ok true := by
  intro h
  rw [UserRights.tenantAdmin_of_not_superAdmin superAdmin_readerOf] at h
  obtain ⟨right, hright, hadministrates⟩ := exists_of_anyM_eq_true h
  obtain ⟨-, hwrite, -⟩ := UserRight.administrates_eq_true_iff.mp hadministrates
  simp [List.mem_singleton.mp hright, Access.canReadWrite] at hwrite

theorem tenantAdmin_readerBehind_ne {tenant : TenantId} :
    (readerBehind first pattern).tenantAdmin P pool false tenant ≠ .ok true := by
  intro h
  rw [UserRights.tenantAdmin_of_not_superAdmin superAdmin_readerBehind] at h
  obtain ⟨right, hright, hadministrates⟩ := exists_of_anyM_eq_true h
  obtain ⟨-, hwrite, -⟩ := UserRight.administrates_eq_true_iff.mp hadministrates
  have hrights : right = ⟨⟨pattern, false, false⟩, [⟨first, false, false⟩]⟩ ∨
      right = ⟨⟨pattern, true, false⟩, [⟨pattern, true, false⟩]⟩ := by
    simpa [readerBehind, readerOf] using hright
  rcases hrights with rfl | rfl <;> simp [Access.canReadWrite] at hwrite

theorem tenantAdmin_readerOf {tenant : TenantId}
    (h : Answers (patternMatches P pool pattern tenant)) :
    (readerOf pattern).tenantAdmin P pool false tenant = .ok false := by
  have hanswers : Answers ((readerOf pattern).tenantAdmin P pool false tenant) := by
    rw [UserRights.tenantAdmin_of_not_superAdmin superAdmin_readerOf]
    apply answers_anyM
    intro right hright
    obtain rfl := List.mem_singleton.mp hright
    exact Answers.and h (answers_pure _)
  obtain ⟨answer, hanswer⟩ := hanswers
  cases answer with
  | true => exact absurd hanswer tenantAdmin_readerOf_ne
  | false => exact hanswer

theorem canReadTenant_readerOf {tenant : TenantId}
    (h : patternMatches P pool pattern tenant = .ok true) :
    (readerOf pattern).canReadTenant P pool false tenant = .ok true := by
  apply (UserRights.rootOrTenantAdmin_eq_true_iff superAdmin_readerOf).mpr
  refine .inr ⟨tenantAdmin_readerOf ⟨true, h⟩, ?_⟩
  rw [readerOf, anyM_one, UserRight.givesTenant_eq_true_iff]
  exact ⟨h, rfl⟩

theorem matches_of_canReadTenant_readerOf {tenant : TenantId}
    (h : (readerOf pattern).canReadTenant P pool false tenant = .ok true) :
    patternMatches P pool pattern tenant = .ok true := by
  obtain ⟨right, hright, hgives⟩ :=
    exists_of_decidesTenant superAdmin_readerOf (fun _ => canRead_of_canReadWrite) h
  obtain rfl := List.mem_singleton.mp hright
  exact (UserRight.givesTenant_eq_true_iff.mp hgives).1

/-- Where the engine takes the pattern, the reader gets at some team or at all. -/
theorem canReadTeams_readerOf {team : TeamId} (h : Answers (patternMatches P pool pattern team)) :
    (readerOf pattern).canReadTeams P pool false (AccessId.all P) [team, AccessId.all P] =
      .ok true := by
  apply (UserRights.rootOrTenantAdmin_eq_true_iff superAdmin_readerOf).mpr
  have hall := patternMatches_all P pool pattern
  refine .inr ⟨tenantAdmin_readerOf ⟨true, hall⟩, ?_⟩
  rw [and_eq_ok_true]
  refine ⟨canReadTenant_readerOf hall, ?_⟩
  have hteam : ∀ id, (readerOf pattern).rights.anyM
      (fun right => right.givesTeam P pool Access.canRead id) =
        (patternMatches P pool pattern id <&&> return true) := by
    intro id
    rw [readerOf, anyM_one, UserRight.givesTeam, anyM_one, Access.matchesId]
  rw [anyM_cons_eq_or, anyM_cons_eq_or, hteam, hteam, hall]
  obtain ⟨answer, hanswer⟩ := h
  rw [hanswer]
  cases answer <;> rfl

/-- The right in front is asked for the team first. -/
theorem answers_of_canReadTeams_readerBehind {team : TeamId}
    (h : (readerBehind first pattern).canReadTeams P pool false (AccessId.all P)
      [team, AccessId.all P] = .ok true) : Answers (patternMatches P pool first team) := by
  have hsearch := (UserRights.rootOrTenantAdmin_eq_true_iff superAdmin_readerBehind).mp h
  rw [and_eq_ok_true] at hsearch
  have hteams := (hsearch.resolve_left tenantAdmin_readerBehind_ne).2.2
  have hteam := answers_head_of_anyM ⟨true, hteams⟩
  have hright := answers_head_of_anyM hteam
  exact (answers_head_of_anyM hright).left_of_and

end Readers

variable (P) (pool)

/-- Rights over some patterns never grant more than the rights that cover them, and
accepted keys never let their holders do more than the writer, if and only if what is
covered stands for no more than what covers it. -/
theorem within_iff (M O : Set Str) : GrantsWithin P pool M O ↔ PatternsWithin P pool M O := by
  constructor
  · rintro ⟨hgrants, -⟩ covering hcovering covered hcovered hcovers id
    constructor
    · intro hmatches
      exact matches_of_canReadTenant_readerOf (hgrants false (readerOf covering)
        (readerOf covered) (over_readerOf hcovering) (over_readerOf hcovered)
        (covers_readerOf hcovers) (.canReadTenant id) (canReadTenant_readerOf hmatches))
    · intro hanswers pattern hpattern
      exact answers_of_canReadTeams_readerBehind (hgrants false (readerBehind pattern covering)
        (readerOf covered) (over_readerBehind hpattern hcovering) (over_readerOf hcovered)
        (covers_readerBehind hcovers) (.canReadTeams (AccessId.all P) [id, AccessId.all P])
        (canReadTeams_readerOf hanswers))
  · intro hwithin
    constructor
    · intro bypass mine other hmine hother hcovers
      exact grantsAll_of_covers hwithin hmine hother hcovers
    · intro env user apikey holder huser hover haccepted hadmin hholder decision hdecides
      cases covers_of_grants haccepted hadmin hholder with
      | inl hsuper => exact decides_of_superAdmin hsuper decision
      | inr h =>
          obtain ⟨rights, hrights, hcovers⟩ := h
          subst hrights
          exact grantsAll_of_covers hwithin huser (hover rights rfl) hcovers decision hdecides

/-! ## A requested pattern that stands for two names -/

/-- The engine of alternatives between starred literals. It agrees with the platform's
on the texts made of these. -/
def alternativesEngine : RegexEngine where
  Pattern := List starEngine.Pattern
  compile text := (text.splitOn '|').mapM starEngine.compile
  accepts patterns value := patterns.any fun pattern => starEngine.accepts pattern value

/-- The rights to read and write one tenant and one team, as they are written. -/
def rightsJson (pattern : String) : JsValue :=
  Json.obj [("tenant", .string pattern.toList), ("teams", .array [.string pattern.toList])]

/-- As a name, `a|b` is one of those that start with an a; as a pattern, it also
stands for `b`. -/
theorem exists_covered_pattern_wider :
    ¬ ∀ (P : Platform) (E : RegexEngine) (pool : Pool E) (bypass : Bool)
        (mine other : List JsValue),
        (UserRights.readFromArray P mine).covers pool (UserRights.readFromArray P other) =
          .ok true →
        (UserRights.readFromArray P mine).GrantsAll P pool bypass
          (UserRights.readFromArray P other) := by
  intro h
  have hgrants := h ApiActionContext.asciiPlatform alternativesEngine
    (freshPool alternativesEngine) false [rightsJson "a*"] [rightsJson "a|b"] (by decide)
    (.canWriteTenant (.apply ApiActionContext.asciiPlatform "b".toList)) (by decide)
  revert hgrants
  decide

end Otoroshi.Rights
