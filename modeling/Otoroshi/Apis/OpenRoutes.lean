/-
# Routes that are open to everyone

The validators of an access are called one after the other, until one denies the call. Most
of them only find out who the consumer is. The enforcer denies a call without a consumer, so
a route with it serves no such call.

The enforcer comes with the published plans. `secures_iff` is about the states that the
plans of an api go through: a route is safe as long as one of them is published.
-/

import Mathlib.Algebra.Order.Ring.Unbundled.Rat
import Otoroshi.Apis.Plans
import Otoroshi.Foundation.Sorting

namespace Otoroshi

namespace Apis

/-! ## The access phase -/

inductive NgAccess (Result : Type) where
  | allowed
  | denied (result : Result)
  deriving DecidableEq

/-- The attributes of a call hold its request, and its consumer once it is known. -/
structure AccessEnv (Config Attrs ApiKey Result : Type) where
  path : Attrs → Str
  listener : Attrs → Str
  regexMatches : Str → Str → Bool
  apiKey : Attrs → Option ApiKey
  hasUser : Attrs → Bool
  /-- `ApikeyFromPlan.enforce` -/
  enforce : ApiKey → Attrs → NgAccess Result × Attrs
  unauthorized : Attrs → Result
  /-- The validators of the other plugins. -/
  validator : Str → Option (Config → Attrs → NgAccess Result × Attrs)

section Access

variable {Config Attrs ApiKey Result : Type} (env : AccessEnv Config Attrs ApiKey Result)

abbrev NgAccessValidator (Attrs Result : Type) := Attrs → NgAccess Result × Attrs

/-- `NgApiConsumerEnforcer.access` -/
def enforceConsumer : NgAccessValidator Attrs Result := fun attrs =>
  match env.apiKey attrs with
  | some apikey => env.enforce apikey attrs
  | none =>
      if env.hasUser attrs then (.allowed, attrs) else (.denied (env.unauthorized attrs), attrs)

def enforcerId : Str := pluginId "NgApiConsumerEnforcer"

def NgPluginInstance.getValidator (slot : NgPluginInstance Config) :
    Option (NgAccessValidator Attrs Result) :=
  if slot.plugin = enforcerId then some (enforceConsumer env)
  else (env.validator slot.plugin).map fun access => access slot.config

def NgPluginInstance.matchesRequest (slot : NgPluginInstance Config) (attrs : Attrs) : Bool :=
  if !(slot.included.isEmpty && slot.excluded.isEmpty) then
    let canpass :=
      if slot.included.isEmpty then true
      else slot.included.any fun p => env.regexMatches p (env.path attrs)
    let cannotpass :=
      if slot.excluded.isEmpty then false
      else slot.excluded.any fun p => env.regexMatches p (env.path attrs)
    canpass && !cannotpass
  else
    true

def NgPluginInstance.index (slot : NgPluginInstance Config) : Option Rat :=
  slot.pluginIndex.bind (·.validateAccess)

/-- The slots of a route that apply to a call. -/
def allPlugins (slots : List (NgPluginInstance Config)) (attrs : Attrs) :
    List (NgPluginInstance Config) :=
  slots.filter fun slot => slot.enabled &&
    (slot.boundListeners.isEmpty || slot.boundListeners.contains (env.listener attrs)) &&
    slot.matchesRequest env attrs

def accessValidatorPlugins (slots : List (NgPluginInstance Config)) (attrs : Attrs) :
    List (NgPluginInstance Config × NgAccessValidator Attrs Result) :=
  let pls := (allPlugins env slots attrs).filterMap fun inst =>
    (inst.getValidator env).map fun plugin => (inst, plugin)
  let (plsWithIndex, plsWithoutIndex) := pls.partition fun pl => pl.1.index.isSome
  sortBy (fun pl => pl.1.index.getD 0) plsWithIndex ++ plsWithoutIndex

/-- The validators one after the other. -/
def next : List (NgAccessValidator Attrs Result) → Attrs → NgAccess Result × Attrs
  | [], attrs => (.allowed, attrs)
  | validator :: rest, attrs =>
      match validator attrs with
      | (.denied result, after) => (.denied result, after)
      | (.allowed, after) => next rest after

def callAccessValidatorPlugins (slots : List (NgPluginInstance Config)) (attrs : Attrs) :
    NgAccess Result × Attrs :=
  next ((accessValidatorPlugins env slots attrs).map (·.2)) attrs

/-! ## Calls without a consumer -/

def NoConsumer (attrs : Attrs) : Prop := env.apiKey attrs = none ∧ env.hasUser attrs = false

/-- No validator finds a consumer on the way. -/
def StaysAnonymous : List (NgAccessValidator Attrs Result) → Attrs → Prop
  | [], attrs => NoConsumer env attrs
  | validator :: rest, attrs => NoConsumer env attrs ∧
      match validator attrs with
      | (.denied _, _) => True
      | (.allowed, after) => StaysAnonymous rest after

/-- A call that has no consumer is let through to the backend. -/
def Open (slots : List (NgPluginInstance Config)) : Prop :=
  ∃ attrs, StaysAnonymous env ((accessValidatorPlugins env slots attrs).map (·.2)) attrs ∧
    (callAccessValidatorPlugins env slots attrs).1 = .allowed

/-- The slot is there for every call. -/
structure NgPluginInstance.IsActive (slot : NgPluginInstance Config) : Prop where
  enabled : slot.enabled = true
  included : slot.included = []
  excluded : slot.excluded = []
  boundListeners : slot.boundListeners = []

theorem mem_accessValidatorPlugins {slots : List (NgPluginInstance Config)}
    {slot : NgPluginInstance Config} {validator : NgAccessValidator Attrs Result}
    (hslot : slot ∈ slots) (hactive : slot.IsActive)
    (hvalidator : slot.getValidator env = some validator) (attrs : Attrs) :
    (slot, validator) ∈ accessValidatorPlugins env slots attrs := by
  have hall : slot ∈ allPlugins env slots attrs := by
    apply List.mem_filter.mpr
    simp [hslot, hactive.enabled, hactive.boundListeners, NgPluginInstance.matchesRequest,
      hactive.included, hactive.excluded]
  have hpls : (slot, validator) ∈ (allPlugins env slots attrs).filterMap fun inst =>
      (inst.getValidator env).map fun plugin => (inst, plugin) :=
    List.mem_filterMap.mpr ⟨slot, hall, by rw [hvalidator]; rfl⟩
  rw [accessValidatorPlugins, List.partition_eq_filter_filter, List.mem_append, mem_sortBy]
  cases hindex : slot.index.isSome
  · exact Or.inr (List.mem_filter.mpr ⟨hpls, by simp [hindex]⟩)
  · exact Or.inl (List.mem_filter.mpr ⟨hpls, hindex⟩)

/-- The enforcer ends an access without a consumer, wherever it stands. -/
theorem next_ne_allowed {validators : List (NgAccessValidator Attrs Result)} {attrs : Attrs}
    (henforcer : enforceConsumer env ∈ validators)
    (hanonymous : StaysAnonymous env validators attrs) : (next validators attrs).1 ≠ .allowed := by
  induction validators generalizing attrs with
  | nil => exact absurd henforcer List.not_mem_nil
  | cons validator rest ih =>
      obtain ⟨hnone, hafter⟩ := hanonymous
      rcases List.mem_cons.mp henforcer with rfl | hrest
      · simp [next, enforceConsumer, hnone.1, hnone.2]
      · rw [next]
        generalize validator attrs = answer at hafter ⊢
        match answer with
        | (.denied result, after) => exact fun h => nomatch h
        | (.allowed, after) => exact ih hrest hafter

theorem not_open_of_enforcer {slots : List (NgPluginInstance Config)}
    {slot : NgPluginInstance Config} (hslot : slot ∈ slots) (hactive : slot.IsActive)
    (hplugin : slot.plugin = enforcerId) : ¬ Open env slots := by
  rintro ⟨attrs, hanonymous, hallowed⟩
  have hvalidator : slot.getValidator env = some (enforceConsumer env) := if_pos hplugin
  have hmem : enforceConsumer env ∈ (accessValidatorPlugins env slots attrs).map (·.2) :=
    List.mem_map.mpr ⟨_, mem_accessValidatorPlugins env hslot hactive hvalidator attrs, rfl⟩
  exact next_ne_allowed env hmem hanonymous hallowed

end Access

/-! ## Safe routes -/

section Safety

variable {Config Target Client Attrs ApiKey Result : Type} [DecidableEq Config]
  (env : ApiEnv Config Target Client) (access : AccessEnv Config Attrs ApiKey Result)
  (format : ConfigFormat Config)

/-- The plugin runs for every call. -/
def Runs (slots : List (NgPluginInstance Config)) (plugin : PluginWithConfig Config) : Prop :=
  ∃ slot ∈ slots,
    slot.IsActive ∧ slot.plugin = plugin.pluginId ∧ slot.config = plugin.config

/-- The slots turn away a call without a consumer, and extract what some plan of the api asks
for, be it a keyless one. -/
structure Guarded (api : PlannedApi Config Target Client)
    (slots : List (NgPluginInstance Config)) : Prop where
  enforces : ∃ slot ∈ slots, slot.IsActive ∧ slot.plugin = enforcerId
  extracts : ∃ plan ∈ api.plans, ∀ plugin ∈ pluginsForPlan format plan api.id, Runs slots plugin

namespace PlannedApi

variable (this : PlannedApi Config Target Client)

def AsksForCredentials : Prop := ∃ plan ∈ this.plans, ¬ plan.IsKeyless

/-- Every route of the api is guarded and serves no call without a consumer. -/
def Secures : Prop :=
  ∀ source ∈ this.allRoutes env,
    Guarded format source.api (applyPlansPolicies format source).plugins.slots ∧
      ¬ Open access (applyPlansPolicies format source).plugins.slots

/-- Every route is made from an api with a published plan, or its flow guards it. -/
def Meets : Prop :=
  ∀ source ∈ this.allRoutes env,
    (∃ plan ∈ source.api.plans, plan.IsPublished) ∨
      Guarded format source.api source.route.plugins.slots

/-- The plans of an id go to another state. -/
def setStatus (planId status : Str) : PlannedApi Config Target Client :=
  { this with plans := this.plans.map fun plan =>
      if plan.id = planId then { plan with rawStatus := some status } else plan }

/-- The api before and after each of the changes. -/
def reached (changes : List (Str × Str)) : List (PlannedApi Config Target Client) :=
  changes.scanl (fun api change => api.setStatus change.1 change.2) this

end PlannedApi

omit [DecidableEq Config] in
theorem isActive_toInstance (plugin : PluginWithConfig Config) : plugin.toInstance.IsActive :=
  ⟨rfl, rfl, rfl, rfl⟩

variable {format}

omit [DecidableEq Config] in
theorem Guarded.mono {api : PlannedApi Config Target Client}
    {slots more : List (NgPluginInstance Config)} (h : Guarded format api slots)
    (hsub : slots ⊆ more) : Guarded format api more where
  enforces :=
    have ⟨slot, hslot, henforcer⟩ := h.enforces
    ⟨slot, hsub hslot, henforcer⟩
  extracts :=
    have ⟨plan, hplan, hruns⟩ := h.extracts
    ⟨plan, hplan, fun plugin hplugin =>
      have ⟨slot, hslot, hslotRuns⟩ := hruns plugin hplugin
      ⟨slot, hsub hslot, hslotRuns⟩⟩

variable (format)

theorem guarded_of_published {source : RouteWithApi Config Target Client} {plan : ApiPlan}
    (hplan : plan ∈ source.api.plans) (hpublished : plan.IsPublished) :
    Guarded format source.api (applyPlansPolicies format source).plugins.slots := by
  have hmem : plan ∈ publishedPlans source.api.plans :=
    List.mem_filter.mpr ⟨hplan, decide_eq_true hpublished⟩
  have hadded : ∀ p ∈ addedPlugins format source.api,
      p.toInstance ∈ (applyPlansPolicies format source).plugins.slots := by
    intro p hp
    rw [slots_applyPlansPolicies]
    exact List.mem_append_right _ (List.mem_map_of_mem hp)
  constructor
  · have henforcer := consumerPlugins_subset format (List.ne_nil_of_mem hmem) List.mem_cons_self
    exact ⟨_, hadded _ henforcer, isActive_toInstance _, rfl⟩
  · refine ⟨plan, hplan, fun plugin hplugin => ?_⟩
    obtain ⟨p, hp, hsame⟩ := exists_added_of_published format hmem hplugin
    exact ⟨p.toInstance, hadded p hp, isActive_toInstance p, hsame⟩

theorem guarded_iff (source : RouteWithApi Config Target Client) :
    Guarded format source.api (applyPlansPolicies format source).plugins.slots ↔
      (∃ plan ∈ source.api.plans, plan.IsPublished) ∨
        Guarded format source.api source.route.plugins.slots := by
  constructor
  · intro hguarded
    by_cases hpublished : ∃ plan ∈ source.api.plans, plan.IsPublished
    · exact Or.inl hpublished
    · have hnil : publishedPlans source.api.plans = [] := by
        apply List.filter_eq_nil_iff.mpr
        intro plan hplan hdecide
        exact hpublished ⟨plan, hplan, of_decide_eq_true hdecide⟩
      rw [slots_applyPlansPolicies, addedPlugins_eq_nil format hnil, List.map_nil,
        List.append_nil] at hguarded
      exact Or.inr hguarded
  · rintro (⟨plan, hplan, hpublished⟩ | hflow)
    · exact guarded_of_published format hplan hpublished
    · apply hflow.mono
      rw [slots_applyPlansPolicies]
      exact List.subset_append_left _ _

omit [DecidableEq Config] in
theorem Guarded.not_open {api : PlannedApi Config Target Client}
    {slots : List (NgPluginInstance Config)} (h : Guarded format api slots) :
    ¬ Open access slots := by
  obtain ⟨slot, hslot, hactive, hplugin⟩ := h.enforces
  exact not_open_of_enforcer access hslot hactive hplugin

theorem secures_iff_meets (this : PlannedApi Config Target Client) :
    this.Secures env access format ↔ this.Meets env format := by
  constructor
  · intro hsecures source hsource
    exact (guarded_iff format source).mp (hsecures source hsource).1
  · intro hmeets source hsource
    have hguarded := (guarded_iff format source).mpr (hmeets source hsource)
    exact ⟨hguarded, hguarded.not_open access format⟩

/-- Whatever states the plans go through, an api that asks for credentials is safe as long as
each of its routes is made from an api with a published plan. -/
theorem secures_iff (this : PlannedApi Config Target Client) (changes : List (Str × Str)) :
    (∀ api ∈ this.reached changes, api.AsksForCredentials → api.Secures env access format) ↔
      ∀ api ∈ this.reached changes, api.AsksForCredentials → api.Meets env format := by
  apply forall₂_congr
  intro api _
  rw [secures_iff_meets]

end Safety

/-! ## The last published plan is closed -/

def textFormat : ConfigFormat Str where
  empty := []
  apikeyCalls _ := "apikey calls".toList
  jwt config := config.clientIdPrefix
  expression config := config.clientIdPrefix
  clientCert config := config.clientIdPrefix
  oidc config := config.clientIdPrefix

/-- A route without plugins of its own. -/
def keyApi : PlannedApi Str Str Unit where
  id := "api".toList
  domain := "api.oto.tools".toList
  contextPath := []
  version := "1".toList
  state := .published
  testing := { headerValue := "secret".toList }
  routes := [{ id := "route".toList, frontend := { domains := [⟨"/".toList⟩] }
               flowRef := "flow".toList, backend := "backend".toList }]
  backends := [{ id := "backend".toList, client := []
                 backend := { targets := ["target".toList], client := () } }]
  plans := [{ id := "plan".toList, rawAccessModeConfigurationType := some "apikey".toList
              rateLimiting := none, apikeyTemplate := .null }]

def noDrafts : ApiEnv Str Str Unit where
  backends _ := none
  drafts _ := none
  readApi _ := .error .jsResult
  defaultClient := ()

/-- A call is the apikey that comes with it, if any. -/
def keyAccess : AccessEnv Str (Option Str) Str Unit where
  path _ := "/".toList
  listener _ := []
  regexMatches _ _ := false
  apiKey := id
  hasUser _ := false
  enforce _ attrs := (.allowed, attrs)
  unauthorized _ := ()
  validator _ := none

theorem open_nil : Open keyAccess [] := by
  have hnone : accessValidatorPlugins keyAccess [] none = [] := by
    simp [accessValidatorPlugins, allPlugins, sortBy, sortWith]
  refine ⟨none, ?_, ?_⟩
  · rw [hnone]
    exact ⟨rfl, rfl⟩
  · rw [callAccessValidatorPlugins, hnone]
    rfl

example : (keyApi.toRoutes textFormat noDrafts).map (fun route =>
    route.plugins.slots.map (·.plugin)) =
      [[pluginId "ApikeyCalls", enforcerId, pluginId "SendOtoroshiHeadersBack"]] := rfl

/-- The consumers of the plan lose their access by its end, and everyone else gets one. -/
theorem exists_open :
    ¬ ∀ (this : PlannedApi Str Str Unit) (changes : List (Str × Str)),
      ∀ api ∈ this.reached changes, api.AsksForCredentials →
        api.Secures noDrafts keyAccess textFormat := by
  intro hclaim
  have hsecures := hclaim keyApi [("plan".toList, "closed".toList)] _
    (List.mem_cons_of_mem _ List.mem_cons_self)
    ⟨_, List.mem_cons_self, by decide⟩
  exact (hsecures _ List.mem_cons_self).2 open_nil

end Apis

end Otoroshi
