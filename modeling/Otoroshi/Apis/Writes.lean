/-
# Writes of an api

An api that is published or deprecated is locked: a write may not change what it exposes,
and may only move it to some of the other states. A catalog writes apis as code. Each of its
writes is a deploy, and one that changes what is live is recorded in the api.

`locked_of_accepted` is about any run of other writes. `recorded_of_deployed` is about any
run of a catalog.
-/

import Mathlib.Data.List.Chain
import Otoroshi.Foundation.Json

namespace Otoroshi

namespace Apis

/-! ## Apis -/

inductive ApiState
  | staging
  | published
  | deprecated
  | removed
  deriving DecidableEq

def ApiState.name : ApiState → Str
  | staging => "staging".toList
  | published => "published".toList
  | deprecated => "deprecated".toList
  | removed => "removed".toList

structure ApiTesting where
  enabled : Bool := false
  headerKey : Str := "X-OTOROSHI-TESTING".toList
  headerValue : Str
  deriving DecidableEq

/-- The design of an api, as it went to production at an instant. -/
structure ApiDeployment where
  id : Str
  apiRef : Str
  owner : Str
  instant : Int
  apiDefinition : JsValue
  version : Str

/-- An api, with its routes, backends, flows and documentation. -/
structure Api (Route Backend Flow Documentation : Type) where
  id : Str
  domain : Str
  contextPath : Str
  metadata : AList fun _ : Str => Str := ∅
  version : Str
  state : ApiState
  routes : List Route := []
  backends : List Backend := []
  flows : List Flow := []
  documentation : Option Documentation := none
  deployments : List ApiDeployment := []
  testing : ApiTesting

/-- How the design of an api is written. -/
structure DesignFormat (Route Backend Flow Documentation : Type) where
  route : Route → JsValue
  backend : Backend → JsValue
  flow : Flow → JsValue
  documentation : Documentation → JsValue

variable {Route Backend Flow Documentation : Type} [DecidableEq Route] [DecidableEq Backend]
  [DecidableEq Flow] [DecidableEq Documentation]

/-! ## Checks of a write -/

def isValidStateTransition : ApiState → ApiState → Bool → Bool
  | .staging, .staging, _ => true
  | .staging, .published, viaDeploy => viaDeploy
  | .staging, _, _ => false
  | .published, .published, _ => true
  | .published, .deprecated, _ => true
  | .published, .removed, _ => true
  | .published, _, _ => false
  | .deprecated, .published, _ => true
  | .deprecated, .deprecated, _ => true
  | .deprecated, .removed, _ => true
  | .deprecated, _, _ => false
  | .removed, .staging, _ => true
  | .removed, .removed, _ => true
  | .removed, _, _ => false

def transitionError (before after : ApiState) : JsValue :=
  Json.obj [
    ("error", .string "invalid_state_transition".toList),
    ("error_description", .string ("transition from '".toList ++ before.name ++ "' to '".toList ++
      after.name ++ "' is not allowed".toList)),
    ("from", .string before.name),
    ("to", .string after.name),
    ("http_status_code", Json.int 400)]

section Checks

variable (format : DesignFormat Route Backend Flow Documentation)
  (entity : Api Route Backend Flow Documentation)

/-- The protected fields that differ. -/
def diffProtectedFields (oldApi newApi : Api Route Backend Flow Documentation) : List Str :=
  [("domain".toList, decide (oldApi.domain ≠ newApi.domain)),
    ("contextPath".toList, decide (oldApi.contextPath ≠ newApi.contextPath)),
    ("routes".toList, decide (oldApi.routes ≠ newApi.routes)),
    ("backends".toList, decide (oldApi.backends ≠ newApi.backends)),
    ("flows".toList, decide (oldApi.flows ≠ newApi.flows)),
    ("documentation".toList, decide (oldApi.documentation ≠ newApi.documentation)),
    ("testing".toList, decide (oldApi.testing ≠ newApi.testing))].filterMap
      fun diff => if diff.2 then some diff.1 else none

/-- What is recorded of an api. -/
def deploymentDefinition (api : Api Route Backend Flow Documentation) : JsValue :=
  Json.obj [
    ("routes", .array (api.routes.map format.route)),
    ("backends", .array (api.backends.map format.backend)),
    ("flows", .array (api.flows.map format.flow)),
    ("documentation", (api.documentation.map format.documentation).getD .null)]

/-- A catalog leaves its mark in what it writes. -/
def isWrittenByCatalog (api : Api Route Backend Flow Documentation) : Bool :=
  match api.metadata.lookup "created_by".toList with
  | some createdBy => startsWith createdBy "remote_catalog=".toList
  | none => false

def isLive (state : ApiState) : Bool := state = .published ∨ state = .deprecated

/-- The deployment of an api as it is. -/
def deploymentOf (id : Str) (now : Int) (api : Api Route Backend Flow Documentation) :
    ApiDeployment where
  id
  apiRef := api.id
  owner := (api.metadata.lookup "created_by".toList).getD []
  instant := now
  apiDefinition := deploymentDefinition format api
  version := api.version

/-- The last five deployments are kept. -/
def withDeployment (id : Str) (now : Int) (api : Api Route Backend Flow Documentation) :
    Api Route Backend Flow Documentation :=
  { api with deployments := (deploymentOf format id now api :: api.deployments).take 5 }

/-- What a catalog wants to write, with what its source does not carry. -/
def fromCatalog (old : Option (Api Route Backend Flow Documentation)) :
    Api Route Backend Flow Documentation :=
  match old with
  | none => { entity with deployments := [] }
  | some old => { entity with
      deployments := old.deployments
      testing := { entity.testing with headerValue := old.testing.headerValue } }

/-- The write changes what is live. -/
def isDeployed (old : Option (Api Route Backend Flow Documentation)) : Bool :=
  match old with
  | none => isLive entity.state
  | some old => isLive entity.state &&
      (!isLive old.state || !(diffProtectedFields old (fromCatalog entity (some old))).isEmpty)

/-- `id` and `now` are those of a deployment that is recorded. -/
def catalogDeploy (id : Str) (now : Int) (old : Option (Api Route Backend Flow Documentation)) :
    Except JsValue (Api Route Backend Flow Documentation) :=
  let api := fromCatalog entity old
  let written := if isDeployed entity old then withDeployment format id now api else api
  match old with
  | none => .ok written
  | some old =>
      if isValidStateTransition old.state entity.state true then .ok written
      else .error (transitionError old.state entity.state)

/-- The checks of a write. -/
def writeChecker (id : Str) (now : Int)
    (oldEntity : Option (Api Route Backend Flow Documentation)) :
    Except JsValue (Api Route Backend Flow Documentation) :=
  if isWrittenByCatalog entity then catalogDeploy format entity id now oldEntity
  else
    match oldEntity with
    | none =>
        if entity.state ≠ .staging then
          .error (Json.obj [
            ("error", .string "cannot_create_in_state".toList),
            ("error_description", .string ("new API must be created in 'staging' state, got '".toList
              ++ entity.state.name ++ "'".toList)),
            ("state", .string entity.state.name),
            ("http_status_code", Json.int 400)])
        else .ok entity
    | some oldApi =>
        let fields := diffProtectedFields oldApi entity
        if !isValidStateTransition oldApi.state entity.state false then
          .error (transitionError oldApi.state entity.state)
        else if oldApi.state ≠ .staging ∧ fields ≠ [] then
          .error (Json.obj [
            ("error", .string "production_readonly".toList),
            ("error_description", .string ("fields [".toList ++ List.intercalate ", ".toList fields
              ++ "] are read-only in '".toList ++ oldApi.state.name
              ++ "' state; edit them via Draft and deploy".toList)),
            ("fields", .array (fields.map .string)),
            ("http_status_code", Json.int 400)])
        else .ok entity

end Checks

/-! ## Writes of everybody else -/

/-- The two apis expose the same. -/
structure SameProtected (oldApi newApi : Api Route Backend Flow Documentation) : Prop where
  domain : oldApi.domain = newApi.domain
  contextPath : oldApi.contextPath = newApi.contextPath
  routes : oldApi.routes = newApi.routes
  backends : oldApi.backends = newApi.backends
  flows : oldApi.flows = newApi.flows
  documentation : oldApi.documentation = newApi.documentation
  testing : oldApi.testing = newApi.testing

omit [DecidableEq Route] [DecidableEq Backend] [DecidableEq Flow] [DecidableEq Documentation] in
theorem SameProtected.refl (api : Api Route Backend Flow Documentation) : SameProtected api api :=
  ⟨rfl, rfl, rfl, rfl, rfl, rfl, rfl⟩

omit [DecidableEq Route] [DecidableEq Backend] [DecidableEq Flow] [DecidableEq Documentation] in
theorem SameProtected.trans {first second third : Api Route Backend Flow Documentation}
    (h : SameProtected first second) (h' : SameProtected second third) :
    SameProtected first third :=
  ⟨h.domain.trans h'.domain, h.contextPath.trans h'.contextPath, h.routes.trans h'.routes,
    h.backends.trans h'.backends, h.flows.trans h'.flows,
    h.documentation.trans h'.documentation, h.testing.trans h'.testing⟩

theorem diffProtectedFields_eq_nil_iff {oldApi newApi : Api Route Backend Flow Documentation} :
    diffProtectedFields oldApi newApi = [] ↔ SameProtected oldApi newApi := by
  rw [diffProtectedFields, List.filterMap_eq_nil_iff]
  constructor
  · intro h
    constructor <;> by_contra hne <;> simp [hne] at h
  · intro h
    simp [h.domain, h.contextPath, h.routes, h.backends, h.flows, h.documentation, h.testing]

section Locked

variable (format : DesignFormat Route Backend Flow Documentation)

/-- The api became another one by a write that no catalog made. -/
def Accepts (old new : Api Route Backend Flow Documentation) : Prop :=
  ∃ entity id now, isWrittenByCatalog entity = false ∧
    writeChecker format entity id now (some old) = .ok new

variable {format} {old new : Api Route Backend Flow Documentation}

/-- What an accepted write does. -/
theorem Accepts.spec (h : Accepts format old new) :
    isValidStateTransition old.state new.state false = true ∧
      (old.state ≠ .staging → SameProtected old new) := by
  obtain ⟨entity, id, now, hcatalog, hwrite⟩ := h
  simp only [writeChecker, hcatalog, Bool.false_eq_true, if_false] at hwrite
  split_ifs at hwrite with htransition hlocked
  cases hwrite
  constructor
  · simpa using htransition
  · intro hstate
    rw [← diffProtectedFields_eq_nil_iff]
    by_contra hfields
    exact hlocked ⟨hstate, hfields⟩

theorem ne_staging_of_isLive {state : ApiState} (h : isLive state = true) : state ≠ .staging := by
  rintro rfl
  cases h

/-- Only what was live is live after a write. -/
theorem Accepts.isLive_of_isLive (h : Accepts format old new) (hlive : isLive new.state = true) :
    isLive old.state = true := by
  have htransition := h.spec.1
  revert htransition hlive
  generalize old.state = before
  generalize new.state = after
  cases before <;> cases after <;> decide

theorem Accepts.same_of_isLive (h : Accepts format old new) (hlive : isLive old.state = true) :
    SameProtected old new :=
  h.spec.2 (ne_staging_of_isLive hlive)

theorem isLive_of_isChain {apis : List (Api Route Backend Flow Documentation)}
    (h : (old :: apis).IsChain (Accepts format)) (hnew : new ∈ apis)
    (hlive : isLive new.state = true) : isLive old.state = true := by
  induction apis generalizing old with
  | nil => cases hnew
  | cons api rest ih =>
      rw [List.isChain_cons_cons] at h
      apply h.1.isLive_of_isLive
      cases List.mem_cons.mp hnew with
      | inl heq => exact heq ▸ hlive
      | inr hrest => exact ih h.2 hrest

/-- From one live api to another one, and to the next one after it. -/
theorem same_of_isChain {first second : Api Route Backend Flow Documentation}
    {middle after : List (Api Route Backend Flow Documentation)}
    (h : (first :: (middle ++ second :: after)).IsChain (Accepts format))
    (hfirst : isLive first.state = true) (hsecond : isLive second.state = true) :
    ∀ api ∈ middle ++ second :: after.take 1, SameProtected first api := by
  induction middle generalizing first with
  | nil =>
      rw [List.nil_append, List.isChain_cons_cons] at h
      have hsame := h.1.same_of_isLive hfirst
      intro api hapi
      cases List.mem_cons.mp hapi with
      | inl heq => exact heq ▸ hsame
      | inr hnext =>
          cases after with
          | nil => cases hnext
          | cons next rest =>
              rw [List.mem_singleton.mp hnext]
              exact hsame.trans ((List.isChain_cons_cons.mp h.2).1.same_of_isLive hsecond)
  | cons middle rest ih =>
      rw [List.cons_append, List.isChain_cons_cons] at h
      have hsame := h.1.same_of_isLive hfirst
      have hmiddle : isLive middle.state = true :=
        isLive_of_isChain h.2 (List.mem_append_right _ List.mem_cons_self) hsecond
      intro api hapi
      cases List.mem_cons.mp hapi with
      | inl heq => exact heq ▸ hsame
      | inr hrest => exact hsame.trans (ih h.2 hmiddle api hrest)

/-- In any run of accepted writes, every write moves the api along a transition of the table,
and between two writes of a live api, and by these writes, what it exposes stays the same. -/
theorem locked_of_accepted {apis : List (Api Route Backend Flow Documentation)}
    (h : apis.IsChain (Accepts format)) :
    apis.IsChain (fun old new => isValidStateTransition old.state new.state false = true) ∧
      ∀ before first middle second after, apis = before ++ first :: (middle ++ second :: after) →
        isLive first.state = true → isLive second.state = true →
          ∀ api ∈ middle ++ second :: after.take 1, SameProtected first api := by
  constructor
  · exact h.imp fun old new haccepts => haccepts.spec.1
  · rintro before first middle second after rfl hfirst hsecond
    exact same_of_isChain (List.isChain_append.mp h).2.1 hfirst hsecond

/-- An api without a design. -/
def plainApi (state : ApiState) (createdBy : String) : Api Unit Unit Unit Unit where
  id := "api".toList
  domain := "api.oto.tools".toList
  contextPath := "/".toList
  metadata := AList.insert "created_by".toList createdBy.toList ∅
  version := "0.0.1".toList
  state
  testing := { headerValue := "secret".toList }

def plainFormat : DesignFormat Unit Unit Unit Unit where
  route _ := .null
  backend _ := .null
  flow _ := .null
  documentation _ := .null

/-- A published api is deprecated and published again. -/
theorem locked_of_accepted_example :
    SameProtected (plainApi .published "admin") (plainApi .deprecated "admin") := by
  have hchain : [plainApi .published "admin", plainApi .deprecated "admin",
      plainApi .published "admin"].IsChain (Accepts plainFormat) := by
    constructor
    · use plainApi .deprecated "admin", [], 0
      exact ⟨rfl, rfl⟩
    · constructor
      · use plainApi .published "admin", [], 0
        exact ⟨rfl, rfl⟩
      · exact .singleton _
  exact (locked_of_accepted hchain).2 [] _ [_] _ [] rfl rfl rfl _ List.mem_cons_self

end Locked

/-! ## Writes of a catalog -/

section Deployed

variable (format : DesignFormat Route Backend Flow Documentation)

/-- A catalog has written the api, with all deployments that were recorded since the start,
the last one first. -/
inductive Deployed (start : Option (Api Route Backend Flow Documentation)) :
    Option (Api Route Backend Flow Documentation) → List ApiDeployment → Prop
  | start : Deployed start start []
  | deploy {old : Option (Api Route Backend Flow Documentation)} {log : List ApiDeployment}
      (entity : Api Route Backend Flow Documentation) (id : Str) (now : Int)
      {api : Api Route Backend Flow Documentation} (before : Deployed start old log)
      (accepted : catalogDeploy format entity id now old = .ok api) :
      Deployed start (some api)
        (if isDeployed entity old then deploymentOf format id now (fromCatalog entity old) :: log
          else log)

variable {format} {start old : Option (Api Route Backend Flow Documentation)}
  {entity api : Api Route Backend Flow Documentation} {log : List ApiDeployment} {id : Str}
  {now : Int}

/-- What an accepted write of a catalog does. -/
theorem eq_of_catalogDeploy (h : catalogDeploy format entity id now old = .ok api) :
    api = if isDeployed entity old then withDeployment format id now (fromCatalog entity old)
      else fromCatalog entity old := by
  cases old with
  | none => exact (Except.ok.inj h).symm
  | some old =>
      simp only [catalogDeploy] at h
      split at h
      · exact (Except.ok.inj h).symm
      · cases h

omit [DecidableEq Route] [DecidableEq Backend] [DecidableEq Flow] [DecidableEq Documentation] in
theorem state_fromCatalog : (fromCatalog entity old).state = entity.state := by
  cases old <;> rfl

omit [DecidableEq Route] [DecidableEq Backend] [DecidableEq Flow] [DecidableEq Documentation] in
theorem deployments_fromCatalog :
    (fromCatalog entity old).deployments = (old.map Api.deployments).getD [] := by
  cases old <;> rfl

omit [DecidableEq Route] [DecidableEq Backend] [DecidableEq Flow] [DecidableEq Documentation] in
theorem SameProtected.deploymentDefinition_eq
    {oldApi newApi : Api Route Backend Flow Documentation} (h : SameProtected oldApi newApi) :
    deploymentDefinition format oldApi = deploymentDefinition format newApi := by
  rw [deploymentDefinition, deploymentDefinition, h.routes, h.backends, h.flows, h.documentation]

/-- A live api that is written without a deployment was live, and exposes the same. -/
theorem same_of_not_deployed (hnot : isDeployed entity old = false)
    (hlive : isLive entity.state = true) :
    ∃ oldApi, old = some oldApi ∧ isLive oldApi.state = true ∧
      SameProtected oldApi (fromCatalog entity old) := by
  cases old with
  | none =>
      rw [isDeployed, hlive] at hnot
      cases hnot
  | some oldApi =>
      use oldApi
      simp only [isDeployed, hlive, Bool.true_and, Bool.or_eq_false_iff, Bool.not_eq_false',
        List.isEmpty_iff, diffProtectedFields_eq_nil_iff] at hnot
      exact ⟨rfl, hnot⟩

/-- What a run of a catalog keeps: the history, and that a live api is as it was recorded or,
if nothing was, as it was at the start. -/
structure Recorded (format : DesignFormat Route Backend Flow Documentation)
    (start state : Option (Api Route Backend Flow Documentation)) (log : List ApiDeployment) :
    Prop where
  history : (state.map Api.deployments).getD [] = log.take 5
  definition : ∀ api, state = some api → isLive api.state = true →
    (∃ deployment ∈ log.head?, deployment.apiDefinition = deploymentDefinition format api) ∨
      log = [] ∧ ∃ first, start = some first ∧ isLive first.state = true ∧
        SameProtected first api

omit [DecidableEq Route] [DecidableEq Backend] [DecidableEq Flow] [DecidableEq Documentation] in
theorem recorded_start (h : ∀ first, start = some first → first.deployments = []) :
    Recorded format start start [] := by
  constructor
  · cases start with
    | none => rfl
    | some first => exact h first rfl
  · intro api hapi hlive
    exact .inr ⟨rfl, api, hapi, hlive, .refl api⟩

theorem Recorded.deploy (h : Recorded format start old log)
    (haccepted : catalogDeploy format entity id now old = .ok api) :
    Recorded format start (some api)
      (if isDeployed entity old then deploymentOf format id now (fromCatalog entity old) :: log
        else log) := by
  rw [eq_of_catalogDeploy haccepted]
  cases hdeployed : isDeployed entity old with
  | true =>
      simp only [if_true]
      constructor
      · change (_ :: (fromCatalog entity old).deployments).take 5 = _
        rw [deployments_fromCatalog, h.history, List.take_succ_cons, List.take_succ_cons,
          List.take_take]
        rfl
      · rintro written ⟨⟩ -
        left
        use deploymentOf format id now (fromCatalog entity old)
        exact ⟨rfl, rfl⟩
  | false =>
      simp only [Bool.false_eq_true, if_false]
      constructor
      · change (fromCatalog entity old).deployments = _
        rw [deployments_fromCatalog, h.history]
      · rintro written ⟨⟩ hlive
        rw [state_fromCatalog] at hlive
        obtain ⟨oldApi, hold, holdLive, hsame⟩ := same_of_not_deployed hdeployed hlive
        cases h.definition oldApi hold holdLive with
        | inl hrecorded =>
            obtain ⟨deployment, hhead, hdefinition⟩ := hrecorded
            left
            use deployment
            exact ⟨hhead, hdefinition.trans hsame.deploymentDefinition_eq⟩
        | inr hstart =>
            obtain ⟨hlog, first, hfirst, hfirstLive, hfirstSame⟩ := hstart
            exact .inr ⟨hlog, first, hfirst, hfirstLive, hfirstSame.trans hsame⟩

theorem recorded_of_run (hstart : ∀ first, start = some first → first.deployments = [])
    (h : Deployed format start old log) : Recorded format start old log := by
  induction h with
  | start => exact recorded_start hstart
  | deploy entity id now before accepted ih => exact ih.deploy accepted

/-- In any run of a catalog, the last five deployments are kept in order; what is live is what
was recorded last or, if nothing was, what was live at the start; and writing the same again
records nothing. -/
theorem recorded_of_deployed (hstart : ∀ first, start = some first → first.deployments = [])
    (h : Deployed format start (some api) log) :
    api.deployments = log.take 5 ∧
      (isLive api.state = true →
        (∃ deployment ∈ api.deployments.head?,
          deployment.apiDefinition = deploymentDefinition format api) ∨
        log = [] ∧ ∃ first, start = some first ∧ isLive first.state = true ∧
          SameProtected first api) ∧
      ∀ entity id now again, catalogDeploy format entity id now (some api) = .ok again →
        entity.state = api.state → SameProtected api (fromCatalog entity (some api)) →
          again.deployments = api.deployments := by
  have hrecorded := recorded_of_run hstart h
  have hhistory : api.deployments = log.take 5 := hrecorded.history
  constructor
  · exact hhistory
  constructor
  · intro hlive
    rw [hhistory, List.head?_take, if_neg (by decide)]
    exact hrecorded.definition api rfl hlive
  · intro entity id now again hagain hstate hsame
    have hnot : isDeployed entity (some api) = false := by
      rw [isDeployed, diffProtectedFields_eq_nil_iff.mpr hsame, hstate]
      cases isLive api.state <;> rfl
    rw [eq_of_catalogDeploy hagain, hnot]
    rfl

/-- A catalog creates a published api. -/
theorem recorded_of_deployed_example :
    ∃ deployment ∈ (withDeployment plainFormat [] 0
        (plainApi .published "remote_catalog=1")).deployments.head?,
      deployment.apiDefinition =
        deploymentDefinition plainFormat (plainApi .published "remote_catalog=1") := by
  have hdeployed := Deployed.deploy (plainApi .published "remote_catalog=1") [] 0
    (Deployed.start : Deployed plainFormat none none []) rfl
  have hrecorded := (recorded_of_deployed (fun first hfirst => by cases hfirst) hdeployed).2.1 rfl
  cases hrecorded with
  | inl hlast => exact hlast
  | inr hstart =>
      obtain ⟨-, first, hfirst, -⟩ := hstart
      cases hfirst

/-- An api that was published by hand has no deployment after a catalog wrote it. -/
theorem exists_live_without_deployment :
    ¬ ∀ start log api, (∀ first, start = some first → first.deployments = []) →
      Deployed plainFormat start (some api) log → isLive api.state = true →
        ∃ deployment ∈ api.deployments.head?,
          deployment.apiDefinition = deploymentDefinition plainFormat api := by
  intro h
  have hdeployed := Deployed.deploy (plainApi .published "remote_catalog=1") [] 0
    (Deployed.start : Deployed plainFormat (some (plainApi .published "admin")) _ []) rfl
  obtain ⟨deployment, hhead, -⟩ := h _ _ _ (fun first hfirst => by cases hfirst; rfl) hdeployed rfl
  cases hhead

end Deployed

end Apis

end Otoroshi
