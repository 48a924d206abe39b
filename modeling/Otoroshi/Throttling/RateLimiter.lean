/-
# The strategies that are kept

A throttling decision is made by a strategy, and the strategies are kept under the keys
they were asked for. A call asks with a key and, if it has one, with a configuration. It
gets the strategy that is kept under the key if that has a configuration with the same
id, and a new one otherwise. But the id of a configuration is the name of its type. So
the strategy is that of the first configuration of its type that came with the key, and
a call that comes without a configuration gets it too.

`strategies_eq_inForce` says which configuration decides, after any calls and
evictions.
-/

import Otoroshi.Foundation.Json
import Otoroshi.Throttling.Strategies

namespace Otoroshi

/-! ## Configurations -/

structure LegacyThrottlingStrategyConfig where
  quota : AllowedQuota := {}
  deriving DecidableEq

structure DistributedRedisThrottlingStrategyConfig where
  bucketKey : Option Str := none
  quota : AllowedQuota := {}
  deriving DecidableEq

structure LuaDistributedRedisThrottlingStrategyConfig where
  bucketKey : Option Str := none
  quota : AllowedQuota := {}
  deriving DecidableEq

inductive ThrottlingStrategyConfig
  | localTokensBucket (config : LocalTokensBucketStrategyConfig)
  | fixedWindow (config : FixedWindowStrategyConfig)
  | legacy (config : LegacyThrottlingStrategyConfig)
  | distributedRedis (config : DistributedRedisThrottlingStrategyConfig)
  | luaDistributedRedis (config : LuaDistributedRedisThrottlingStrategyConfig)
  deriving DecidableEq

namespace AllowedQuota

def json (quota : AllowedQuota) : JsValue :=
  Json.obj [
    ("window", Json.long quota.window),
    ("daily", Json.long quota.daily),
    ("monthly", Json.long quota.monthly)]

def fmt : Format AllowedQuota where
  writes := json
  reads json := .ok {
    window := (json.select "window").asOptOrElse .long RemainingQuotas.maxValue
    daily := (json.select "daily").asOptOrElse .long RemainingQuotas.maxValue
    monthly := (json.select "monthly").asOptOrElse .long RemainingQuotas.maxValue }

theorem reads_json (quota : AllowedQuota) : fmt.reads quota.json = .ok quota := by
  simp [fmt, json, asOptOrElse_of_ok (reads_long _)]

end AllowedQuota

namespace LocalTokensBucketStrategyConfig

def id : Str := "LocalTokensBucketStrategyConfig".toList

def json (config : LocalTokensBucketStrategyConfig) : JsValue :=
  Json.obj [
    ("id", .string id),
    ("bucketKey", .string config.bucketKey),
    ("capacity", Json.long config.capacity),
    ("refillRequestIntervalMs", Json.long config.refillRequestIntervalMs),
    ("refillRequestedTokens", Json.long config.refillRequestedTokens),
    ("quota", config.quota.json)]

/-- The key of a bucket that has none is generated. -/
def format (uuid : Str) : Format LocalTokensBucketStrategyConfig where
  writes := json
  reads json := .ok {
    bucketKey := (json.select "bucketKey").asOptOrElse .string uuid
    capacity := (json.select "capacity").asOptOrElse .long ⟨300, isLong_300⟩
    refillRequestIntervalMs :=
      (json.select "refillRequestIntervalMs").asOptOrElse .long ⟨50, isLong_50⟩
    refillRequestedTokens :=
      (json.select "refillRequestedTokens").asOptOrElse .long ⟨50, isLong_50⟩
    quota := (json.select "quota").asOptOrElse AllowedQuota.fmt.reads {} }

theorem reads_json (uuid : Str) (config : LocalTokensBucketStrategyConfig) :
    (format uuid).reads config.json = .ok config := by
  have hkey : Reads.string (.string config.bucketKey) = .ok config.bucketKey := rfl
  simp [format, json, asOptOrElse_of_ok (reads_long _), asOptOrElse_of_ok hkey,
    asOptOrElse_of_ok (AllowedQuota.reads_json _)]

end LocalTokensBucketStrategyConfig

namespace FixedWindowStrategyConfig

def id : Str := "FixedWindowStrategyConfig".toList

def json (config : FixedWindowStrategyConfig) : JsValue :=
  Json.obj [
    ("id", .string id),
    ("quota", config.quota.json),
    ("windowDurationMs", Json.long config.windowDurationMs),
    ("bucketKey", Json.orNull .string config.bucketKey)]

def format : Format FixedWindowStrategyConfig where
  writes := json
  reads json := do
    let quota ← (json.select "quota").as AllowedQuota.fmt.reads
    pure {
      windowDurationMs := (json.select "windowDurationMs").asOptOrElse .long ⟨10000, isLong_10000⟩
      quota
      bucketKey := (json.select "bucketKey").asOpt .string }

end FixedWindowStrategyConfig

/-- A key that may be missing is read back. -/
theorem asOpt_orNull_string (key : Option Str) :
    JsLookupResult.asOpt (some (Json.orNull .string key)) .string = key := by
  cases key <;> rfl

theorem FixedWindowStrategyConfig.reads_json (config : FixedWindowStrategyConfig) :
    format.reads config.json = .ok config := by
  simp [format, json, JsLookupResult.as, AllowedQuota.reads_json,
    asOptOrElse_of_ok (reads_long _), asOpt_orNull_string]

namespace LegacyThrottlingStrategyConfig

def id : Str := "LegacyThrottlingStrategyConfig".toList

def json (config : LegacyThrottlingStrategyConfig) : JsValue :=
  Json.obj [("quota", config.quota.json), ("id", .string id)]

def format : Format LegacyThrottlingStrategyConfig where
  writes := json
  reads json := do
    let quota ← (json.select "quota").as AllowedQuota.fmt.reads
    pure { quota }

theorem reads_json (config : LegacyThrottlingStrategyConfig) :
    format.reads config.json = .ok config := by
  simp [format, json, JsLookupResult.as, AllowedQuota.reads_json]

end LegacyThrottlingStrategyConfig

namespace DistributedRedisThrottlingStrategyConfig

def id : Str := "DistributedRedisThrottlingStrategyConfig".toList

def json (config : DistributedRedisThrottlingStrategyConfig) : JsValue :=
  Json.obj [
    ("id", .string id),
    ("quota", config.quota.json),
    ("bucketKey", Json.orNull .string config.bucketKey)]

def format : Format DistributedRedisThrottlingStrategyConfig where
  writes := json
  reads json := do
    let bucketKey := (json.select "bucketKey").asOpt .string
    let quota ← (json.select "quota").as AllowedQuota.fmt.reads
    pure { bucketKey, quota }

theorem reads_json (config : DistributedRedisThrottlingStrategyConfig) :
    format.reads config.json = .ok config := by
  simp [format, json, JsLookupResult.as, AllowedQuota.reads_json, asOpt_orNull_string]

end DistributedRedisThrottlingStrategyConfig

namespace LuaDistributedRedisThrottlingStrategyConfig

def id : Str := "LuaDistributedRedisThrottlingStrategyConfig".toList

def json (config : LuaDistributedRedisThrottlingStrategyConfig) : JsValue :=
  Json.obj [
    ("id", .string id),
    ("quota", config.quota.json),
    ("bucketKey", Json.orNull .string config.bucketKey)]

def format : Format LuaDistributedRedisThrottlingStrategyConfig where
  writes := json
  reads json := do
    let bucketKey := (json.select "bucketKey").asOpt .string
    let quota ← (json.select "quota").as AllowedQuota.fmt.reads
    pure { bucketKey, quota }

theorem reads_json (config : LuaDistributedRedisThrottlingStrategyConfig) :
    format.reads config.json = .ok config := by
  simp [format, json, JsLookupResult.as, AllowedQuota.reads_json, asOpt_orNull_string]

end LuaDistributedRedisThrottlingStrategyConfig

namespace ThrottlingStrategyConfig

def id : ThrottlingStrategyConfig → Str
  | localTokensBucket _ => LocalTokensBucketStrategyConfig.id
  | fixedWindow _ => FixedWindowStrategyConfig.id
  | legacy _ => LegacyThrottlingStrategyConfig.id
  | distributedRedis _ => DistributedRedisThrottlingStrategyConfig.id
  | luaDistributedRedis _ => LuaDistributedRedisThrottlingStrategyConfig.id

def json : ThrottlingStrategyConfig → JsValue
  | localTokensBucket config => config.json
  | fixedWindow config => config.json
  | legacy config => config.json
  | distributedRedis config => config.json
  | luaDistributedRedis config => config.json

/-- The parameters of a configuration: all of it but the key of its bucket. -/
def parameters : ThrottlingStrategyConfig → ThrottlingStrategyConfig
  | localTokensBucket config => localTokensBucket { config with bucketKey := [] }
  | fixedWindow config => fixedWindow { config with bucketKey := none }
  | legacy config => legacy config
  | distributedRedis config => distributedRedis { config with bucketKey := none }
  | luaDistributedRedis config => luaDistributedRedis { config with bucketKey := none }

end ThrottlingStrategyConfig

/-! ## Strategies -/

/-- The stores that a strategy may count in. -/
inductive RateLimiterRedis
  /-- `env.datastores.redis` -/
  | datastores
  | standalone (uri : Str)
  | cluster (uris : List Str)
  deriving DecidableEq

structure RateLimiterDistributedRedisSettings where
  enabled : Bool
  uris : List Str

namespace RateLimiterDistributedRedisSettings

variable (settings : RateLimiterDistributedRedisSettings)

def adhocRateLimiterRedis : RateLimiterRedis :=
  match settings.uris with
  | [] => .datastores
  | [uri] => .standalone uri
  | uris => .cluster uris

def globalRateLimiterRedis : RateLimiterRedis :=
  match settings.uris with
  | [] => .datastores
  | [uri] => if settings.enabled then .standalone uri else .datastores
  | uris => if settings.enabled then .cluster uris else .datastores

theorem globalRateLimiterRedis_of_enabled (h : settings.enabled = true) :
    settings.globalRateLimiterRedis = settings.adhocRateLimiterRedis := by
  rw [globalRateLimiterRedis, adhocRateLimiterRedis]
  split <;> simp [h]

end RateLimiterDistributedRedisSettings

/-- A strategy, by its configuration. The two that are distributed have a store of their
own, and the others count in that of the environment. -/
inductive ThrottlingStrategy
  | localTokensBucket (bucketId : Str) (config : LocalTokensBucketStrategyConfig)
  | fixedWindow (bucketId : Str) (config : FixedWindowStrategyConfig)
  | legacy (clientId : Str) (config : LegacyThrottlingStrategyConfig)
  | distributedRedis (bucketId : Str) (config : DistributedRedisThrottlingStrategyConfig)
      (client : RateLimiterRedis)
  | luaDistributedRedis (bucketId : Str) (config : LuaDistributedRedisThrottlingStrategyConfig)
      (client : RateLimiterRedis)
  deriving DecidableEq

namespace ThrottlingStrategy

def config : ThrottlingStrategy → ThrottlingStrategyConfig
  | localTokensBucket _ config => .localTokensBucket config
  | fixedWindow _ config => .fixedWindow config
  | legacy _ config => .legacy config
  | distributedRedis _ config _ => .distributedRedis config
  | luaDistributedRedis _ config _ => .luaDistributedRedis config

variable (settings : RateLimiterDistributedRedisSettings) (uuid : Str)

/-- The configuration goes through its JSON. Its id says which type it has, and is not
written out here. -/
def apply (config : ThrottlingStrategyConfig) (key : Str) : ThrottlingStrategy :=
  match config with
  | .localTokensBucket config =>
      .localTokensBucket key
        (((LocalTokensBucketStrategyConfig.format uuid).reads config.json).toOption.getD
          { bucketKey := uuid })
  | .fixedWindow config =>
      .fixedWindow key ((FixedWindowStrategyConfig.format.reads config.json).toOption.getD {})
  | .legacy config =>
      .legacy key ((LegacyThrottlingStrategyConfig.format.reads config.json).toOption.getD {})
  | .distributedRedis config =>
      .distributedRedis key
        ((DistributedRedisThrottlingStrategyConfig.format.reads config.json).toOption.getD {})
        settings.adhocRateLimiterRedis
  | .luaDistributedRedis config =>
      .luaDistributedRedis key
        ((LuaDistributedRedisThrottlingStrategyConfig.format.reads config.json).toOption.getD {})
        settings.adhocRateLimiterRedis

def default (clientId : Str) : ThrottlingStrategy :=
  if settings.enabled then .distributedRedis clientId {} settings.globalRateLimiterRedis
  else .legacy clientId {}

/-- A new strategy has the configuration it was asked for. -/
theorem config_apply (config : ThrottlingStrategyConfig) (key : Str) :
    (apply settings uuid config key).config = config := by
  cases config with
  | localTokensBucket config =>
      rw [apply, LocalTokensBucketStrategyConfig.reads_json]
      rfl
  | fixedWindow config =>
      rw [apply, FixedWindowStrategyConfig.reads_json]
      rfl
  | legacy config =>
      rw [apply, LegacyThrottlingStrategyConfig.reads_json]
      rfl
  | distributedRedis config =>
      rw [apply, DistributedRedisThrottlingStrategyConfig.reads_json]
      rfl
  | luaDistributedRedis config =>
      rw [apply, LuaDistributedRedisThrottlingStrategyConfig.reads_json]
      rfl

/-- The configuration of the default strategy. -/
def defaultConfig : ThrottlingStrategyConfig :=
  if settings.enabled then .distributedRedis {} else .legacy {}

/-- A new strategy is the default one exactly for the default configuration. -/
theorem apply_eq_default_iff (config : ThrottlingStrategyConfig) (key : Str) :
    apply settings uuid config key = default settings key ↔ config = defaultConfig settings := by
  constructor
  · intro h
    have hconfig := config_apply settings uuid config key
    rw [h] at hconfig
    rw [← hconfig, default, defaultConfig]
    split <;> rfl
  · intro h
    rw [h, default, defaultConfig]
    split
    case isTrue henabled =>
      rw [apply, DistributedRedisThrottlingStrategyConfig.reads_json,
        settings.globalRateLimiterRedis_of_enabled henabled]
      rfl
    case isFalse hdisabled =>
      rw [apply, LegacyThrottlingStrategyConfig.reads_json]
      rfl

end ThrottlingStrategy

/-! ## The rate limiter -/

/-- The strategies that are kept, under their keys. -/
abbrev RateLimiter := Str → Option ThrottlingStrategy

inductive RateLimiterEvent
  | getOrCreate (value : Str) (throttlingStrategy : Option ThrottlingStrategyConfig)
  /-- a strategy that has been idle for long is evicted -/
  | evict (key : Str)

namespace RateLimiter

variable (settings : RateLimiterDistributedRedisSettings) (uuid : Str)

def getOrCreateWithConfig (key : Str) (config : ThrottlingStrategyConfig)
    (strategies : RateLimiter) : ThrottlingStrategy × RateLimiter :=
  let newStrategy := ThrottlingStrategy.apply settings uuid config key
  match strategies key with
  | some strategy =>
      if strategy.config.id = config.id then (strategy, strategies)
      else (newStrategy, Function.update strategies key (some newStrategy))
  | none => (newStrategy, Function.update strategies key (some newStrategy))

/-- The callers pass a key that they have evaluated. -/
def getOrCreate (value : Str) (throttlingStrategy : Option ThrottlingStrategyConfig)
    (strategies : RateLimiter) : ThrottlingStrategy × RateLimiter :=
  let key := value
  match throttlingStrategy with
  | some config => getOrCreateWithConfig settings uuid key config strategies
  | none => ((strategies key).getD (ThrottlingStrategy.default settings key), strategies)

def handle (strategies : RateLimiter) : RateLimiterEvent → RateLimiter
  | .getOrCreate value throttlingStrategy =>
      (getOrCreate settings uuid value throttlingStrategy strategies).2
  | .evict key => Function.update strategies key none

/-- The strategies after some calls and evictions. At first there are none. -/
def after (events : List RateLimiterEvent) : RateLimiter :=
  events.foldl (handle settings uuid) fun _ => none

end RateLimiter

/-! ## The configuration in force -/

/-- What an event makes of the configuration in force under a key. A call with a
configuration of another type puts its own in force, and an eviction ends it. -/
def putInForce (key : Str) (current : Option ThrottlingStrategyConfig) :
    RateLimiterEvent → Option ThrottlingStrategyConfig
  | .getOrCreate value (some config) =>
      if value = key then (current.filter fun kept => kept.id = config.id).or (some config)
      else current
  | .getOrCreate _ none => current
  | .evict evicted => if evicted = key then none else current

/-- The configuration that decides under a key, after some calls and evictions. -/
def inForce (key : Str) (events : List RateLimiterEvent) : Option ThrottlingStrategyConfig :=
  events.foldl (putInForce key) none

/-- A call gets what it asks for: a strategy with the parameters of its configuration,
or the default one if it comes without. -/
def Honours (settings : RateLimiterDistributedRedisSettings) (strategy : ThrottlingStrategy)
    (key : Str) : Option ThrottlingStrategyConfig → Prop
  | some config => strategy.config.parameters = config.parameters
  | none => strategy = ThrottlingStrategy.default settings key

/-- The configuration in force, if there is one, does no harm to a call: it has another
type than the one the call asks for or the same parameters, or it is the default one if
the call comes without. -/
def Harmless (settings : RateLimiterDistributedRedisSettings)
    (current : Option ThrottlingStrategyConfig) : Option ThrottlingStrategyConfig → Prop
  | some config => ∀ kept, current = some kept → kept.id = config.id →
      kept.parameters = config.parameters
  | none => ∀ kept, current = some kept → kept = ThrottlingStrategy.defaultConfig settings

namespace RateLimiter

variable (settings : RateLimiterDistributedRedisSettings) (uuid : Str)

variable {key : Str} {config : ThrottlingStrategyConfig} {strategies : RateLimiter}
  {strategy : ThrottlingStrategy} {current : Option ThrottlingStrategyConfig}

/-- A strategy with the same id is kept. -/
theorem getOrCreateWithConfig_of_kept (hkept : strategies key = some strategy)
    (hid : strategy.config.id = config.id) :
    getOrCreateWithConfig settings uuid key config strategies = (strategy, strategies) := by
  rw [getOrCreateWithConfig, hkept]
  exact if_pos hid

/-- With no strategy of the same id there is a new one. -/
theorem getOrCreateWithConfig_of_new
    (hnew : ∀ kept, strategies key = some kept → kept.config.id ≠ config.id) :
    getOrCreateWithConfig settings uuid key config strategies =
      (ThrottlingStrategy.apply settings uuid config key,
        Function.update strategies key
          (some (ThrottlingStrategy.apply settings uuid config key))) := by
  rw [getOrCreateWithConfig]
  cases hkept : strategies key with
  | none => rfl
  | some kept => exact if_neg (hnew kept hkept)

theorem getOrCreateWithConfig_of_ne {other : Str} (hne : other ≠ key) :
    (getOrCreateWithConfig settings uuid key config strategies).2 other = strategies other := by
  by_cases hkept : ∃ kept, strategies key = some kept ∧ kept.config.id = config.id
  · obtain ⟨kept, hkept, hid⟩ := hkept
    rw [getOrCreateWithConfig_of_kept settings uuid hkept hid]
  · rw [getOrCreateWithConfig_of_new settings uuid fun kept h hid => hkept ⟨kept, h, hid⟩]
    exact Function.update_of_ne hne _ _

/-- The strategy of a configuration in force. -/
abbrev strategyOf (key : Str) (current : Option ThrottlingStrategyConfig) :
    Option ThrottlingStrategy :=
  current.map fun config => ThrottlingStrategy.apply settings uuid config key

/-- A call with a configuration puts in force the strategy that it gets. -/
theorem getOrCreateWithConfig_of_inForce
    (h : strategies key = strategyOf settings uuid key current) :
    (getOrCreateWithConfig settings uuid key config strategies).2 key =
      strategyOf settings uuid key (putInForce key current (.getOrCreate key (some config))) := by
  rw [putInForce, if_pos rfl]
  cases current with
  | none =>
      rw [getOrCreateWithConfig_of_new settings uuid fun kept hkept => by
        rw [h] at hkept
        cases hkept]
      exact Function.update_self _ _ _
  | some kept =>
      have hconfig := ThrottlingStrategy.config_apply settings uuid kept key
      by_cases hid : kept.id = config.id
      · have hsame : (ThrottlingStrategy.apply settings uuid kept key).config.id = config.id := by
          rw [hconfig, hid]
        rw [getOrCreateWithConfig_of_kept settings uuid h hsame, Option.filter_some,
          if_pos (decide_eq_true hid)]
        exact h
      · rw [getOrCreateWithConfig_of_new settings uuid fun found hfound => by
            rw [h] at hfound
            cases hfound
            rwa [hconfig],
          Option.filter_some, if_neg (by simpa using hid)]
        exact Function.update_self _ _ _

/-- An event changes the strategy under a key as it changes the configuration in
force. -/
theorem handle_apply (event : RateLimiterEvent)
    (h : strategies key = strategyOf settings uuid key current) :
    handle settings uuid strategies event key =
      strategyOf settings uuid key (putInForce key current event) := by
  cases event with
  | evict evicted =>
      rw [handle, putInForce]
      by_cases hkey : evicted = key
      · subst hkey
        rw [Function.update_self, if_pos rfl]
        rfl
      · rw [Function.update_of_ne (Ne.symm hkey), if_neg hkey]
        exact h
  | getOrCreate value asked =>
      cases asked with
      | none => exact h
      | some config =>
          by_cases hkey : value = key
          · subst hkey
            exact getOrCreateWithConfig_of_inForce settings uuid h
          · rw [putInForce, if_neg hkey, ← h]
            exact getOrCreateWithConfig_of_ne settings uuid (Ne.symm hkey)

/-- The strategy under a key is that of the configuration in force. -/
theorem strategies_eq_inForce (key : Str) (events : List RateLimiterEvent) :
    after settings uuid events key = strategyOf settings uuid key (inForce key events) := by
  have hrun : ∀ (events : List RateLimiterEvent) (strategies : RateLimiter)
      (current : Option ThrottlingStrategyConfig),
      strategies key = strategyOf settings uuid key current →
        events.foldl (handle settings uuid) strategies key =
          strategyOf settings uuid key (events.foldl (putInForce key) current) := by
    intro events
    induction events with
    | nil => exact fun _ _ h => h
    | cons event events ih =>
        intro strategies current h
        exact ih _ _ (handle_apply settings uuid event h)
  exact hrun events _ none rfl

/-- After any calls and evictions, a call gets what it asks for exactly when the
configuration in force under its key does no harm to it. -/
theorem getOrCreate_honours_iff (events : List RateLimiterEvent) (key : Str)
    (asked : Option ThrottlingStrategyConfig) :
    Honours settings (getOrCreate settings uuid key asked (after settings uuid events)).1 key
        asked ↔
      Harmless settings (inForce key events) asked := by
  have hkept := strategies_eq_inForce settings uuid key events
  cases asked with
  | none =>
      rw [getOrCreate, hkept]
      cases hforce : inForce key events with
      | none => exact iff_of_true rfl fun kept h => by cases h
      | some kept =>
          rw [Harmless, Honours]
          simp only [Option.map_some, Option.getD_some, Option.some.injEq, forall_eq']
          exact ThrottlingStrategy.apply_eq_default_iff settings uuid kept key
  | some config =>
      rw [getOrCreate, Honours, Harmless]
      by_cases hsame : ∃ kept, inForce key events = some kept ∧ kept.id = config.id
      · obtain ⟨kept, hforce, hid⟩ := hsame
        have hconfig := ThrottlingStrategy.config_apply settings uuid kept key
        rw [hforce] at hkept
        rw [getOrCreateWithConfig_of_kept settings uuid hkept (by rw [hconfig, hid]), hforce]
        simp only [hconfig, Option.some.injEq, forall_eq', hid, forall_const]
      · have hnew : ∀ found, after settings uuid events key = some found →
            found.config.id ≠ config.id := by
          intro found hfound hid
          rw [hkept] at hfound
          obtain ⟨kept, hforce, rfl⟩ := Option.map_eq_some_iff.mp hfound
          rw [ThrottlingStrategy.config_apply] at hid
          exact hsame ⟨kept, hforce, hid⟩
        rw [getOrCreateWithConfig_of_new settings uuid hnew, ThrottlingStrategy.config_apply]
        exact iff_of_true rfl fun kept hforce hid => absurd ⟨kept, hforce, hid⟩ hsame

/-! ## An example -/

section Example

/-- A window of ten seconds that takes a number of calls. -/
def exampleConfig (window : Long) : ThrottlingStrategyConfig := .fixedWindow { quota := { window } }

/-- A second window gets the limit of the first, and a call without a window too. -/
theorem exists_not_honours :
    ¬ ∀ (events : List RateLimiterEvent) (key : Str) (asked : Option ThrottlingStrategyConfig),
      Honours ⟨false, []⟩
        (getOrCreate ⟨false, []⟩ "uuid".toList key asked
          (after ⟨false, []⟩ "uuid".toList events)).1 key asked := by
  intro h
  have hhonours := h [.getOrCreate "key".toList (some (exampleConfig ⟨100, by decide⟩))]
    "key".toList (some (exampleConfig ⟨5, by decide⟩))
  rw [Honours] at hhonours
  revert hhonours
  decide

end Example

end RateLimiter

end Otoroshi
