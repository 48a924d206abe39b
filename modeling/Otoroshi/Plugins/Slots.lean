/-
# The plugin slots of a request

A route lists its plugins in slots, and so does the global configuration. The slots that
apply to a request are found in a few steps: presets give way to the slots they stand for,
each slot gets its place in the list as its instance id, and slots that are disabled,
blacklisted, bound to another listener, that run as jobs, or that do not match the path of
the request are left out. What is left keeps its order, so the instance ids increase.
-/

import Mathlib.Data.List.Pairwise
import Otoroshi.Foundation.Text

namespace Otoroshi

namespace Plugins

variable {Config Index : Type}

/-- The two indexes of a slot that transformers are put in order by. -/
structure PluginIndex (Index : Type) where
  transformRequest : Option Index := none
  transformResponse : Option Index := none
  deriving DecidableEq

structure NgPluginInstance (Config Index : Type) where
  plugin : Str
  enabled : Bool := true
  included : List Str := []
  excluded : List Str := []
  config : Config
  pluginIndex : Option (PluginIndex Index) := none
  instanceId : Int := -1
  boundListeners : List Str := []
  deriving DecidableEq

/-- What a transformer says about itself. -/
structure NgRequestTransformer where
  transformsRequest : Bool := true
  transformsResponse : Bool := true
  transformsError : Bool := true
  isTransformRequestAsync : Bool := true
  isTransformResponseAsync : Bool := true
  deriving DecidableEq

/-- A plugin as the kinds it is of. What a preset expands to also depends on the request
and the route, which are the same for all slots. -/
structure NgNamedPlugin (Config Index : Type) where
  preset : Option (Config → List (NgPluginInstance Config Index)) := none
  transformer : Option NgRequestTransformer := none

structure RequestHeader where
  thePath : Str
  listenerId : Option Str := none

structure Env (Config Index : Type) where
  blacklistedPlugins : List Str := []
  /-- `scriptManager.getAnyScript` -/
  getAnyScript : Str → Option (NgNamedPlugin Config Index)
  /-- `RegexPool.regex(pattern).matches(path)` -/
  regexMatches : Str → Str → Bool

namespace NgPluginInstance

variable (slot : NgPluginInstance Config Index)

def matchesRequest (env : Env Config Index) (request : RequestHeader) : Bool :=
  if !(slot.included.isEmpty && slot.excluded.isEmpty) then
    let canpass :=
      if slot.included.isEmpty then true
      else slot.included.any fun p => env.regexMatches p request.thePath
    let cannotpass :=
      if slot.excluded.isEmpty then false
      else slot.excluded.any fun p => env.regexMatches p request.thePath
    canpass && !cannotpass
  else
    true

def getPresetPlugin (env : Env Config Index) :
    Option (Config → List (NgPluginInstance Config Index)) :=
  (env.getAnyScript slot.plugin).bind NgNamedPlugin.preset

def getTransformer (env : Env Config Index) : Option NgRequestTransformer :=
  (env.getAnyScript slot.plugin).bind NgNamedPlugin.transformer

end NgPluginInstance

/-- `HttpListenerNames.Standard` -/
def standardListener : Str := "standard-listener".toList

/-- The classes that are jobs for a slot to be scheduled with. -/
def jobNames : List Str :=
  ["otoroshi.next.plugins.WasmJob".toList, "otoroshi.next.workflow.WorkflowJob".toList,
    "otoroshi.next.catalogs.RemoteCatalogJob".toList]

structure NgContextualPlugins (Config Index : Type) where
  plugins : List (NgPluginInstance Config Index)
  globalPlugins : List (NgPluginInstance Config Index) := []
  request : RequestHeader
  nextPluginsMerge : Bool := true
  env : Env Config Index

namespace NgContextualPlugins

variable (context : NgContextualPlugins Config Index)

def currentListener : Str := context.request.listenerId.getD standardListener

/-- A slot that is enabled and names a preset gives way to what the preset stands for. -/
def expand (slot : NgPluginInstance Config Index) : List (NgPluginInstance Config Index) :=
  match slot.getPresetPlugin context.env with
  | some preset => if slot.enabled then preset slot.config else [slot]
  | none => [slot]

/-- `zipWithIndex`, with the place of a slot as its instance id. -/
def numbered (slots : List (NgPluginInstance Config Index)) :
    List (NgPluginInstance Config Index) :=
  slots.zipIdx.map fun (slot, idx) => { slot with instanceId := idx }

def enabledPlugins : List (NgPluginInstance Config Index) :=
  (numbered ((context.globalPlugins ++ context.plugins).flatMap context.expand)).filter (·.enabled)

def whitelistedPlugins : List (NgPluginInstance Config Index) :=
  if context.env.blacklistedPlugins.isEmpty then context.enabledPlugins
  else context.enabledPlugins.filter fun slot =>
    !context.env.blacklistedPlugins.contains slot.plugin

def currentListenerPlugin : List (NgPluginInstance Config Index) :=
  context.whitelistedPlugins.filter fun slot =>
    slot.boundListeners.isEmpty || slot.boundListeners.contains context.currentListener

def allPlugins : List (NgPluginInstance Config Index) :=
  (context.currentListenerPlugin.filter fun slot =>
    !jobNames.any (endsWith slot.plugin)).filter (·.matchesRequest context.env context.request)

/-- Declared earlier: with a smaller instance id. -/
def Earlier (x y : NgPluginInstance Config Index) : Prop := x.instanceId < y.instanceId

theorem pairwise_numbered (slots : List (NgPluginInstance Config Index)) :
    (numbered slots).Pairwise Earlier := by
  suffices h : ∀ start : Nat, ((slots.zipIdx start).map fun item =>
      { item.1 with instanceId := (item.2 : Int) }).Pairwise Earlier from h 0
  induction slots with
  | nil => simp
  | cons slot slots ih =>
      intro start
      rw [List.zipIdx_cons, List.map_cons, List.pairwise_cons]
      constructor
      · intro other hother
        obtain ⟨item, hitem, rfl⟩ := List.mem_map.mp hother
        have hle : start + 1 ≤ item.2 := (List.mem_zipIdx hitem).1
        show (start : Int) < item.2
        omega
      · exact ih (start + 1)

theorem sublist_allPlugins : context.allPlugins.Sublist
    (numbered ((context.globalPlugins ++ context.plugins).flatMap context.expand)) := by
  have hwhite : context.whitelistedPlugins.Sublist context.enabledPlugins := by
    rw [whitelistedPlugins]
    split
    · exact List.Sublist.refl _
    · exact List.filter_sublist
  have hlistener : context.currentListenerPlugin.Sublist context.enabledPlugins :=
    List.filter_sublist.trans hwhite
  have hall : context.allPlugins.Sublist context.currentListenerPlugin :=
    List.filter_sublist.trans List.filter_sublist
  exact (hall.trans hlistener).trans List.filter_sublist

theorem pairwise_allPlugins : context.allPlugins.Pairwise Earlier :=
  (pairwise_numbered _).sublist context.sublist_allPlugins

end NgContextualPlugins

end Plugins

end Otoroshi
