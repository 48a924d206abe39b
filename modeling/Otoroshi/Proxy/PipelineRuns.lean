/-
# What a walk through plugins logs

A chain logs its calls: they are linked, and the verdict of each is what its plugin said. A plugin
that stops a chain stops the whole program, so nothing but the last event of a program says stop,
and the program stops with what that event says (`Orderly`).
-/

import Otoroshi.Proxy.Pipeline

namespace Otoroshi

namespace Pipeline

open Chains Resumption

variable {T : EngineTypes} {Plugin α β : Type}

def Ending.stop? : Ending T α → Option (Stop T)
  | .right _ => none
  | .stopped stop => some stop

/-- What a chain ends with for a verdict of a plugin. -/
def endingOf (failure : T.Result) (behind : Bool) : Verdict α T.Result Throwable → Ending T α
  | .passes value => .right value
  | .answers result => .stopped (.left result)
  | .fails _ => .stopped (.left failure)
  | .throws e => .stopped (if behind then .pending else .failed e)

/-! ## Chains -/

namespace Chain

variable (chain : Chain T Plugin α) (discriminator : Str)
  (otoroshiJsonError : String → String → Nat → T.Result)

/-- The verdict of a call is what the plugin said. -/
def Said (call : PluginCall T Plugin α) : Prop :=
  ∃ identity attrs, call.verdict =
    (chain.call call.item.plugin (context discriminator call.item) identity call.given attrs).1

/-- What a chain logs for its calls, from its first plugin on or from one behind it. -/
def events (behind : Bool) : List (PluginCall T Plugin α) → List (Event T)
  | [] => []
  | call :: calls => chain.event behind call :: events true calls

/-- The calls of a whole walk, and how it ends. -/
structure Walk (plugins : List (NgPluginWrapper Plugin)) (value : α)
    (calls : List (PluginCall T Plugin α)) (verdict : Verdict α T.Result Throwable)
    (last : Ending T α) : Prop where
  linked : Linked plugins value calls verdict
  said : ∀ call ∈ calls, chain.Said discriminator call
  ending : last = endingOf (chain.failure otoroshiJsonError) (decide (1 < calls.length)) verdict

variable {chain discriminator otoroshiJsonError} {identity : Attributes T → Identity T}
  {wrapper : NgPluginWrapper Plugin} {plugins : List (NgPluginWrapper Plugin)} {value : α}
  {start : Identity T} {log : List (Event T)} {last : Ending T α} {behind : Bool}

theorem yields_callPlugin {verdict : Verdict α T.Result Throwable}
    (h : Yields (chain.callPlugin discriminator behind identity wrapper value) log verdict) :
    chain.Said discriminator ⟨wrapper, value, verdict⟩ ∧
      log = [chain.event behind ⟨wrapper, value, verdict⟩] := by
  obtain ⟨attrs, rfl, hlog⟩ := yields_perform_iff.mp h
  exact ⟨⟨identity attrs, attrs, rfl⟩, hlog⟩

/-- A plugin that passes is followed by what comes next, and one that does not is the last one. -/
theorem yields_callPlugin_bind (failure : T.Result) (next : α → Program T (Ending T α))
    {stops : Verdict α T.Result Throwable → Program T (Ending T α)}
    (hstops : ∀ verdict, stops verdict =
      match endingOf failure behind verdict with
      | .right value => next value
      | .stopped stop => .ends (.stopped stop))
    (h : Yields (chain.callPlugin discriminator behind identity wrapper value >>= stops) log last) :
    ∃ verdict, chain.Said discriminator ⟨wrapper, value, verdict⟩ ∧
      ((∃ handed after, verdict = .passes handed ∧ Yields (next handed) after last ∧
          log = chain.event behind ⟨wrapper, value, verdict⟩ :: after) ∨
        verdict.isPass = false ∧ log = [chain.event behind ⟨wrapper, value, verdict⟩] ∧
          last = endingOf failure behind verdict) := by
  obtain ⟨verdict, before, after, rfl, hcall, hrest⟩ := yields_bind_iff.mp h
  obtain ⟨hsaid, rfl⟩ := yields_callPlugin hcall
  refine ⟨verdict, hsaid, ?_⟩
  rw [hstops] at hrest
  cases verdict with
  | passes handed => exact .inl ⟨handed, after, rfl, hrest, rfl⟩
  | answers result =>
      obtain ⟨rfl, rfl⟩ := yields_ends_iff.mp hrest
      exact .inr ⟨rfl, rfl, rfl⟩
  | fails e =>
      obtain ⟨rfl, rfl⟩ := yields_ends_iff.mp hrest
      exact .inr ⟨rfl, rfl, rfl⟩
  | throws e =>
      obtain ⟨rfl, rfl⟩ := yields_ends_iff.mp hrest
      exact .inr ⟨rfl, rfl, rfl⟩

/-- The calls of a chain from the second plugin on. -/
theorem yields_next
    (h : Yields (chain.next discriminator otoroshiJsonError start plugins value) log last) :
    ∃ calls verdict, log = chain.events true calls ∧ Linked plugins value calls verdict ∧
      (∀ call ∈ calls, chain.Said discriminator call) ∧
        last = endingOf (chain.failure otoroshiJsonError) true verdict := by
  induction plugins generalizing value log with
  | nil =>
      obtain ⟨rfl, rfl⟩ := yields_ends_iff.mp h
      exact ⟨[], .passes value, rfl, .nil value, List.forall_mem_nil _, rfl⟩
  | cons wrapper plugins ih =>
      obtain ⟨verdict, hsaid, ⟨handed, after, rfl, hafter, rfl⟩ | ⟨hstop, rfl, rfl⟩⟩ :=
        yields_callPlugin_bind (chain.failure otoroshiJsonError)
          (chain.next discriminator otoroshiJsonError start plugins)
          (fun verdict => by cases verdict <;> rfl) h
      · obtain ⟨calls, verdict, rfl, hlinked, hcalls, rfl⟩ := ih hafter
        exact ⟨_ :: calls, verdict, rfl, .pass hlinked, List.forall_mem_cons.mpr ⟨hsaid, hcalls⟩,
          rfl⟩
      · exact ⟨[_], verdict, rfl, .stop hstop, List.forall_mem_singleton.mpr hsaid, rfl⟩

/-- A chain that goes on with the other plugins behind the first one. -/
theorem walk_of_first (start : Identity T)
    {stops : Verdict α T.Result Throwable → Program T (Ending T α)}
    (hstops : ∀ verdict, stops verdict =
      match endingOf (chain.failure otoroshiJsonError) false verdict with
      | .right value => chain.next discriminator otoroshiJsonError start plugins value
      | .stopped stop => .ends (.stopped stop))
    (h : Yields (chain.callPlugin discriminator false identity wrapper value >>= stops) log last) :
    ∃ calls verdict, log = chain.events false calls ∧
      chain.Walk discriminator otoroshiJsonError (wrapper :: plugins) value calls verdict last := by
  obtain ⟨verdict, hsaid, ⟨handed, after, rfl, hafter, rfl⟩ | ⟨hstop, rfl, rfl⟩⟩ :=
    yields_callPlugin_bind (chain.failure otoroshiJsonError)
      (chain.next discriminator otoroshiJsonError start plugins) hstops h
  · obtain ⟨calls, verdict, rfl, hlinked, hcalls, rfl⟩ := yields_next hafter
    refine ⟨_ :: calls, verdict, rfl, .pass hlinked, List.forall_mem_cons.mpr ⟨hsaid, hcalls⟩, ?_⟩
    cases hlinked with
    | nil given => rfl
    | pass hlinked => simp
    | stop hverdict => simp
  · exact ⟨[_], verdict, rfl, .stop hstop, List.forall_mem_singleton.mpr hsaid, rfl⟩

/-- A walk logs its calls. -/
theorem yields_callPlugins
    (h : Yields (chain.callPlugins discriminator otoroshiJsonError plugins value) log last) :
    ∃ calls verdict, log = chain.events false calls ∧
      chain.Walk discriminator otoroshiJsonError plugins value calls verdict last := by
  cases plugins with
  | nil =>
      obtain ⟨rfl, rfl⟩ := yields_ends_iff.mp h
      exact ⟨[], .passes value, rfl, .nil value, List.forall_mem_nil _, rfl⟩
  | cons wrapper plugins =>
      obtain ⟨start, before, after, rfl, hstart, hwalk⟩ := yields_bind_iff.mp h
      obtain ⟨attrs, rfl, rfl⟩ := yields_perform_iff.mp hstart
      cases plugins with
      | nil => exact walk_of_first attrs.identity (fun verdict => by cases verdict <;> rfl) hwalk
      | cons second plugins =>
          exact walk_of_first attrs.identity (fun verdict => by cases verdict <;> rfl) hwalk

end Chain

/-! ## Programs -/

/-- What the call of a plugin makes the program stop with. -/
def Event.refusal (E : Engine T) : Event T → Option (Stop T)
  | .validated behind call =>
      (endingOf (validators.failure E.otoroshiJsonError) behind call.verdict).stop?
  | .hooked behind call =>
      (endingOf (beforeRequests.failure E.otoroshiJsonError) behind call.verdict).stop?
  | .preRouted behind call =>
      (endingOf (preRoutes.failure E.otoroshiJsonError) behind call.verdict).stop?
  | .accessed behind call =>
      (endingOf (accessValidators.failure E.otoroshiJsonError) behind call.verdict).stop?
  | .identified _ => none
  | .requestTransformed behind call =>
      (endingOf ((requestTransformers E.rawRequest).failure E.otoroshiJsonError) behind
        call.verdict).stop?
  | .backendCalled _ _ => none
  | .responseTransformed behind call =>
      (endingOf (E.otoroshiJsonError "internal_server_error"
        "an error happened during response-transformation plugins phase" 500) behind
        call.verdict).stop?

/-- No event says stop but the last one, and the program stops with what that one says. Where none
says stop, the program has been halted by a step of the engine. -/
def Orderly (E : Engine T) (events : List (Event T)) : Ending T α → Prop
  | .right _ => ∀ event ∈ events, event.refusal E = none
  | .stopped stop => stop ≠ .pending ∧ (∀ event ∈ events, event.refusal E = none) ∨
      ∃ before event, events = before ++ [event] ∧ (∀ event ∈ before, event.refusal E = none) ∧
        event.refusal E = some stop

variable {E : Engine T} {events before after : List (Event T)} {stop : Stop T}

theorem orderly_right (value : α) : Orderly E [] (.right value) := List.forall_mem_nil _

theorem orderly_halted (halt : Halt T) : Orderly E [] (.stopped halt.stop : Ending T α) :=
  .inl ⟨by cases halt <;> nofun, List.forall_mem_nil _⟩

theorem Orderly.append {last : Ending T α} (hbefore : ∀ event ∈ before, event.refusal E = none)
    (h : Orderly E after last) : Orderly E (before ++ after) last := by
  cases last with
  | right value => exact List.forall_mem_append.mpr ⟨hbefore, h⟩
  | stopped stop =>
      obtain ⟨hpending, hafter⟩ | ⟨middle, event, rfl, hmiddle, hevent⟩ := h
      · exact .inl ⟨hpending, List.forall_mem_append.mpr ⟨hbefore, hafter⟩⟩
      · exact .inr ⟨before ++ middle, event, (List.append_assoc ..).symm,
          List.forall_mem_append.mpr ⟨hbefore, hmiddle⟩, hevent⟩

/-- A program that is always orderly. -/
def Disciplined (E : Engine T) (program : EngineM T α) : Prop :=
  ∀ events last, Yields program events last → Orderly E events last

theorem disciplined_ends (value : α) :
    Disciplined E (Resumption.ends (.right value) : EngineM T α) := by
  intro events other h
  obtain ⟨rfl, rfl⟩ := yields_ends_iff.mp h
  exact orderly_right value

/-- A step of the engine logs nothing and is not left pending. -/
theorem yields_run {step : Step T α} {last : Ending T α} (h : Yields step.run events last) :
    events = [] ∧ ((∃ value attrs, (step attrs).1 = .ok value ∧ last = .right value) ∨
      ∃ halt : Halt T, last = .stopped halt.stop) := by
  obtain ⟨attrs, rfl, rfl⟩ := yields_perform_iff.mp h
  refine ⟨rfl, ?_⟩
  rcases hstep : step attrs with ⟨halt | value, after⟩
  · exact .inr ⟨halt, rfl⟩
  · exact .inl ⟨value, attrs, by rw [hstep], rfl⟩

theorem disciplined_run (step : Step T α) : Disciplined E step.run := by
  intro events last h
  obtain ⟨rfl, ⟨value, -, -, rfl⟩ | ⟨halt, rfl⟩⟩ := yields_run h
  · exact orderly_right value
  · exact orderly_halted halt

theorem disciplined_flatMap {program : EngineM T α} {next : α → EngineM T β}
    (hprogram : Disciplined E program) (hnext : ∀ value, Disciplined E (next value)) :
    Disciplined E (program.flatMap next) := by
  intro events last h
  obtain ⟨first, before, after, rfl, hfirst, hrest⟩ := yields_bind_iff.mp h
  have hbefore := hprogram before first hfirst
  cases first with
  | right value => exact (hnext value after last hrest).append hbefore
  | stopped stop =>
      obtain ⟨rfl, rfl⟩ := yields_ends_iff.mp hrest
      rwa [List.append_nil]

/-- The events of the chain are read as its calls end. -/
def Chain.Logged (chain : Chain T Plugin α) (E : Engine T) : Prop :=
  ∀ behind call, (chain.event behind call).refusal E =
    (endingOf (chain.failure E.otoroshiJsonError) behind call.verdict).stop?

theorem Chain.Logged.orderly {chain : Chain T Plugin α} (hlogged : chain.Logged E)
    {plugins : List (NgPluginWrapper Plugin)} {value : α} {calls : List (PluginCall T Plugin α)}
    {verdict : Verdict α T.Result Throwable} (h : Linked plugins value calls verdict)
    (behind : Bool) :
    Orderly E (chain.events behind calls) (endingOf (chain.failure E.otoroshiJsonError)
      (behind || decide (1 < calls.length)) verdict) := by
  induction h generalizing behind with
  | nil given => exact orderly_right given
  | @pass item items given value calls ending h ih =>
      have hpass : ∀ event ∈ [chain.event behind ⟨item, given, .passes value⟩],
          event.refusal E = none :=
        List.forall_mem_singleton.mpr ((hlogged behind _).trans rfl)
      have hrest := (ih true).append hpass
      cases h with
      | nil given => exact hrest
      | pass h => simpa [Chain.events] using hrest
      | stop h => simpa [Chain.events] using hrest
  | @stop item items given verdict h =>
      have hevent := hlogged behind ⟨item, given, verdict⟩
      rw [List.length_singleton, decide_eq_false (lt_irrefl 1), Bool.or_false]
      cases verdict with
      | passes value => cases h
      | answers result => exact .inr ⟨[], _, rfl, List.forall_mem_nil _, hevent⟩
      | fails e => exact .inr ⟨[], _, rfl, List.forall_mem_nil _, hevent⟩
      | throws e => exact .inr ⟨[], _, rfl, List.forall_mem_nil _, hevent⟩

theorem disciplined_callPlugins {chain : Chain T Plugin α} (hlogged : chain.Logged E)
    (discriminator : Str) (plugins : List (NgPluginWrapper Plugin)) (value : α) :
    Disciplined E (chain.callPlugins discriminator E.otoroshiJsonError plugins value) := by
  intro events last h
  obtain ⟨calls, verdict, rfl, walk⟩ := Chain.yields_callPlugins h
  have horderly := hlogged.orderly walk.linked false
  rwa [Bool.false_or, ← walk.ending] at horderly

/-- The checks of the plugins of a route, or of those an apikey brings. -/
theorem disciplined_phases (E : Engine T) (plugins : NgContextualPlugins T) :
    Disciplined E (E.callPluginsBeforeRequestCallback plugins) ∧
      Disciplined E (E.callPreRoutePlugins plugins) ∧
        Disciplined E (E.callAccessValidatorPlugins plugins) :=
  ⟨disciplined_callPlugins (fun _ _ => rfl) _ _ _, disciplined_callPlugins (fun _ _ => rfl) _ _ _,
    disciplined_callPlugins (fun _ _ => rfl) _ _ _⟩

theorem disciplined_callFlow (E : Engine T) (route : T.Route) (ctxPlugins : NgContextualPlugins T)
    (discriminator : Str) (flow : NgPluginsWithOverride T) :
    Disciplined E (E.callFlow route ctxPlugins discriminator flow) := by
  refine disciplined_flatMap (disciplined_run _) fun plugins => ?_
  obtain ⟨hbefore, hroute, haccess⟩ := disciplined_phases E plugins
  exact disciplined_flatMap hbefore fun _ => disciplined_flatMap hroute fun _ =>
    disciplined_flatMap haccess fun _ => disciplined_run _

theorem disciplined_handleApikeyPluginsFlow (E : Engine T) (route : T.Route)
    (ctxPlugins : NgContextualPlugins T) :
    Disciplined E (E.handleApikeyPluginsFlow route ctxPlugins) := by
  intro events last h
  obtain ⟨apikey, before, after, rfl, hread, hrest⟩ := yields_bind_iff.mp h
  obtain ⟨attrs, rfl, rfl⟩ := yields_perform_iff.mp hread
  refine Orderly.append (List.forall_mem_singleton.mpr rfl) ?_
  split at hrest
  next => exact disciplined_ends _ _ _ hrest
  next apikey happikey =>
    split at hrest
    next => exact disciplined_ends _ _ _ hrest
    next flow hflow => exact disciplined_callFlow E route ctxPlugins _ flow _ _ hrest

theorem disciplined_checks (E : Engine T) : Disciplined E E.checks := by
  refine disciplined_flatMap (disciplined_run _) fun _ =>
    disciplined_flatMap (disciplined_callPlugins (fun _ _ => rfl) _ _ _) fun _ =>
    disciplined_flatMap (disciplined_run _) fun route =>
    disciplined_flatMap (disciplined_run _) fun _ =>
    disciplined_flatMap (disciplined_run _) fun plugins => ?_
  obtain ⟨hbefore, hroute, haccess⟩ := disciplined_phases E plugins
  exact disciplined_flatMap (disciplined_run _) fun _ =>
    disciplined_flatMap (disciplined_run _) fun _ => disciplined_flatMap hbefore fun _ =>
    disciplined_flatMap (disciplined_run _) fun _ => disciplined_flatMap hroute fun _ =>
    disciplined_flatMap haccess fun _ =>
    disciplined_flatMap (disciplined_handleApikeyPluginsFlow E route plugins) fun _ =>
    disciplined_flatMap (disciplined_run _) fun _ => disciplined_ends _

/-! ## Checks that let a request through -/

/-- All plugins of a chain were called in their order, each with what the one before handed on, and
each said that it passes. -/
def Chain.Passed (chain : Chain T Plugin α) (discriminator : Str)
    (plugins : List (NgPluginWrapper Plugin)) (value handed : α) (events : List (Event T)) : Prop :=
  ∃ calls, events = chain.events false calls ∧ Linked plugins value calls (.passes handed) ∧
    ∀ call ∈ calls, chain.Said discriminator call

theorem Chain.exists_of_mem_events {chain : Chain T Plugin α} {behind : Bool}
    {calls : List (PluginCall T Plugin α)} {event : Event T}
    (h : event ∈ chain.events behind calls) : ∃ place call, event = chain.event place call := by
  induction calls generalizing behind with
  | nil => cases h
  | cons call calls ih =>
      obtain rfl | h := List.mem_cons.mp h
      · exact ⟨behind, call, rfl⟩
      · exact ih h

theorem Chain.passed_of_yields {chain : Chain T Plugin α} {discriminator : Str}
    {plugins : List (NgPluginWrapper Plugin)} {value handed : α}
    (h : Yields (chain.callPlugins discriminator E.otoroshiJsonError plugins value) events
      (.right handed)) : chain.Passed discriminator plugins value handed events := by
  obtain ⟨calls, verdict, rfl, walk⟩ := Chain.yields_callPlugins h
  refine ⟨calls, rfl, ?_, walk.said⟩
  cases verdict with
  | passes other =>
      cases walk.ending
      exact walk.linked
  | answers result => cases walk.ending
  | fails e => cases walk.ending
  | throws e => cases walk.ending

/-- The plugins let the request through: the hooks before it, the ones before the route, and the
access validators. -/
def LetThrough (plugins : NgContextualPlugins T) (events : List (Event T)) : Prop :=
  ∃ hooked preRouted accessed, events = hooked ++ (preRouted ++ accessed) ∧
    beforeRequests.Passed plugins.cacheDiscriminator plugins.transformerPluginsWithCallbacks () ()
      hooked ∧
    preRoutes.Passed plugins.cacheDiscriminator plugins.preRoutePlugins () () preRouted ∧
    accessValidators.Passed plugins.cacheDiscriminator plugins.accessValidatorPlugins () () accessed

/-- What the apikey of the request, if there is one, adds to the checks and to the plugins. -/
inductive FlowPassed (E : Engine T) (route : T.Route) (ctxPlugins : NgContextualPlugins T) :
    List (Event T) → NgContextualPlugins T → Prop
  | anonymous : FlowPassed E route ctxPlugins [.identified none] ctxPlugins
  | plain {apikey : ApiKey T} (h : apikey.pluginFlow E.planFlow = none) :
      FlowPassed E route ctxPlugins [.identified (some apikey)] ctxPlugins
  | flow {apikey : ApiKey T} {flow : NgPluginsWithOverride T} {attrs after : Attributes T}
      {events : List (Event T)} (h : apikey.pluginFlow E.planFlow = some flow)
      (hevents : LetThrough
        (E.contextualPlugins route flow.plugins [] apikey.discriminator attrs) events) :
      FlowPassed E route ctxPlugins (.identified (some apikey) :: events)
        (E.contextualPlugins route (E.mergedSlots flow ctxPlugins) ctxPlugins.globalSlots
          apikey.discriminator after)

/-- Every check there is for the request was made and passed. -/
def Cleared (E : Engine T) (events : List (Event T)) (route : T.Route)
    (plugins : NgContextualPlugins T) : Prop :=
  ∃ attrs validated checked flow, events = validated ++ (checked ++ flow) ∧
    validators.Passed [] E.incomingRequestValidators () () validated ∧
    LetThrough (E.contextualPlugins route (E.routeSlots route) E.globalSlots [] attrs) checked ∧
    FlowPassed E route (E.contextualPlugins route (E.routeSlots route) E.globalSlots [] attrs) flow
      plugins

/-- A sequence goes on behind a value and ends with a stop. -/
theorem yields_flatMap {program : EngineM T α} {next : α → EngineM T β} {last : Ending T β}
    (h : Yields (program.flatMap next) events last) :
    (∃ a before after, events = before ++ after ∧ Yields program before (.right a) ∧
      Yields (next a) after last) ∨
    ∃ stop, Yields program events (.stopped stop) ∧ last = .stopped stop := by
  obtain ⟨first, before, after, rfl, hfirst, hrest⟩ := yields_bind_iff.mp h
  cases first with
  | right a => exact .inl ⟨a, before, after, rfl, hfirst, hrest⟩
  | stopped stop =>
      obtain ⟨rfl, rfl⟩ := yields_ends_iff.mp hrest
      exact .inr ⟨stop, by rwa [List.append_nil], rfl⟩

/-- A sequence that gives a value: so do both of its parts. -/
theorem yields_flatMap_right {program : EngineM T α} {next : α → EngineM T β} {value : β}
    (h : Yields (program.flatMap next) events (.right value)) :
    ∃ a before after, events = before ++ after ∧ Yields program before (.right a) ∧
      Yields (next a) after (.right value) := by
  obtain hrest | ⟨stop, -, hlast⟩ := yields_flatMap h
  · exact hrest
  · cases hlast

theorem yields_run_flatMap {step : Step T α} {next : α → EngineM T β} {last : Ending T β}
    (h : Yields (step.run.flatMap next) events last) :
    (∃ a attrs, (step attrs).1 = .ok a ∧ Yields (next a) events last) ∨
      events = [] ∧ ∃ halt : Halt T, last = .stopped halt.stop := by
  obtain ⟨a, before, after, rfl, hstep, hrest⟩ | ⟨stop, hstep, rfl⟩ := yields_flatMap h
  · obtain ⟨rfl, ⟨value, attrs, hvalue, heq⟩ | ⟨halt, heq⟩⟩ := yields_run hstep
    · cases heq
      exact .inl ⟨a, attrs, hvalue, hrest⟩
    · cases heq
  · obtain ⟨rfl, ⟨value, attrs, hvalue, heq⟩ | ⟨halt, heq⟩⟩ := yields_run hstep
    · cases heq
    · cases heq
      exact .inr ⟨rfl, halt, rfl⟩

theorem yields_run_flatMap_right {step : Step T α} {next : α → EngineM T β} {value : β}
    (h : Yields (step.run.flatMap next) events (.right value)) :
    ∃ a attrs, (step attrs).1 = .ok a ∧ Yields (next a) events (.right value) := by
  obtain hrest | ⟨-, halt, hlast⟩ := yields_run_flatMap h
  · exact hrest
  · cases hlast

theorem letThrough_of_yields {plugins : NgContextualPlugins T} {next : EngineM T β} {value : β}
    (h : Yields ((E.callPluginsBeforeRequestCallback plugins).flatMap fun _ =>
      (E.callPreRoutePlugins plugins).flatMap fun _ =>
      (E.callAccessValidatorPlugins plugins).flatMap fun _ => next) events (.right value)) :
    ∃ checked after, events = checked ++ after ∧ LetThrough plugins checked ∧
      Yields next after (.right value) := by
  obtain ⟨_, hooked, after, rfl, hhooked, hrest⟩ := yields_flatMap_right h
  obtain ⟨_, preRouted, after, rfl, hpreRouted, hrest⟩ := yields_flatMap_right hrest
  obtain ⟨_, accessed, after, rfl, haccessed, hrest⟩ := yields_flatMap_right hrest
  exact ⟨_, after, by simp only [List.append_assoc], ⟨hooked, preRouted, accessed, rfl,
    Chain.passed_of_yields hhooked, Chain.passed_of_yields hpreRouted,
    Chain.passed_of_yields haccessed⟩, hrest⟩

theorem flowPassed_of_yields {route : T.Route} {ctxPlugins plugins : NgContextualPlugins T}
    (h : Yields (E.handleApikeyPluginsFlow route ctxPlugins) events (.right plugins)) :
    FlowPassed E route ctxPlugins events plugins := by
  obtain ⟨apikey, before, after, rfl, hread, hrest⟩ := yields_bind_iff.mp h
  obtain ⟨attrs, rfl, rfl⟩ := yields_perform_iff.mp hread
  cases hapikey : attrs.apiKey with
  | none =>
      rw [hapikey] at hrest
      obtain ⟨rfl, hplugins⟩ := yields_ends_iff.mp hrest
      cases hplugins
      exact .anonymous
  | some apikey =>
      rw [hapikey] at hrest
      cases hflow : apikey.pluginFlow E.planFlow with
      | none =>
          simp only [hflow] at hrest
          obtain ⟨rfl, hplugins⟩ := yields_ends_iff.mp hrest
          cases hplugins
          exact .plain hflow
      | some flow =>
          simp only [hflow] at hrest
          obtain ⟨flowPlugins, found, hfound, hrest⟩ := yields_run_flatMap_right hrest
          cases hfound
          obtain ⟨checked, after, rfl, hchecked, hrest⟩ := letThrough_of_yields hrest
          obtain ⟨left, hleft, rfl⟩ := yields_perform_iff.mp hrest
          cases hleft
          rw [List.append_nil]
          exact .flow hflow hchecked

theorem cleared_of_yields {route : T.Route} {plugins : NgContextualPlugins T}
    (h : Yields E.checks events (.right (route, plugins))) : Cleared E events route plugins := by
  obtain ⟨_, _, _, hrest⟩ := yields_run_flatMap_right h
  obtain ⟨_, validated, after, rfl, hvalidated, hrest⟩ := yields_flatMap_right hrest
  obtain ⟨found, _, _, hrest⟩ := yields_run_flatMap_right hrest
  obtain ⟨_, _, _, hrest⟩ := yields_run_flatMap_right hrest
  obtain ⟨ctxPlugins, attrs, hctx, hrest⟩ := yields_run_flatMap_right hrest
  cases hctx
  obtain ⟨_, _, _, hrest⟩ := yields_run_flatMap_right hrest
  obtain ⟨_, _, _, hrest⟩ := yields_run_flatMap_right hrest
  obtain ⟨_, hooked, after, rfl, hhooked, hrest⟩ := yields_flatMap_right hrest
  obtain ⟨_, _, _, hrest⟩ := yields_run_flatMap_right hrest
  obtain ⟨_, preRouted, after, rfl, hpreRouted, hrest⟩ := yields_flatMap_right hrest
  obtain ⟨_, accessed, after, rfl, haccessed, hrest⟩ := yields_flatMap_right hrest
  obtain ⟨merged, flow, after, rfl, hflow, hrest⟩ := yields_flatMap_right hrest
  obtain ⟨_, _, _, hrest⟩ := yields_run_flatMap_right hrest
  obtain ⟨rfl, hlast⟩ := yields_ends_iff.mp hrest
  cases hlast
  exact ⟨attrs, validated, hooked ++ (preRouted ++ accessed), flow,
    by simp only [List.append_assoc, List.append_nil], Chain.passed_of_yields hvalidated,
    ⟨hooked, preRouted, accessed, rfl, Chain.passed_of_yields hhooked,
      Chain.passed_of_yields hpreRouted, Chain.passed_of_yields haccessed⟩,
    flowPassed_of_yields hflow⟩

/-! ## Tries at a backend -/

/-- The one call a backend gets for a request, however often a plugin asks for it. -/
def Engine.backendCall (E : Engine T) (request : T.Request) (backend : T.Backend) : Event T :=
  .backendCalled ((E.requestBackend request).getD backend) request

theorem yields_callBackendItself {request : T.Request} {backend : T.Backend}
    {last : Ending T T.BackendResponse}
    (h : Yields (E.callBackendItself request backend) events last) :
    events = [E.backendCall request backend] ∧ last ≠ .stopped .pending := by
  simp only [Engine.callBackendItself] at h
  obtain ⟨attrs, rfl, hevents⟩ := yields_perform_iff.mp h
  refine ⟨hevents, ?_⟩
  split <;> nofun

theorem yields_runCaller {request : T.Request} {backend : T.Backend} {run : CallerRun T}
    {last : Ending T T.BackendResponse}
    (h : Yields (Engine.runCaller (E.callBackendItself request backend) run) events last) :
    (∀ event ∈ events, event = E.backendCall request backend) ∧ last ≠ .stopped .pending := by
  induction run generalizing events with
  | done called =>
      have hends : ∃ ending : Ending T T.BackendResponse,
          Engine.runCaller (E.callBackendItself request backend) (.done called) = .ends ending ∧
            ending ≠ .stopped .pending := by
        rcases called with (_ | _) | _ | _ <;> exact ⟨_, rfl, by nofun⟩
      obtain ⟨ending, hending, hpending⟩ := hends
      rw [hending] at h
      obtain ⟨rfl, rfl⟩ := yields_ends_iff.mp h
      exact ⟨List.forall_mem_nil _, hpending⟩
  | works change rest ih =>
      cases h with
      | steps attrs h => exact ih attrs h
  | delegates rest ih =>
      obtain ⟨ending, before, after, rfl, hcall, hrest⟩ := yields_bind_iff.mp h
      rw [(yields_callBackendItself hcall).1]
      exact ⟨List.forall_mem_append.mpr
        ⟨List.forall_mem_singleton.mpr rfl, (ih ending hrest).1⟩, (ih ending hrest).2⟩

/-- A backend is called with the request and nothing else, and the call comes to an end. -/
theorem yields_callBackend {request : T.Request} {backend : T.Backend}
    {plugins : NgContextualPlugins T} {last : Ending T T.BackendResponse}
    (h : Yields (E.callBackend request backend plugins) events last) :
    (∀ event ∈ events, event = E.backendCall request backend) ∧ last ≠ .stopped .pending := by
  rw [Engine.callBackend] at h
  split at h
  next pluginInstance hplugin =>
    obtain ⟨ctx, attrs, -, hrest⟩ | ⟨rfl, halt, rfl⟩ := yields_run_flatMap h
    · exact yields_runCaller hrest
    · exact ⟨List.forall_mem_nil _, by cases halt <;> nofun⟩
  next hplugin =>
    obtain ⟨rfl, hpending⟩ := yields_callBackendItself h
    exact ⟨List.forall_mem_singleton.mpr rfl, hpending⟩

theorem disciplined_attempt (E : Engine T) (route : T.Route) (plugins : NgContextualPlugins T)
    (backend : T.Backend) : Disciplined E (E.attempt route plugins backend) := by
  refine disciplined_flatMap (disciplined_run _) fun _ => disciplined_flatMap ?_ fun request =>
    disciplined_flatMap ?_ fun response => disciplined_flatMap ?_ fun _ =>
    disciplined_flatMap (disciplined_run _) fun _ =>
    disciplined_flatMap (disciplined_run _) fun _ => disciplined_ends _
  · exact disciplined_flatMap (disciplined_run _) fun _ =>
      disciplined_callPlugins (fun _ _ => rfl) _ _ _
  · intro events last h
    obtain ⟨hcalls, hpending⟩ := yields_callBackend h
    have hnone : ∀ event ∈ events, event.refusal E = none := by
      intro event hevent
      rw [hcalls event hevent]
      rfl
    cases last with
    | right value => exact hnone
    | stopped stop => exact .inl ⟨fun hstop => hpending (congrArg _ hstop), hnone⟩
  · exact disciplined_callPlugins (fun _ _ => rfl) _ _ _

/-- A program that calls no backend. -/
def CallsNone (program : EngineM T α) : Prop :=
  ∀ events last, Yields program events last →
    ∀ target request, .backendCalled target request ∉ events

theorem callsNone_ends (last : Ending T α) : CallsNone (Resumption.ends last : EngineM T α) := by
  intro events other h target request
  rw [(yields_ends_iff.mp h).1]
  exact List.not_mem_nil

theorem callsNone_run (step : Step T α) : CallsNone step.run := by
  intro events last h target request
  obtain ⟨attrs, -, rfl⟩ := yields_perform_iff.mp h
  exact List.not_mem_nil

theorem callsNone_flatMap {program : EngineM T α} {next : α → EngineM T β}
    (hprogram : CallsNone program) (hnext : ∀ value, CallsNone (next value)) :
    CallsNone (program.flatMap next) := by
  intro events last h target request hcalled
  obtain ⟨a, before, after, rfl, hfirst, hrest⟩ | ⟨stop, hfirst, -⟩ := yields_flatMap h
  · obtain hcalled | hcalled := List.mem_append.mp hcalled
    · exact hprogram before _ hfirst target request hcalled
    · exact hnext a after last hrest target request hcalled
  · exact hprogram events _ hfirst target request hcalled

theorem callsNone_callPlugins {chain : Chain T Plugin α}
    (hevent : ∀ behind call target request, chain.event behind call ≠ .backendCalled target request)
    (discriminator : Str) (error : String → String → Nat → T.Result)
    (plugins : List (NgPluginWrapper Plugin)) (value : α) :
    CallsNone (chain.callPlugins discriminator error plugins value) := by
  intro events last h target request hcalled
  obtain ⟨calls, verdict, rfl, -⟩ := Chain.yields_callPlugins h
  obtain ⟨behind, call, hcall⟩ := Chain.exists_of_mem_events hcalled
  exact hevent behind call target request hcall.symm

theorem callsNone_callRequestTransformer (E : Engine T) (route : T.Route) (backend : T.Backend)
    (plugins : NgContextualPlugins T) :
    CallsNone (E.callRequestTransformer route backend plugins) :=
  callsNone_flatMap (callsNone_run _) fun _ =>
    callsNone_callPlugins (fun _ _ _ _ h => by cases h) _ _ _ _

/-- What is done with a response calls no backend. -/
theorem callsNone_respond (E : Engine T) (route : T.Route) (plugins : NgContextualPlugins T)
    (backend : T.Backend) (request : T.Request) (response : T.BackendResponse) :
    CallsNone (E.respond route plugins backend request response) :=
  callsNone_flatMap (callsNone_callPlugins (fun _ _ _ _ h => by cases h) _ _ _ _) fun _ =>
    callsNone_flatMap (callsNone_run _) fun _ =>
    callsNone_flatMap (callsNone_run _) fun _ => callsNone_ends _

/-- The transformers of the request are called one after the other, and a backend is only called
with what the last of them handed on. -/
def Transformed (E : Engine T) (route : T.Route) (plugins : NgContextualPlugins T)
    (backend : T.Backend) (events : List (Event T)) : Prop :=
  ∃ attrs calls verdict rest,
    events = (requestTransformers E.rawRequest).events false calls ++ rest ∧
    Linked plugins.transformerPluginsThatTransformsRequest
      (E.otoroshiRequest route backend attrs) calls verdict ∧
    (∀ call ∈ calls, (requestTransformers E.rawRequest).Said plugins.cacheDiscriminator call) ∧
    ∀ target request, .backendCalled target request ∈ rest →
      verdict = .passes request ∧ target = (E.requestBackend request).getD backend

theorem transformed_of_yields {route : T.Route} {plugins : NgContextualPlugins T}
    {backend : T.Backend} {last : Ending T T.Result}
    (h : Yields (E.attempt route plugins backend) events last) :
    events = [] ∨ Transformed E route plugins backend events := by
  obtain ⟨_, _, _, hattempt⟩ | ⟨hnil, -⟩ := yields_run_flatMap h
  swap
  · exact .inl hnil
  obtain ⟨request, before, after, rfl, hrequest, hafter⟩ | ⟨stop, hrequest, -⟩ :=
    yields_flatMap hattempt
  · obtain ⟨_, attrs, hattrs, hchain⟩ := yields_run_flatMap_right hrequest
    cases hattrs
    obtain ⟨calls, rfl, hlinked, hsaid⟩ := Chain.passed_of_yields hchain
    refine .inr ⟨attrs, calls, _, after, rfl, hlinked, hsaid, fun target other hcalled => ?_⟩
    have hcall : Event.backendCalled target other = E.backendCall request backend := by
      obtain ⟨response, called, rest, rfl, hcall, hrest⟩ | ⟨stop, hcall, -⟩ := yields_flatMap hafter
      · obtain hcalled | hcalled := List.mem_append.mp hcalled
        · exact (yields_callBackend hcall).1 _ hcalled
        · exact absurd hcalled (callsNone_respond E route plugins backend request response rest last
            hrest target other)
      · exact (yields_callBackend hcall).1 _ hcalled
    cases hcall
    exact ⟨rfl, rfl⟩
  · have hnone := callsNone_callRequestTransformer E route backend plugins events _ hrequest
    obtain ⟨_, attrs, hattrs, hchain⟩ | ⟨hnil, -⟩ := yields_run_flatMap hrequest
    · cases hattrs
      obtain ⟨calls, verdict, rfl, walk⟩ := Chain.yields_callPlugins hchain
      exact .inr ⟨attrs, calls, verdict, [], (List.append_nil _).symm, walk.linked, walk.said,
        fun target request hcalled => absurd hcalled List.not_mem_nil⟩
    · exact .inl hnil

/-- A try that was carried through: the transformers of the request all passed, the backend was
called with what they handed on, and the result is made of what the transformers of the response
handed on. -/
def Served (E : Engine T) (route : T.Route) (plugins : NgContextualPlugins T)
    (backend : T.Backend) (events : List (Event T)) (result : T.Result) : Prop :=
  ∃ attrs after transformed called responded finalRequest response finalResp,
    events = transformed ++ (called ++ responded) ∧
    (requestTransformers E.rawRequest).Passed plugins.cacheDiscriminator
      plugins.transformerPluginsThatTransformsRequest (E.otoroshiRequest route backend attrs)
      finalRequest transformed ∧
    (∀ event ∈ called, event = E.backendCall finalRequest backend) ∧
    (plugins.backendCallPlugin = none → called.length = 1) ∧
    (responseTransformers response (E.response response)).Passed plugins.cacheDiscriminator
      plugins.transformerPluginsThatTransformsResponse (E.response response) finalResp responded ∧
    (E.streamResponse route backend finalRequest response finalResp after).1 = .ok result

theorem served_of_yields {route : T.Route} {plugins : NgContextualPlugins T} {backend : T.Backend}
    {result : T.Result} (h : Yields (E.attempt route plugins backend) events (.right result)) :
    Served E route plugins backend events result := by
  obtain ⟨_, _, _, hattempt⟩ := yields_run_flatMap_right h
  obtain ⟨finalRequest, transformed, after, rfl, hrequest, hafter⟩ := yields_flatMap_right hattempt
  obtain ⟨_, attrs, hattrs, hrequest⟩ := yields_run_flatMap_right hrequest
  cases hattrs
  obtain ⟨response, called, after, rfl, hcall, hafter⟩ := yields_flatMap_right hafter
  obtain ⟨finalResp, responded, after, rfl, hresponse, hafter⟩ := yields_flatMap_right hafter
  obtain ⟨streamed, later, hstream, hafter⟩ := yields_run_flatMap_right hafter
  obtain ⟨_, _, _, hafter⟩ := yields_run_flatMap_right hafter
  obtain ⟨rfl, hlast⟩ := yields_ends_iff.mp hafter
  cases hlast
  refine ⟨attrs, later, transformed, called, responded, finalRequest, response, finalResp,
    by rw [List.append_nil], Chain.passed_of_yields hrequest, (yields_callBackend hcall).1,
    fun hplugin => ?_, Chain.passed_of_yields hresponse, hstream⟩
  rw [Engine.callBackend, hplugin] at hcall
  rw [(yields_callBackendItself hcall).1, List.length_singleton]

end Pipeline

end Otoroshi
