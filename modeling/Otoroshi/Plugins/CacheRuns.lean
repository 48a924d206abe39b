/-
# Runs of the response cache

Requests come in and responses end in any order, entries expire and may go at any time. An
entry remembers here for which request it was stored, which its text does not say.

`whole_of_meets` says for which runs what is served is what the backend completed for the
same request, and `apart_iff` for which configurations no caller is ever served the response
of another one.
-/

import Otoroshi.Foundation.Run
import Otoroshi.Plugins.ResponseCache

namespace Otoroshi

namespace NgResponseCache

open Credentials

/-- How a body ends: at its end, by a failure of the backend, or because the client leaves. -/
inductive Ending
  | completed
  | failed
  | cancelled
  deriving DecidableEq

structure Entry where
  value : JsValue
  expiresAt : Int
  producedFor : Credentials.RequestHeader

/-- An answer that the backend completed. -/
structure Completed where
  request : Credentials.RequestHeader
  rawResponse : RawResponse
  body : List UInt8
  time : Int

/-- An answer from the cache. -/
structure Served where
  request : Credentials.RequestHeader
  result : Result
  producedFor : Option Credentials.RequestHeader
  time : Int

structure CacheState where
  now : Int
  entries : AList fun _ : Str => Entry := ∅
  /-- the requests that the backend has not answered yet -/
  waiting : List Credentials.RequestHeader := []
  completed : List Completed := []
  served : List Served := []

inductive Event
  | tick (elapsed : Nat)
  | request (req : Credentials.RequestHeader)
  | response (index : Nat) (rawResponse : RawResponse) (chunks : List (List UInt8))
      (ending : Ending)
  | evict (key : Str)

variable (P : CachePlatform) {E : RegexEngine} (pool : Pool E) (route : CachedRoute)

namespace CacheState

variable (state : CacheState)

/-- The entry that a lookup finds. -/
def live (key : Str) : Option Entry :=
  (state.entries.lookup key).filter fun entry => state.now < entry.expiresAt

/-- A request is served or waits for the backend, unless a pattern is wrong. -/
def request (req : Credentials.RequestHeader) : CacheState :=
  match transformRequest P pool route (fun key => (state.live key).map Entry.value) req ∅ with
  | .error _ => state
  | .ok (.ok _) => { state with waiting := req :: state.waiting }
  | .ok (.error result) => { state with
      served := ⟨req, result, (state.live (route.key P req)).map Entry.producedFor, state.now⟩ ::
        state.served }

/-- The body of a response was delivered as far as the chunks go. -/
def deliver (req : Credentials.RequestHeader) (rawResponse : RawResponse)
    (chunks : List (List UInt8)) (ending : Ending) : CacheState :=
  if ending = .completed then
    { state with completed := ⟨req, rawResponse, chunks.flatten, state.now⟩ :: state.completed }
  else state

def store (req : Credentials.RequestHeader) (value : JsValue) : CacheState :=
  { state with
    entries := state.entries.insert (route.key P req) ⟨value, state.now + route.config.ttl, req⟩ }

/-- `transformResponse`, and the end of the body. -/
def respond (req : Credentials.RequestHeader) (rawResponse : RawResponse)
    (chunks : List (List UInt8)) (ending : Ending) : CacheState :=
  match couldCacheResponse P pool req route.config rawResponse with
  | .error _ => state
  | .ok false => state.deliver req rawResponse chunks ending
  | .ok true =>
      match stored P route.config rawResponse chunks with
      | none => state.deliver req rawResponse chunks ending
      | some value => (state.deliver req rawResponse chunks ending).store P route req value

end CacheState

def step : Event → CacheState → CacheState
  | .tick elapsed, state => { state with now := state.now + elapsed }
  | .request req, state => state.request P pool route req
  | .response index rawResponse chunks ending, state =>
      match state.waiting[index]? with
      | none => state
      | some req =>
          { state with waiting := state.waiting.eraseIdx index }.respond P pool route req
            rawResponse chunks ending
  | .evict key, state => { state with entries := state.entries.erase key }

/-! ## What a step does -/

section Steps

variable {P pool route} {state : CacheState} {req : Credentials.RequestHeader}

theorem CacheState.live_eq_some_iff {key : Str} {entry : Entry} :
    state.live key = some entry ↔
      state.entries.lookup key = some entry ∧ state.now < entry.expiresAt := by
  rw [live, Option.filter_eq_some_iff]
  simp

/-- A request changes nothing, waits, or is served an entry of its key. -/
theorem CacheState.request_cases :
    state.request P pool route req = state ∨
    state.request P pool route req = { state with waiting := req :: state.waiting } ∨
    ∃ entry result, filter P pool req route.config none = .ok true ∧
      state.live (route.key P req) = some entry ∧ readEvent entry.value = .ok result ∧
      state.request P pool route req = { state with
        served := ⟨req, result, some entry.producedFor, state.now⟩ :: state.served } := by
  rw [request]
  cases htransform : transformRequest P pool route
      (fun key => (state.live key).map Entry.value) req ∅ with
  | error e => exact .inl rfl
  | ok answer =>
      cases answer with
      | ok headers => exact .inr (.inl rfl)
      | error result =>
          obtain ⟨hfilter, res, hget, hread⟩ :=
            (transformRequest_eq_served_iff P pool route).mp htransform
          obtain ⟨entry, hlive, rfl⟩ := Option.map_eq_some_iff.mp hget
          simp only [hlive, Option.map_some]
          exact .inr (.inr ⟨entry, result, hfilter, rfl, hread, rfl⟩)

/-- A response is only delivered, or also stored. -/
theorem CacheState.respond_cases {rawResponse : RawResponse} {chunks : List (List UInt8)}
    {ending : Ending} :
    state.respond P pool route req rawResponse chunks ending = state ∨
    state.respond P pool route req rawResponse chunks ending =
      state.deliver req rawResponse chunks ending ∨
    (couldCacheResponse P pool req route.config rawResponse = .ok true ∧
      (chunks.flatten.length : Int) < route.config.maxSize ∧
      state.respond P pool route req rawResponse chunks ending =
        (state.deliver req rawResponse chunks ending).store P route req
          (rawResponse.event P chunks.flatten)) := by
  rw [respond]
  cases hcould : couldCacheResponse P pool req route.config rawResponse with
  | error e => exact .inl rfl
  | ok could =>
      cases could with
      | false => exact .inr (.inl rfl)
      | true =>
          rw [stored_eq]
          by_cases hsize : (chunks.flatten.length : Int) < route.config.maxSize
          · rw [if_pos hsize]
            exact .inr (.inr ⟨rfl, hsize, rfl⟩)
          · rw [if_neg hsize]
            exact .inr (.inl rfl)

end Steps

/-! ## A run of three events -/

section Replay

variable {P pool route} {state : CacheState} {req : Credentials.RequestHeader}

theorem CacheState.request_of_live_eq_none {asked : Bool}
    (hfilter : filter P pool req route.config none = .ok asked)
    (hlive : state.live (route.key P req) = none) :
    state.request P pool route req = { state with waiting := req :: state.waiting } := by
  rw [request, transformRequest, cachedResponse, hfilter]
  cases asked with
  | false => rfl
  | true => simp [Except.mapError, hlive]

theorem CacheState.request_of_live {entry : Entry} {result : Result}
    (hfilter : filter P pool req route.config none = .ok true)
    (hlive : state.live (route.key P req) = some entry)
    (hread : readEvent entry.value = .ok result) :
    state.request P pool route req = { state with
      served := ⟨req, result, some entry.producedFor, state.now⟩ :: state.served } := by
  have hget : (state.live (route.key P req)).map Entry.value = some entry.value := by
    rw [hlive]
    rfl
  have htransform : transformRequest P pool route (fun key => (state.live key).map Entry.value)
      req ∅ = .ok (.error result) :=
    (transformRequest_eq_served_iff P pool route).mpr ⟨hfilter, entry.value, hget, hread⟩
  rw [request, htransform, hlive]
  rfl

theorem CacheState.respond_of_could {rawResponse : RawResponse} {chunks : List (List UInt8)}
    {ending : Ending} (hcould : couldCacheResponse P pool req route.config rawResponse = .ok true)
    (hsize : (chunks.flatten.length : Int) < route.config.maxSize) :
    state.respond P pool route req rawResponse chunks ending =
      (state.deliver req rawResponse chunks ending).store P route req
        (rawResponse.event P chunks.flatten) := by
  rw [respond, hcould, stored_eq, if_pos hsize]

/-- The response to a request is served to the next one with its key, however its body
ended. -/
theorem served_of_key_eq {first second : Credentials.RequestHeader} {asked : Bool}
    {rawResponse : RawResponse} {chunks : List (List UInt8)}
    (hfirst : filter P pool first route.config none = .ok asked)
    (hcould : couldCacheResponse P pool first route.config rawResponse = .ok true)
    (hsize : (chunks.flatten.length : Int) < route.config.maxSize) (httl : 0 < route.config.ttl)
    (hsecond : filter P pool second route.config none = .ok true)
    (hkey : route.key P second = route.key P first) (start : Int) (ending : Ending) :
    runAll (step P pool route) { now := start }
        [.request first, .response 0 rawResponse chunks ending, .request second] =
      { now := start
        entries := AList.insert (route.key P first)
          ⟨rawResponse.event P chunks.flatten, start + route.config.ttl, first⟩ ∅
        completed := if ending = .completed then [⟨first, rawResponse, chunks.flatten, start⟩]
          else []
        served := [⟨second, rawResponse.replay P chunks.flatten, some first, start⟩] } := by
  have hnone : CacheState.live { now := start } (route.key P first) = none := rfl
  have hstored : ∀ completed, CacheState.live
      { now := start
        entries := AList.insert (route.key P first)
          ⟨rawResponse.event P chunks.flatten, start + route.config.ttl, first⟩ ∅
        completed } (route.key P second) =
      some ⟨rawResponse.event P chunks.flatten, start + route.config.ttl, first⟩ := by
    intro completed
    rw [CacheState.live_eq_some_iff, hkey]
    exact ⟨AList.lookup_insert _, Int.lt_add_of_pos_right start httl⟩
  have hserved : ∀ completed,
      CacheState.request P pool route
        { now := start
          entries := AList.insert (route.key P first)
            ⟨rawResponse.event P chunks.flatten, start + route.config.ttl, first⟩ ∅
          completed } second =
        { now := start
          entries := AList.insert (route.key P first)
            ⟨rawResponse.event P chunks.flatten, start + route.config.ttl, first⟩ ∅
          completed
          served := [⟨second, rawResponse.replay P chunks.flatten, some first, start⟩] } :=
    fun completed =>
      CacheState.request_of_live hsecond (hstored completed) (readEvent_event P _ _)
  rw [runAll, List.foldl_cons, step, CacheState.request_of_live_eq_none hfirst hnone,
    List.foldl_cons, step, List.foldl_cons, step, List.foldl_nil]
  simp only [List.getElem?_cons_zero, List.eraseIdx_cons_zero]
  rw [CacheState.respond_of_could hcould hsize, CacheState.deliver, CacheState.store]
  by_cases hending : ending = .completed
  · simp only [if_pos hending, hserved]
  · simp only [if_neg hending, hserved]

end Replay

/-! ## Whole answers -/

def SameTarget (first second : Credentials.RequestHeader) : Prop :=
  first.method = second.method ∧ first.theHost = second.theHost ∧
    first.relativeUri = second.relativeUri

/-- Everything served is what the backend completed for the same target, less than `ttl`
before, and so is everything stored, which is not above `maxSize`. -/
structure CacheState.Whole (config : NgResponseCacheConfig) (state : CacheState) : Prop where
  served : ∀ answer ∈ state.served, ∃ whole ∈ state.completed,
    SameTarget whole.request answer.request ∧ whole.time ≤ answer.time ∧
      answer.time < whole.time + config.ttl ∧
      answer.result = whole.rawResponse.replay P whole.body
  entries : ∀ key entry, state.entries.lookup key = some entry → ∃ whole ∈ state.completed,
    entry.value = whole.rawResponse.event P whole.body ∧
      (whole.body.length : Int) ≤ config.maxSize

/-- A request that is looked up finds nothing, or an entry that was stored for its method,
its host and its uri. A response that is stored was completed. -/
def Meets (state : CacheState) : Event → Prop
  | .request req => filter P pool req route.config none = .ok true →
      ∀ entry, state.live (route.key P req) = some entry → SameTarget entry.producedFor req
  | .response index rawResponse chunks ending => ending ≠ .completed →
      ∀ req, state.waiting[index]? = some req →
        couldCacheResponse P pool req route.config rawResponse = .ok true →
          route.config.maxSize ≤ chunks.flatten.length
  | _ => True

/-- An entry is a completed answer to the request that it was stored for. -/
def Entry.Keeps (config : NgResponseCacheConfig) (entry : Entry) (whole : Completed) : Prop :=
  whole.request = entry.producedFor ∧ entry.value = whole.rawResponse.event P whole.body ∧
    entry.expiresAt = whole.time + config.ttl ∧ (whole.body.length : Int) ≤ config.maxSize

/-- What a run keeps: it is whole, and every entry is an answer from the past. -/
structure CacheState.Kept (config : NgResponseCacheConfig) (state : CacheState) : Prop where
  whole : state.Whole P config
  entries : ∀ key entry, state.entries.lookup key = some entry → ∃ whole ∈ state.completed,
    entry.Keeps P config whole ∧ whole.time ≤ state.now

section Kept

variable {P pool route} {state : CacheState} {req : Credentials.RequestHeader}

theorem CacheState.kept_start (config : NgResponseCacheConfig) (start : Int) :
    CacheState.Kept P config { now := start } where
  whole :=
    { served := by simp
      entries := by simp }
  entries := by simp

/-- More completed answers and fewer entries change nothing, nor does time. -/
theorem CacheState.Kept.mono {config : NgResponseCacheConfig} {later : CacheState}
    (h : state.Kept P config) (hnow : state.now ≤ later.now)
    (hentries : ∀ key entry, later.entries.lookup key = some entry →
      state.entries.lookup key = some entry)
    (hcompleted : ∀ whole ∈ state.completed, whole ∈ later.completed)
    (hserved : later.served = state.served) : later.Kept P config where
  whole :=
    { served := by
        intro answer hanswer
        obtain ⟨whole, hmem, hwhole⟩ := h.whole.served answer (hserved ▸ hanswer)
        exact ⟨whole, hcompleted whole hmem, hwhole⟩
      entries := by
        intro key entry hlookup
        obtain ⟨whole, hmem, hwhole⟩ := h.whole.entries key entry (hentries key entry hlookup)
        exact ⟨whole, hcompleted whole hmem, hwhole⟩ }
  entries := by
    intro key entry hlookup
    obtain ⟨whole, hmem, hkeeps, htime⟩ := h.entries key entry (hentries key entry hlookup)
    exact ⟨whole, hcompleted whole hmem, hkeeps, Int.le_trans htime hnow⟩

theorem CacheState.Kept.deliver {config : NgResponseCacheConfig} (h : state.Kept P config)
    (rawResponse : RawResponse) (chunks : List (List UInt8)) (ending : Ending) :
    (state.deliver req rawResponse chunks ending).Kept P config := by
  rw [CacheState.deliver]
  by_cases hending : ending = .completed
  · rw [if_pos hending]
    refine h.mono (Int.le_refl _) (fun _ _ => id) ?_ rfl
    intro whole hmem
    exact List.mem_cons_of_mem _ hmem
  · rwa [if_neg hending]

/-- A completed answer may be stored. -/
theorem CacheState.Kept.store (h : state.Kept P route.config) {whole : Completed}
    (hmem : whole ∈ state.completed) (hrequest : whole.request = req)
    (htime : whole.time = state.now)
    (hsize : (whole.body.length : Int) ≤ route.config.maxSize) :
    (state.store P route req (whole.rawResponse.event P whole.body)).Kept P route.config where
  whole :=
    { served := h.whole.served
      entries := by
        intro key entry hlookup
        by_cases hkey : key = route.key P req
        · rw [hkey, CacheState.store, AList.lookup_insert, Option.some.injEq] at hlookup
          subst hlookup
          exact ⟨whole, hmem, rfl, hsize⟩
        · rw [CacheState.store, AList.lookup_insert_ne hkey] at hlookup
          exact h.whole.entries key entry hlookup }
  entries := by
    intro key entry hlookup
    by_cases hkey : key = route.key P req
    · rw [hkey, CacheState.store, AList.lookup_insert, Option.some.injEq] at hlookup
      subst hlookup
      exact ⟨whole, hmem, ⟨hrequest, rfl, by rw [htime], hsize⟩, Int.le_of_eq htime⟩
    · rw [CacheState.store, AList.lookup_insert_ne hkey] at hlookup
      exact h.entries key entry hlookup

theorem CacheState.Kept.request (h : state.Kept P route.config)
    (hmeets : Meets P pool route state (.request req)) :
    (state.request P pool route req).Kept P route.config := by
  obtain hstate | hstate | ⟨entry, result, hfilter, hlive, hread, hstate⟩ :=
    @CacheState.request_cases P E pool route state req
  · rwa [hstate]
  · rw [hstate]
    exact h.mono (Int.le_refl _) (fun _ _ => id) (fun _ => id) rfl
  · obtain ⟨hlookup, hexpires⟩ := CacheState.live_eq_some_iff.mp hlive
    obtain ⟨whole, hmem, ⟨hrequest, hvalue, hexpiration, -⟩, htime⟩ := h.entries _ _ hlookup
    have hresult : result = whole.rawResponse.replay P whole.body := by
      rw [hvalue, readEvent_event] at hread
      exact (Except.ok.inj hread).symm
    have htarget : SameTarget whole.request req := by
      rw [hrequest]
      exact hmeets hfilter entry hlive
    rw [hstate]
    constructor
    · constructor
      · intro answer hanswer
        cases List.mem_cons.mp hanswer with
        | inl hnew =>
            subst hnew
            exact ⟨whole, hmem, htarget, htime, hexpiration ▸ hexpires, hresult⟩
        | inr hold => exact h.whole.served answer hold
      · exact h.whole.entries
    · exact h.entries

theorem CacheState.Kept.respond (h : state.Kept P route.config) {rawResponse : RawResponse}
    {chunks : List (List UInt8)} {ending : Ending}
    (hmeets : ending ≠ .completed →
      couldCacheResponse P pool req route.config rawResponse = .ok true →
        route.config.maxSize ≤ chunks.flatten.length) :
    (state.respond P pool route req rawResponse chunks ending).Kept P route.config := by
  obtain hstate | hstate | ⟨hcould, hsize, hstate⟩ :=
    @CacheState.respond_cases P E pool route state req rawResponse chunks ending
  · rwa [hstate]
  · rw [hstate]
    exact h.deliver rawResponse chunks ending
  · rw [hstate]
    have hcompleted : ending = .completed := by
      by_contra hending
      have hlarge := hmeets hending hcould
      omega
    have hdelivered : (⟨req, rawResponse, chunks.flatten, state.now⟩ : Completed) ∈
        (state.deliver req rawResponse chunks ending).completed := by
      rw [CacheState.deliver, if_pos hcompleted]
      exact List.mem_cons_self
    have hnow : (state.deliver req rawResponse chunks ending).now = state.now := by
      rw [CacheState.deliver, if_pos hcompleted]
    have hstored := (h.deliver rawResponse chunks ending).store hdelivered rfl hnow.symm
      (Int.le_of_lt hsize)
    exact hstored

theorem CacheState.Kept.step (h : state.Kept P route.config) {event : Event}
    (hmeets : Meets P pool route state event) :
    (step P pool route event state).Kept P route.config := by
  cases event with
  | tick elapsed =>
      exact h.mono (Int.le_add_of_nonneg_right (Int.natCast_nonneg elapsed)) (fun _ _ => id)
        (fun _ => id) rfl
  | request req => exact h.request hmeets
  | response index rawResponse chunks ending =>
      rw [NgResponseCache.step]
      cases hwaiting : state.waiting[index]? with
      | none => exact h
      | some req =>
          have hwaits : CacheState.Kept P route.config
              { state with waiting := state.waiting.eraseIdx index } :=
            h.mono (Int.le_refl _) (fun _ _ => id) (fun _ => id) rfl
          exact hwaits.respond fun hending => hmeets hending req hwaiting
  | evict key =>
      refine h.mono (Int.le_refl _) ?_ (fun _ => id) rfl
      intro other entry hlookup
      by_cases hkey : other = key
      · rw [hkey, NgResponseCache.step, AList.lookup_erase] at hlookup
        cases hlookup
      · rwa [NgResponseCache.step, AList.lookup_erase_ne hkey] at hlookup

end Kept

/-- Answers from the cache are whole in every run in which a request only finds entries of
its own target, and in which no body is cut short that is small enough to be stored. -/
theorem whole_of_meets (start : Int) (events : List Event)
    (h : Along (step P pool route) (fun state event _ => Meets P pool route state event)
      { now := start } events) :
    (runAll (step P pool route) { now := start } events).Whole P route.config := by
  have hkept : CacheState.Kept P route.config
      (runAll (step P pool route) { now := start } events) :=
    runAll_invariant (fun _ _ _ hkept hmeets => hkept.step hmeets) h
      (CacheState.kept_start route.config start)
  exact hkept.whole

/-- A platform for plain texts. -/
def plainPlatform : CachePlatform where
  toLowerCase s := s.map Char.toLower
  decodeBase64 _ := none
  decodeJwt _ := none
  digit := asciiDigit

def plainRoute : CachedRoute where
  storageRoot := "otoroshi".toList
  id := "route".toList

def plainRequest (headers : List (Str × Str)) : Credentials.RequestHeader where
  method := "GET".toList
  theProtocol := "https".toList
  theHost := "api.oto.tools".toList
  relativeUri := "/".toList
  headers

def plainPool : Pool starEngine := fun text => RegexPool.Call.ownResult starEngine (.regex text)

/-- A request, its response, and another request. -/
def plainRun (first second : Credentials.RequestHeader) (chunks : List (List UInt8))
    (ending : Ending) : List Event :=
  [.request first, .response 0 ⟨200, ∅⟩ chunks ending, .request second]

/-- A body that comes in two chunks is served as a whole. -/
theorem whole_of_meets_example :
    (runAll (step plainPlatform plainPool plainRoute) { now := 0 }
        (plainRun (plainRequest []) (plainRequest []) [[1], [2]] .completed)).served.map
      (fun answer => answer.result.body) = [[1, 2]] ∧
    (runAll (step plainPlatform plainPool plainRoute) { now := 0 }
        (plainRun (plainRequest []) (plainRequest []) [[1], [2]] .completed)).Whole plainPlatform
      plainRoute.config := by
  constructor
  · rw [plainRun, @served_of_key_eq plainPlatform starEngine plainPool plainRoute
      (plainRequest []) (plainRequest []) true ⟨200, ∅⟩ [[1], [2]] rfl rfl (by decide)
      (by decide) rfl rfl 0 .completed]
    rfl
  · apply whole_of_meets
    constructor
    · intro _ entry hlive
      cases hlive
    constructor
    · intro hending
      contradiction
    constructor
    · intro _ entry hlive
      cases hlive
      exact ⟨rfl, rfl, rfl⟩
    · trivial

/-- The beginning of a body whose rest never came is served as if it was all. -/
theorem exists_interrupted_served :
    ¬ ∀ (P : CachePlatform) (E : RegexEngine) (pool : Pool E) (route : CachedRoute)
      (start : Int) (events : List Event),
      (runAll (step P pool route) { now := start } events).Whole P route.config := by
  intro h
  have hwhole := h plainPlatform starEngine plainPool plainRoute 0
    (plainRun (plainRequest []) (plainRequest []) [[1]] .failed)
  rw [plainRun, @served_of_key_eq plainPlatform starEngine plainPool plainRoute
    (plainRequest []) (plainRequest []) true ⟨200, ∅⟩ [[1]] rfl rfl (by decide) (by decide) rfl
    rfl 0 .failed] at hwhole
  obtain ⟨whole, hmem, -⟩ := hwhole.served _ List.mem_cons_self
  cases hmem

/-! ## One caller and another -/

/-- How the parts of a request are read: the cookies from the header, and the parameters
from the uri. -/
structure RequestParser where
  cookies : Str → List Cookie
  queryString : Str → List (Str × List Str)

structure Parsed (parser : RequestParser) (req : Credentials.RequestHeader) : Prop where
  cookies : req.cookies =
    ((req.header P.toTextPlatform "Cookie".toList).map parser.cookies).getD []
  queryString : req.queryString = parser.queryString req.relativeUri

/-- The requests of a run. -/
def Event.request? : Event → Option Credentials.RequestHeader
  | .request req => some req
  | _ => none

variable {C : Type} (credential : Credentials.RequestHeader → Option C)

/-- What was served was produced for the same credential, where both requests have one. -/
def Served.Apart (answer : Served) : Prop :=
  ∀ producer mine other, answer.producedFor = some producer →
    credential producer = some other → credential answer.request = some mine → other = mine

/-- The response to the first request may be stored, and the second one looks it up. -/
def Meet (first second : Credentials.RequestHeader) : Prop :=
  (∃ status, filter P pool first route.config (some status) = .ok true) ∧
    filter P pool second route.config none = .ok true ∧
    route.key P second = route.key P first

/-- No two requests that meet in the cache have different credentials. -/
def Unmixed (parser : RequestParser) : Prop :=
  0 < route.config.maxSize → 0 < route.config.ttl →
    ∀ first second, Parsed P parser first → Parsed P parser second →
      Meet P pool route first second →
        ∀ mine other, credential first = some other → credential second = some mine → other = mine

/-- What is known of the requests in a state. -/
structure CacheState.Traced (parser : RequestParser) (state : CacheState) : Prop where
  waiting : ∀ req ∈ state.waiting, Parsed P parser req
  entries : ∀ key entry, state.entries.lookup key = some entry →
    Parsed P parser entry.producedFor ∧ key = route.key P entry.producedFor ∧
      entry.expiresAt ≤ state.now + route.config.ttl ∧ 0 < route.config.maxSize ∧
      ∃ status, filter P pool entry.producedFor route.config (some status) = .ok true
  served : ∀ answer ∈ state.served, ∃ producer, answer.producedFor = some producer ∧
    Parsed P parser producer ∧ Parsed P parser answer.request ∧
      0 < route.config.maxSize ∧ 0 < route.config.ttl ∧
      Meet P pool route producer answer.request

section Traced

variable {P pool route} {parser : RequestParser} {state : CacheState}
  {req : Credentials.RequestHeader}

theorem filter_of_couldCacheResponse {config : NgResponseCacheConfig} {rawResponse : RawResponse}
    (h : couldCacheResponse P pool req config rawResponse = .ok true) :
    filter P pool req config (some rawResponse.status) = .ok true := by
  obtain ⟨answer, hfilter, h⟩ := bind_eq_ok_iff.mp h
  cases answer with
  | false => cases h
  | true => exact mapError_eq_ok_iff.mp hfilter

theorem CacheState.Traced.deliver (h : state.Traced P pool route parser)
    (rawResponse : RawResponse) (chunks : List (List UInt8)) (ending : Ending) :
    (state.deliver req rawResponse chunks ending).Traced P pool route parser := by
  rw [CacheState.deliver]
  by_cases hending : ending = .completed
  · rw [if_pos hending]
    exact ⟨h.waiting, h.entries, h.served⟩
  · rwa [if_neg hending]

theorem CacheState.Traced.store (h : state.Traced P pool route parser)
    (hparsed : Parsed P parser req) (hsize : 0 < route.config.maxSize) {status : Int32}
    (hfilter : filter P pool req route.config (some status) = .ok true) (value : JsValue) :
    (state.store P route req value).Traced P pool route parser where
  waiting := h.waiting
  entries := by
    intro key entry hlookup
    by_cases hkey : key = route.key P req
    · rw [hkey, CacheState.store, AList.lookup_insert, Option.some.injEq] at hlookup
      subst hlookup
      exact ⟨hparsed, hkey, Int.le_refl _, hsize, status, hfilter⟩
    · rw [CacheState.store, AList.lookup_insert_ne hkey] at hlookup
      exact h.entries key entry hlookup
  served := h.served

theorem CacheState.Traced.respond (h : state.Traced P pool route parser)
    (hparsed : Parsed P parser req) (rawResponse : RawResponse) (chunks : List (List UInt8))
    (ending : Ending) :
    (state.respond P pool route req rawResponse chunks ending).Traced P pool route parser := by
  obtain hstate | hstate | ⟨hcould, hsize, hstate⟩ :=
    @CacheState.respond_cases P E pool route state req rawResponse chunks ending
  · rwa [hstate]
  · rw [hstate]
    exact h.deliver rawResponse chunks ending
  · rw [hstate]
    exact (h.deliver rawResponse chunks ending).store hparsed (by omega)
      (filter_of_couldCacheResponse hcould) _

theorem CacheState.Traced.request (h : state.Traced P pool route parser)
    (hparsed : Parsed P parser req) :
    (state.request P pool route req).Traced P pool route parser := by
  obtain hstate | hstate | ⟨entry, result, hfilter, hlive, hread, hstate⟩ :=
    @CacheState.request_cases P E pool route state req
  · rwa [hstate]
  · rw [hstate]
    constructor
    · intro waiting hmem
      cases List.mem_cons.mp hmem with
      | inl hnew => exact hnew ▸ hparsed
      | inr hold => exact h.waiting waiting hold
    · exact h.entries
    · exact h.served
  · obtain ⟨hlookup, hexpires⟩ := CacheState.live_eq_some_iff.mp hlive
    obtain ⟨hproducer, hkey, hexpiration, hsize, hstored⟩ := h.entries _ _ hlookup
    rw [hstate]
    constructor
    · exact h.waiting
    · exact h.entries
    · intro answer hanswer
      cases List.mem_cons.mp hanswer with
      | inl hnew =>
          subst hnew
          exact ⟨entry.producedFor, rfl, hproducer, hparsed, hsize, by omega, hstored, hfilter,
            hkey⟩
      | inr hold => exact h.served answer hold

theorem CacheState.Traced.step (h : state.Traced P pool route parser) {event : Event}
    (hparsed : ∀ req, event.request? = some req → Parsed P parser req) :
    (step P pool route event state).Traced P pool route parser := by
  cases event with
  | tick elapsed =>
      constructor
      · exact h.waiting
      · intro key entry hlookup
        obtain ⟨hproducer, hkey, hexpiration, hrest⟩ := h.entries key entry hlookup
        have hlater : entry.expiresAt ≤ state.now + elapsed + route.config.ttl := by omega
        exact ⟨hproducer, hkey, hlater, hrest⟩
      · exact h.served
  | request req => exact h.request (hparsed req rfl)
  | response index rawResponse chunks ending =>
      rw [NgResponseCache.step]
      cases hwaiting : state.waiting[index]? with
      | none => exact h
      | some req =>
          have hreq := h.waiting req (List.mem_of_getElem? hwaiting)
          have hwaits : CacheState.Traced P pool route parser
              { state with waiting := state.waiting.eraseIdx index } :=
            ⟨fun req hmem => h.waiting req (List.mem_of_mem_eraseIdx hmem), h.entries, h.served⟩
          exact hwaits.respond hreq rawResponse chunks ending
  | evict key =>
      constructor
      · exact h.waiting
      · intro other entry hlookup
        by_cases hkey : other = key
        · rw [hkey, NgResponseCache.step, AList.lookup_erase] at hlookup
          cases hlookup
        · rw [NgResponseCache.step, AList.lookup_erase_ne hkey] at hlookup
          exact h.entries other entry hlookup
      · exact h.served

theorem CacheState.traced_runAll {events : List Event}
    (h : ∀ event ∈ events, ∀ req, event.request? = some req → Parsed P parser req)
    (start : Int) :
    (runAll (step P pool route) { now := start } events).Traced P pool route parser := by
  have hstart : CacheState.Traced P pool route parser { now := start } :=
    ⟨by simp, by simp, by simp⟩
  exact runAll_invariant (fun _ _ _ htraced hparsed => htraced.step hparsed) (along_of_forall h)
    hstart

/-- A response without headers is stored whenever its status is one that is. -/
theorem couldCacheResponse_of_filter {config : NgResponseCacheConfig} {status : Int32}
    (h : filter P pool req config (some status) = .ok true) :
    couldCacheResponse P pool req config ⟨status, ∅⟩ = .ok true := by
  rw [couldCacheResponse, h]
  rfl

end Traced

/-- In every run every answer from the cache was produced for the credential of the request
that gets it, if and only if no two requests that meet in the cache have different ones. -/
theorem apart_iff (parser : RequestParser) :
    (∀ (start : Int) (events : List Event),
      (∀ event ∈ events, ∀ req, event.request? = some req → Parsed P parser req) →
        ∀ answer ∈ (runAll (step P pool route) { now := start } events).served,
          answer.Apart credential) ↔
      Unmixed P pool route credential parser := by
  constructor
  · intro h hsize httl first second hfirst hsecond hmeet mine other hother hmine
    obtain ⟨⟨status, hstatus⟩, hlookup, hkey⟩ := hmeet
    obtain ⟨asked, hasked⟩ := filter_of_status P pool hstatus none
    have hrun := @served_of_key_eq P E pool route first second asked ⟨status, ∅⟩ [] hasked
      (couldCacheResponse_of_filter hstatus) hsize httl hlookup hkey 0 .completed
    have hanswer := h 0 [.request first, .response 0 ⟨status, ∅⟩ [] .completed, .request second]
      (by simpa [Event.request?] using ⟨hfirst, hsecond⟩)
    rw [hrun] at hanswer
    exact hanswer _ List.mem_cons_self first mine other rfl hother hmine
  · intro h start events hparsed answer hanswer producer mine other hproducer hother hmine
    obtain ⟨traced, htraced, hfirst, hsecond, hsize, httl, hmeet⟩ :=
      (CacheState.traced_runAll hparsed start).served answer hanswer
    rw [htraced, Option.some.injEq] at hproducer
    subst hproducer
    exact h hsize httl _ _ hfirst hsecond hmeet mine other hother hmine

/-- The id and the secret in the two headers for them. -/
def callerRequest (clientId : Str) : Credentials.RequestHeader :=
  plainRequest [("Otoroshi-Client-Id".toList, clientId),
    ("Otoroshi-Client-Secret".toList, "secret".toList)]

/-- The response to one client is served to another one, as the header that says who calls is
none of the two that the cache looks at. -/
theorem exists_shared_answer :
    ¬ ∀ (P : CachePlatform) (E : RegexEngine) (pool : Pool E) (route : CachedRoute)
      (gateway : Gateway) (constraints : ApiKeyConstraints) (parser : RequestParser)
      (start : Int) (events : List Event),
      (∀ event ∈ events, ∀ req, event.request? = some req → Parsed P parser req) →
        ∀ answer ∈ (runAll (step P pool route) { now := start } events).served,
          answer.Apart fun req =>
            ((detectApikeyTuple P.toTextPlatform gateway req constraints
              ({} : Credentials.RequestAttrs Unit Unit)).toOption.join.map
                ApikeyTuple.clientId).join := by
  intro h
  have hparsed : ∀ clientId,
      Parsed plainPlatform ⟨fun _ => [], fun _ => []⟩ (callerRequest clientId) :=
    fun clientId => ⟨rfl, rfl⟩
  have hanswer := h plainPlatform starEngine plainPool plainRoute {} {}
    ⟨fun _ => [], fun _ => []⟩ 0
    (plainRun (callerRequest "alice".toList) (callerRequest "bob".toList) [] .completed)
    (by simpa [plainRun, Event.request?] using ⟨hparsed _, hparsed _⟩)
  rw [plainRun, @served_of_key_eq plainPlatform starEngine plainPool plainRoute
    (callerRequest "alice".toList) (callerRequest "bob".toList) true ⟨200, ∅⟩ [] rfl rfl
    (by decide) (by decide) rfl rfl 0 .completed] at hanswer
  have hsame := hanswer _ List.mem_cons_self (callerRequest "alice".toList) "bob".toList
    "alice".toList rfl (by decide) (by decide)
  exact absurd hsame (by decide)

end NgResponseCache

end Otoroshi
