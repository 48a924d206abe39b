/-
# Restrictions and their cache

An api key can be restricted to some paths, or kept from some. What a request may do depends on its
method, domain and path, on the route and on the key. The answer is kept in a cache with the
response that goes with it, under a text that is made of some of these with colons between them.

So an answer can be the answer of another request. `answers_eq_fresh` says when it makes no
difference: any two calls with the same text are alike in what the lists read, and, if they are
blocked, in what the response is made of.
-/

import Otoroshi.Apikeys.Lookup
import Otoroshi.Foundation.Stateful
import Otoroshi.Utils.RegexPool

namespace Otoroshi

open Stateful

/-! ## Calls -/

/-- What the restrictions read of a route. -/
structure RouteScope where
  id : Str
  groups : List Str
  apiRef : Option Entities.RouteApiRef := none

/-- A route, with the rest of it. -/
structure RestrictedRoute (Route : Type) extends RouteScope where
  rest : Route

/-- A service, with the rest of it. -/
structure RestrictedService (Service : Type) where
  id : Str
  groups : List Str
  rest : Service

/-- What is read of `NgRoute.fromServiceDescriptor`, which refers to no api. -/
def RestrictedService.toScope {Service : Type} (service : RestrictedService Service) :
    RouteScope where
  id := service.id
  groups := service.groups

/-- A request, with its headers and the rest of it. -/
structure RestrictedRequest (Request : Type) where
  method : Str
  theDomain : Str
  thePath : Str
  rest : Request

inductive RestrictionStatus
  | notFound
  | forbidden
  deriving DecidableEq

/-- The arguments of `Errors.craftResponseResult`. -/
structure ErrorResponseArgs (Route Service Request Attrs : Type) where
  message : Str
  status : RestrictionStatus
  req : RestrictedRequest Request
  maybeDescriptor : Option (RestrictedService Service)
  maybeCauseId : Option Str
  emptyBody : Bool
  attrs : Attrs
  maybeRoute : Option (RestrictedRoute Route)

/-- The arguments for a status. -/
def ErrorResponseArgs.ofStatus {Route Service Request Attrs : Type} (status : RestrictionStatus)
    (req : RestrictedRequest Request) (maybeDescriptor : Option (RestrictedService Service))
    (attrs : Attrs) (maybeRoute : Option (RestrictedRoute Route)) :
    ErrorResponseArgs Route Service Request Attrs where
  message := match status with
    | .notFound => "Not Found".toList
    | .forbidden => "Forbidden".toList
  status
  req
  maybeDescriptor
  maybeCauseId := match status with
    | .notFound => some "errors.not.found".toList
    | .forbidden => some "errors.forbidden".toList
  emptyBody := true
  attrs
  maybeRoute

/-- What the restrictions take from elsewhere: the pool of compiled patterns, the lower casing of
the platform, and the responses. -/
structure RestrictionsPlatform where
  engine : RegexEngine
  pool : Pool engine
  toLowerCase : Str → Str
  Route : Type
  Service : Type
  Request : Type
  Attrs : Type
  Throttling : Type
  Plugins : Type
  Response : Type
  /-- but for the id of the error, which is new each time -/
  craftResponseResult : ErrorResponseArgs Route Service Request Attrs → Response

/-- The arguments of `handleRestrictions`. -/
structure RestrictionsCall (P : RestrictionsPlatform) where
  id : Str
  descriptor : Option (RestrictedService P.Service)
  route : Option (RestrictedRoute P.Route)
  apk : Option (Entities.ApiKey P.Throttling P.Plugins)
  req : RestrictedRequest P.Request
  attrs : P.Attrs

inductive RestrictionsException
  | regex (e : JvmException)
  /-- `None.get` -/
  | noSuchElement
  deriving DecidableEq

/-- Whether a request is restricted, and its response if it is. -/
inductive RestrictionsAnswer (Response : Type)
  | passes
  | blocked (response : Response)
  deriving DecidableEq

namespace RestrictionsCall

variable {P : RestrictionsPlatform} (call : RestrictionsCall P)

def rteId : Str := ((call.route.map (·.id)).or (call.descriptor.map (·.id))).getD "none".toList

/-- The text an answer is kept under. -/
def key : Str :=
  call.id ++ ':' :: ((call.apk.map (·.clientId)).getD "none".toList ++
    ':' :: (call.rteId ++ ':' :: (call.req.method ++ ':' :: (call.req.theDomain ++
      ':' :: call.req.thePath))))

/-- The route the restrictions are checked for. -/
def scope : Option RouteScope :=
  (call.route.map (·.toRouteScope)).or (call.descriptor.map RestrictedService.toScope)

/-- The arguments of the response. -/
def errorArgs (status : RestrictionStatus) :
    ErrorResponseArgs P.Route P.Service P.Request P.Attrs :=
  .ofStatus status call.req call.descriptor call.attrs call.route

/-- The entity of a restriction, against the key and the route of the call. -/
def acceptsEntity (rte : RouteScope) : Option EntityIdentifier → Bool
  | some (.serviceGroup id) =>
      (call.apk.any fun apk => apk.authorizedEntities.contains (.serviceGroup id)) &&
        rte.groups.contains id
  | some (.serviceDescriptor id) => rte.id == id
  | some (.route id) => rte.id == id
  | some (.api id) => rte.apiRef.any fun apiRef => apiRef.id == id
  | none => true
  | _ => false

end RestrictionsCall

/-! ## The lists -/

namespace Restrictions

variable {P : RestrictionsPlatform}

/-- `filter`, with a test that may throw. -/
def filterPaths {ε : Type} (test : RestrictionPath → Except ε Bool) :
    List RestrictionPath → Except ε (List RestrictionPath)
  | [] => .ok []
  | p :: paths => do
      let kept ← test p
      let rest ← filterPaths test paths
      return if kept then p :: rest else rest

/-- A pattern that does not begin with a slash is for the domain and the path. -/
def matchesPath (call : RestrictionsCall P) (p : RestrictionPath) :
    Except RestrictionsException Bool :=
  (poolMatches P.pool p.path
    (if startsWith p.path "/".toList then call.req.thePath
      else call.req.theDomain ++ call.req.thePath)).mapError .regex

/-- The restrictions for the method of the call. -/
def forMethod (call : RestrictionsCall P) (paths : List RestrictionPath) : List RestrictionPath :=
  let cleanMethod := P.toLowerCase (trim call.req.method)
  (paths.map fun p => { p with method := P.toLowerCase (trim p.method) }).filter fun p =>
    p.method == "*".toList || p.method == cleanMethod

/-- `matches`. -/
def matchesAny (call : RestrictionsCall P) (rte : RouteScope) (paths : List RestrictionPath) :
    Except RestrictionsException Bool := do
  let found ← filterPaths (matchesPath call) (forMethod call paths)
  return found.any fun p => call.acceptsEntity rte p.authorizedEntity

variable (restrictions : Restrictions) (call : RestrictionsCall P) (rte : RouteScope)

def isAllowed : Except RestrictionsException Bool :=
  if restrictions.enabled then matchesAny call rte restrictions.allowed else .ok false

def isNotAllowed : Except RestrictionsException Bool :=
  if restrictions.enabled then (matchesAny call rte restrictions.allowed).map (!·) else .ok false

def isNotFound : Except RestrictionsException Bool :=
  if restrictions.enabled then matchesAny call rte restrictions.notFound else .ok false

def isForbidden : Except RestrictionsException Bool :=
  if restrictions.enabled then matchesAny call rte restrictions.forbidden else .ok false

/-- `cond && test`, where the test may throw. -/
def andThen {ε : Type} (cond : Bool) (test : Except ε Bool) : Except ε Bool :=
  if cond then test else .ok false

/-- What is done with the call. -/
def statusOf : Except RestrictionsException (Option RestrictionStatus) := do
  if restrictions.allowLast then
    if ← restrictions.isNotFound call rte then return some .notFound
    else if ← restrictions.isForbidden call rte then return some .forbidden
    else return none
  else
    let allowed ← restrictions.isAllowed call rte
    if ← andThen (!allowed) (restrictions.isNotFound call rte) then return some .notFound
    else if ← andThen (!allowed) (restrictions.isForbidden call rte) then return some .forbidden
    else if ← restrictions.isNotAllowed call rte then return some .notFound
    else return none

/-- What the cache computes for a text it does not have. -/
def compute : Except RestrictionsException (RestrictionsAnswer P.Response) :=
  match call.scope with
  | none => .error .noSuchElement
  | some rte => (restrictions.statusOf call rte).map fun status =>
      match status with
      | none => .passes
      | some status => .blocked (P.craftResponseResult (call.errorArgs status))

/-! ## The cache -/

/-- What the restrictions remember: the answers that were computed so far, and a source of choices
for the lookups. -/
structure State (P : RestrictionsPlatform) where
  log : List (Str × RestrictionsAnswer P.Response)
  choices : Nat → Option Nat
  lookups : Nat

/-- Restrictions that were just read. -/
def State.fresh (choices : Nat → Option Nat) : State P where
  log := []
  choices
  lookups := 0

/-- `Caches.bounded`. -/
def cache : Cache (State P) Str (RestrictionsAnswer P.Response) where
  log state := state.log
  record key value state := { state with log := (key, value) :: state.log }
  choice state := state.choices state.lookups
  tick state := { state with lookups := state.lookups + 1 }

/-- `handleRestrictions`. -/
def handleRestrictions :
    Stateful (State P) RestrictionsException (RestrictionsAnswer P.Response) :=
  if restrictions.enabled then
    cache.get call.key (ofExcept (restrictions.compute call))
  else pure .passes

/-- The answer with an empty cache. -/
def freshAnswer : Except RestrictionsException (RestrictionsAnswer P.Response) :=
  (restrictions.handleRestrictions call (State.fresh fun _ => none)).1

/-- The answers to calls one after the other. -/
def answers : State P → List (RestrictionsCall P) →
    List (Except RestrictionsException (RestrictionsAnswer P.Response))
  | _, [] => []
  | state, call :: calls =>
      (restrictions.handleRestrictions call state).1 ::
        answers (restrictions.handleRestrictions call state).2 calls

/-! ## What an answer depends on -/

/-- The restrictions of all lists. -/
def allPaths : List RestrictionPath :=
  restrictions.allowed ++ (restrictions.forbidden ++ restrictions.notFound)

/-- What the lists read of a call: its method, domain and path, and for each restriction whether the
key and the route are those of its entity. -/
def reads : Option (Str × Str × Str × List Bool) :=
  call.scope.map fun rte => (call.req.method, call.req.theDomain, call.req.thePath,
    restrictions.allPaths.map fun p => call.acceptsEntity rte p.authorizedEntity)

/-- The lists block the call. -/
def Blocks : Prop :=
  if restrictions.allowLast then
    restrictions.isNotFound call rte = .ok true ∨
      restrictions.isNotFound call rte = .ok false ∧ restrictions.isForbidden call rte = .ok true
  else
    restrictions.isAllowed call rte = .ok false ∧
      (restrictions.isNotFound call rte = .ok true ∨
        restrictions.isNotFound call rte = .ok false ∧
          ∃ forbidden, restrictions.isForbidden call rte = .ok forbidden)

/-- The lists read the same of both calls, and if they block the first one, the responses are made
of the same. -/
structure Alike (first second : RestrictionsCall P) : Prop where
  reads : restrictions.reads first = restrictions.reads second
  response : ∀ rte, first.scope = some rte → restrictions.Blocks first rte →
    first.req = second.req ∧ first.descriptor = second.descriptor ∧
      first.attrs = second.attrs ∧ first.route = second.route

/-- Calls that are kept under the same text are alike. -/
def Separates (calls : List (RestrictionsCall P)) : Prop :=
  restrictions.enabled = true → ∀ first ∈ calls, ∀ second ∈ calls,
    first.key = second.key → restrictions.Alike first second

section Depends

variable {restrictions call rte} {call' : RestrictionsCall P} {rte' : RouteScope}

theorem any_filterPaths_congr {ε : Type} (test : RestrictionPath → Except ε Bool)
    {f g : RestrictionPath → Bool} {paths : List RestrictionPath}
    (h : ∀ p ∈ paths, f p = g p) :
    (filterPaths test paths).map (·.any f) = (filterPaths test paths).map (·.any g) := by
  induction paths with
  | nil => rfl
  | cons p paths ih =>
      rw [List.forall_mem_cons] at h
      have hrest := ih h.2
      rw [filterPaths]
      cases test p with
      | error e => rfl
      | ok kept =>
          cases hfound : filterPaths test paths with
          | error e => rfl
          | ok found =>
              rw [hfound, map_ok, map_ok, Except.ok.injEq] at hrest
              cases kept with
              | false => exact congrArg Except.ok hrest
              | true =>
                  refine congrArg Except.ok ?_
                  simp only [if_true, List.any_cons, h.1, hrest]

theorem matchesAny_eq (paths : List RestrictionPath) :
    matchesAny call rte paths =
      (filterPaths (matchesPath call) (forMethod call paths)).map fun found =>
        found.any fun p => call.acceptsEntity rte p.authorizedEntity := by
  rw [matchesAny]
  cases filterPaths (matchesPath call) (forMethod call paths) <;> rfl

/-- A list says the same of calls that are alike for it. -/
theorem matchesAny_congr {paths : List RestrictionPath}
    (hmethod : call.req.method = call'.req.method)
    (hdomain : call.req.theDomain = call'.req.theDomain)
    (hpath : call.req.thePath = call'.req.thePath)
    (hentity : ∀ p ∈ paths, call.acceptsEntity rte p.authorizedEntity =
      call'.acceptsEntity rte' p.authorizedEntity) :
    matchesAny call rte paths = matchesAny call' rte' paths := by
  have htest : (matchesPath call : RestrictionPath → _) = matchesPath call' := by
    funext p
    rw [matchesPath, matchesPath, hdomain, hpath]
  have hfor : forMethod call paths = forMethod call' paths := by
    rw [forMethod, forMethod, hmethod]
  rw [matchesAny_eq, matchesAny_eq, htest, hfor]
  refine any_filterPaths_congr _ fun p hp => ?_
  obtain ⟨q, hq, rfl⟩ := List.mem_map.mp (List.mem_of_mem_filter hp)
  exact hentity q hq

theorem statusOf_congr (h : restrictions.reads call = restrictions.reads call')
    (hrte : call.scope = some rte) (hrte' : call'.scope = some rte') :
    restrictions.statusOf call rte = restrictions.statusOf call' rte' := by
  rw [reads, reads, hrte, hrte', Option.map_some, Option.map_some, Option.some.injEq,
    Prod.mk.injEq, Prod.mk.injEq, Prod.mk.injEq] at h
  obtain ⟨hmethod, hdomain, hpath, hentities⟩ := h
  have hentity := List.map_inj_left.mp hentities
  rw [allPaths] at hentity
  have hallowed := matchesAny_congr hmethod hdomain hpath fun p hp =>
    hentity p (List.mem_append_left _ hp)
  have hforbidden := matchesAny_congr hmethod hdomain hpath fun p hp =>
    hentity p (List.mem_append_right _ (List.mem_append_left _ hp))
  have hnotFound := matchesAny_congr hmethod hdomain hpath fun p hp =>
    hentity p (List.mem_append_right _ (List.mem_append_right _ hp))
  simp only [statusOf, isAllowed, isNotAllowed, isNotFound, isForbidden, hallowed, hforbidden,
    hnotFound]

theorem isNotAllowed_eq (henabled : restrictions.enabled = true) :
    restrictions.isNotAllowed call rte = (restrictions.isAllowed call rte).map (!·) := by
  rw [isNotAllowed, isAllowed, if_pos henabled, if_pos henabled]

/-- What is blocked is what has a status. -/
theorem blocks_of_statusOf (henabled : restrictions.enabled = true) {status : RestrictionStatus}
    (h : restrictions.statusOf call rte = .ok (some status)) : restrictions.Blocks call rte := by
  have hnotAllowed : restrictions.isNotAllowed call rte = _ := isNotAllowed_eq henabled
  rw [statusOf, hnotAllowed] at h
  rw [Blocks]
  cases hlast : restrictions.allowLast with
  | true =>
      rw [hlast, if_pos rfl] at h
      rw [if_pos rfl]
      cases hnotFound : restrictions.isNotFound call rte with
      | error e =>
          rw [hnotFound] at h
          cases h
      | ok notFound =>
          cases notFound with
          | true => exact .inl rfl
          | false =>
              rw [hnotFound] at h
              cases hforbidden : restrictions.isForbidden call rte with
              | error e =>
                  rw [hforbidden] at h
                  cases h
              | ok forbidden =>
                  cases forbidden with
                  | true => exact .inr ⟨rfl, rfl⟩
                  | false =>
                      rw [hforbidden] at h
                      cases h
  | false =>
      rw [hlast, if_neg Bool.false_ne_true] at h
      rw [if_neg Bool.false_ne_true]
      cases hallowed : restrictions.isAllowed call rte with
      | error e =>
          rw [hallowed] at h
          cases h
      | ok allowed =>
          rw [hallowed] at h
          cases allowed with
          | true => cases h
          | false =>
              refine ⟨rfl, ?_⟩
              cases hnotFound : restrictions.isNotFound call rte with
              | error e =>
                  rw [hnotFound] at h
                  cases h
              | ok notFound =>
                  rw [hnotFound] at h
                  cases notFound with
                  | true => exact .inl rfl
                  | false =>
                      cases hforbidden : restrictions.isForbidden call rte with
                      | error e =>
                          rw [hforbidden] at h
                          cases h
                      | ok forbidden => exact .inr ⟨rfl, forbidden, rfl⟩

/-- The same is computed for calls that are alike. -/
theorem compute_congr (henabled : restrictions.enabled = true)
    (h : restrictions.Alike call call') :
    restrictions.compute call = restrictions.compute call' := by
  have hreads := h.reads
  cases hrte : call.scope with
  | none =>
      rw [reads, reads, hrte, Option.map_none] at hreads
      have hrte' : call'.scope = none := Option.map_eq_none_iff.mp hreads.symm
      rw [compute, compute, hrte, hrte']
  | some rte =>
      obtain ⟨rte', hrte'⟩ : ∃ rte', call'.scope = some rte' := by
        rw [reads, reads, hrte, Option.map_some] at hreads
        obtain ⟨rte', hrte', -⟩ := Option.map_eq_some_iff.mp hreads.symm
        exact ⟨rte', hrte'⟩
      have hstatus := statusOf_congr hreads hrte hrte'
      rw [compute, compute, hrte, hrte']
      dsimp only
      rw [← hstatus]
      cases hblocked : restrictions.statusOf call rte with
      | error e => rfl
      | ok status =>
          cases status with
          | none => rfl
          | some status =>
              obtain ⟨hreq, hdescriptor, hattrs, hroute⟩ :=
                h.response rte hrte (blocks_of_statusOf henabled hblocked)
              have hargs : call.errorArgs status = call'.errorArgs status := by
                rw [RestrictionsCall.errorArgs, RestrictionsCall.errorArgs, hreq, hdescriptor,
                  hattrs, hroute]
              exact congrArg (fun args =>
                Except.ok (RestrictionsAnswer.blocked (P.craftResponseResult args))) hargs

end Depends

/-! ## Histories -/

section Histories

variable {restrictions} {calls : List (RestrictionsCall P)}

/-- With an empty cache an answer is computed. -/
theorem freshAnswer_eq :
    restrictions.freshAnswer call =
      if restrictions.enabled then restrictions.compute call else .ok .passes := by
  rw [freshAnswer, handleRestrictions]
  split
  · have hcached : cache.get call.key (ofExcept (restrictions.compute call))
        (State.fresh fun _ => none) =
          ((ofExcept (restrictions.compute call) : Stateful (State P) _ _) >>= fun answer =>
            Stateful.modify (cache.record call.key answer) >>= fun _ => pure answer)
              (cache.tick (State.fresh fun _ => none)) := rfl
    rw [hcached]
    cases restrictions.compute call with
    | error e => rfl
    | ok answer => rfl
  · rfl

/-- Everything that is remembered was computed for one of the calls. -/
def Remembers (restrictions : Restrictions) (calls : List (RestrictionsCall P))
    (state : State P) : Prop :=
  ∀ key answer, (key, answer) ∈ state.log →
    ∃ call ∈ calls, call.key = key ∧ restrictions.compute call = .ok answer

/-- A call of a history is answered as if it were the only one. -/
theorem shows_handleRestrictions (hcalls : restrictions.Separates calls) {call : RestrictionsCall P}
    (hcall : call ∈ calls) :
    Shows (Remembers restrictions calls) (restrictions.handleRestrictions call)
      (restrictions.freshAnswer call) := by
  rw [freshAnswer_eq, handleRestrictions]
  split
  · rename_i henabled
    refine shows_cacheGet cache call.key (fun state hstate => ⟨rfl, hstate⟩) ?_ ?_ ?_
    · intro state hstate answer hanswer
      obtain ⟨first, hfirst, hkey, hcompute⟩ := hstate _ _ hanswer
      rw [← compute_congr henabled (hcalls henabled first hfirst call hcall hkey), hcompute]
    · exact fun state hstate => hstate
    · intro state answer hstate hcompute key other hother
      rcases List.mem_cons.mp hother with heq | hmem
      · cases heq
        exact ⟨call, hcall, rfl, hcompute⟩
      · exact hstate key other hmem
  · exact shows_pure _

theorem answers_of_remembers (hcalls : restrictions.Separates calls) {state : State P}
    (hstate : Remembers restrictions calls state) {later : List (RestrictionsCall P)}
    (hlater : ∀ call ∈ later, call ∈ calls) :
    restrictions.answers state later = later.map restrictions.freshAnswer := by
  induction later generalizing state with
  | nil => rfl
  | cons call later ih =>
      rw [List.forall_mem_cons] at hlater
      have hshows := shows_handleRestrictions hcalls hlater.1
      rw [answers, List.map_cons, hshows.result hstate, ih (hshows.state hstate) hlater.2]

/-- In a history whose calls are alike when they are kept under the same text, every call is
answered as with an empty cache, whatever the cache has dropped. -/
theorem answers_eq_fresh (hcalls : restrictions.Separates calls) (choices : Nat → Option Nat) :
    restrictions.answers (State.fresh choices) calls = calls.map restrictions.freshAnswer :=
  answers_of_remembers hcalls (fun _ _ h => absurd h List.not_mem_nil) fun _ h => h

/-- A value that is recalled is not computed. -/
theorem fst_cacheGet_of_recall {σ κ ν ε : Type} [DecidableEq κ] {cache : Cache σ κ ν} {key : κ}
    {compute : Stateful σ ε ν} {state : σ} {value : ν} (h : cache.recall key state = some value) :
    (cache.get key compute state).1 = .ok value := by
  simp only [Cache.get, bind, Stateful.get, Stateful.modify, h]
  rfl

/-- A cache that keeps what it has answers the second of two calls with the answer to the first, if
they are kept under the same text. -/
theorem answers_pair {first second : RestrictionsCall P} (henabled : restrictions.enabled = true)
    (hkey : first.key = second.key) {answer : RestrictionsAnswer P.Response}
    (hcompute : restrictions.compute first = .ok answer) :
    restrictions.answers (State.fresh fun _ => some 0) [first, second] =
      [.ok answer, .ok answer] := by
  have hfirst : restrictions.handleRestrictions first (State.fresh fun _ => some 0) =
      (.ok answer, cache.record first.key answer (cache.tick (State.fresh fun _ => some 0))) := by
    rw [handleRestrictions, if_pos henabled, hcompute]
    rfl
  have hrecall : cache.recall second.key
      (cache.record first.key answer (cache.tick (State.fresh (P := P) fun _ => some 0))) =
        some answer := by
    simp [Cache.recall, cache, State.fresh, hkey]
  have hsecond : (restrictions.handleRestrictions second
      (cache.record first.key answer (cache.tick (State.fresh fun _ => some 0)))).1 =
        .ok answer := by
    rw [handleRestrictions, if_pos henabled, fst_cacheGet_of_recall hrecall]
  rw [answers, answers, answers, hfirst, hsecond]

end Histories

/-! ## Answers of others -/

/-- Responses that are made for the `Accept` header of the request. -/
def acceptPlatform : RestrictionsPlatform where
  engine := starEngine
  pool text := RegexPool.compile starEngine text text
  toLowerCase s := s.map Char.toLower
  Route := Unit
  Service := Unit
  Request := Str
  Attrs := Unit
  Throttling := Unit
  Plugins := Unit
  Response := Str
  craftResponseResult args := args.req.rest

/-- Nothing under a path may be called on the routes of a group. -/
def groupRestrictions : Restrictions where
  enabled := true
  forbidden := [⟨"*".toList, "/.*".toList, some (.serviceGroup "g".toList)⟩]

/-- A call with a key of the group, on a route that is in the groups. -/
def groupCall (groups : List Str) (accept : Str) : RestrictionsCall acceptPlatform where
  id := "r".toList
  descriptor := none
  route := some { id := "r".toList, groups, rest := () }
  apk := some {
    clientId := "c".toList
    clientSecret := []
    clientName := []
    authorizedEntities := [.serviceGroup "g".toList] }
  req := ⟨"GET".toList, "a.b".toList, "/x".toList, accept⟩
  attrs := ()

/-- The second request is answered with the response to the first one. A route that has left the
group is still forbidden. -/
theorem answers_ne_fresh :
    groupRestrictions.answers (State.fresh fun _ => some 0)
        [groupCall ["g".toList] "text/html".toList,
          groupCall ["g".toList] "application/json".toList] ≠
      [groupCall ["g".toList] "text/html".toList,
        groupCall ["g".toList] "application/json".toList].map groupRestrictions.freshAnswer ∧
    groupRestrictions.answers (State.fresh fun _ => some 0)
        [groupCall ["g".toList] "text/html".toList, groupCall [] "text/html".toList] ≠
      [groupCall ["g".toList] "text/html".toList,
        groupCall [] "text/html".toList].map groupRestrictions.freshAnswer := by
  have hblocked : ∀ accept, groupRestrictions.compute (groupCall ["g".toList] accept) =
      .ok (.blocked accept) := by
    intro accept
    rfl
  have hpasses : groupRestrictions.compute (groupCall [] "text/html".toList) = .ok .passes := by
    rfl
  have hpair : ∀ second : RestrictionsCall acceptPlatform,
      (groupCall ["g".toList] "text/html".toList).key = second.key →
        groupRestrictions.answers (State.fresh fun _ => some 0)
          [groupCall ["g".toList] "text/html".toList, second] =
            [.ok (.blocked "text/html".toList), .ok (.blocked "text/html".toList)] :=
    fun second hkey => answers_pair rfl hkey (hblocked _)
  have hfresh : ∀ call : RestrictionsCall acceptPlatform,
      groupRestrictions.freshAnswer call = groupRestrictions.compute call := by
    intro call
    rw [freshAnswer_eq]
    exact if_pos rfl
  constructor
  · rw [hpair (groupCall ["g".toList] "application/json".toList) rfl, List.map_cons, List.map_cons,
      hfresh, hfresh, hblocked, hblocked]
    intro h
    have hresponse : ("text/html".toList : Str) = "application/json".toList :=
      RestrictionsAnswer.blocked.inj (Except.ok.inj (List.cons.inj (List.cons.inj h).2).1)
    exact absurd hresponse (by decide)
  · rw [hpair (groupCall [] "text/html".toList) rfl, List.map_cons, List.map_cons, hfresh, hfresh,
      hblocked, hpasses]
    intro h
    cases Except.ok.inj (List.cons.inj (List.cons.inj h).2).1

/-- Calls that are let through are alike, whatever their headers. -/
theorem answers_eq_fresh_of_example :
    groupRestrictions.answers (State.fresh fun _ => some 0)
        [groupCall [] "text/html".toList, groupCall [] "application/json".toList] =
      [groupCall [] "text/html".toList, groupCall [] "application/json".toList].map
        groupRestrictions.freshAnswer := by
  have hforbidden : ∀ accept rte, (groupCall [] accept).scope = some rte →
      ¬ groupRestrictions.Blocks (groupCall [] accept) rte := by
    intro accept rte hrte hblocks
    cases hrte
    rcases hblocks with hnotFound | ⟨-, hforbidden⟩
    · cases hnotFound
    · cases hforbidden
  refine answers_eq_fresh (fun _ first hfirst second hsecond _ => ?_) _
  simp only [List.mem_cons, List.not_mem_nil, or_false] at hfirst hsecond
  rcases hfirst with rfl | rfl <;> rcases hsecond with rfl | rfl <;>
    exact ⟨rfl, fun rte hrte hblocks => absurd hblocks (hforbidden _ rte hrte)⟩

end Restrictions

end Otoroshi
