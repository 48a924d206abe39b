/-
# Answers and the history of a router

Every call leaves something behind: entries in the caches of the nodes it
visited, and patterns in the shared pool. The cached values depend only on the
node and the segment they are kept under, so they never change an answer. The
pool is different. A text that the table uses both as a wildcard and as the regex
of a segment is kept under the rule that asked first, and every later answer
uses that rule.

`serve_after_eq` is the exact extent of the good behaviour that a table can
have by itself: when no text of the table is answered in two ways, any two
histories and any two courses of the caches lead to the same answer.
-/

import Otoroshi.Router.Runtime

namespace Otoroshi

open Stateful RouterState

namespace NgTreeRouter

variable {P : Platform} {start : RegexPool P.engine} {routes : List NgRoute}

theorem firstWildcard_shows {texts : PatternTexts} (hstart : texts.Unambiguous start)
    (domain : Str) {wildcards : List NgRouteDomainAndPathWrapper}
    (hwildcards : ∀ w ∈ wildcards, texts.wildcard w.domain) :
    Shows (Ready start texts) (firstWildcard (ops P) domain wildcards)
      (firstWildcard (Matchers.ofPool start).ops domain wildcards) := by
  induction wildcards with
  | nil => exact shows_pure none
  | cons w wildcards ih =>
      rw [List.forall_mem_cons] at hwildcards
      refine shows_bind (shows_wildcardMatches hstart hwildcards.1 domain) fun accepted _ => ?_
      cases accepted with
      | true => exact shows_pure (some w)
      | false => exact ih hwildcards.2

/-- A call on a built router ends as the stateless search does. -/
theorem serve_shows (hstart : (texts P routes).Unambiguous start) (call : FindCall) :
    Shows (Ready start (texts P routes)) (serve P (build P routes) call)
      (find P (Matchers.ofPool start).ops (build P routes) call.domain call.path
        call.trailingSlashMeansExactSegments) := by
  have hinTree : ∀ {domain : Str} {ptree : NgTreeNodePath},
      KeyedList.get? domain (build P routes).tree = some ptree →
      Shows (Ready start (texts P routes))
        (findInTree P (ops P) ptree call.path call.trailingSlashMeansExactSegments)
        (findInTree P (Matchers.ofPool start).ops ptree call.path
          call.trailingSlashMeansExactSegments) := by
    intro domain ptree hptree
    exact shows_bind (NgTreeNodePath.find_shows hstart _ (coversTree_build hptree) _ _ _ _)
      fun found _ => shows_pure found.2
  rw [serve, find, find]
  cases hdomain : KeyedList.get? call.domain (build P routes).tree with
  | some ptree => exact hinTree hdomain
  | none =>
      refine shows_bind (firstWildcard_shows hstart call.domain fun w hw =>
        wildcard_texts_build hw) fun found _ => ?_
      cases found with
      | none => exact shows_pure none
      | some w =>
          cases hw : KeyedList.get? w.domain (build P routes).tree with
          | some ptree =>
              simp only [hw]
              exact hinTree hw
          | none =>
              simp only [hw]
              exact shows_pure none

/-- After any history a router is as ready to answer as when it was built. -/
theorem ready_after (hstart : (texts P routes).Unambiguous start) {state : RouterState P}
    (hstate : Ready start (texts P routes) state) (history : List FindCall) :
    Ready start (texts P routes) (after P (build P routes) state history) :=
  keeps_afterAll (serve_shows hstart) hstate history

/-- After any history the search in the tree of a domain ends as the stateless
one does. -/
theorem find_after (hstart : (texts P routes).Unambiguous start) {state : RouterState P}
    (hstate : Ready start (texts P routes) state) (history : List FindCall) {domain : Str}
    {ptree : NgTreeNodePath} (hptree : KeyedList.get? domain (build P routes).tree = some ptree)
    (segments : List Str) (endsWithSlash : Bool) (path : Str) (pathParams : PathParams)
    (exactSegments : Bool) :
    (NgTreeNodePath.find P (ops P) segments ptree endsWithSlash path pathParams exactSegments
        (after P (build P routes) state history)).1 =
      NgTreeNodePath.find P (Matchers.ofPool start).ops segments ptree endsWithSlash path
        pathParams exactSegments :=
  (NgTreeNodePath.find_shows hstart segments (coversTree_build hptree) endsWithSlash path
    pathParams exactSegments).result (ready_after hstart hstate history)

/-- The answer after a history is the one the stateless search gives. -/
theorem serve_after (hstart : (texts P routes).Unambiguous start)
    (choices : Nat → Option Nat) (history : List FindCall) (call : FindCall) :
    (serve P (build P routes) call
        (after P (build P routes) (fresh start choices) history)).1 =
      find P (Matchers.ofPool start).ops (build P routes) call.domain call.path
        call.trailingSlashMeansExactSegments :=
  (serve_shows hstart call).result (ready_after hstart (ready_fresh start _ choices) history)

/-- Two histories, whatever was cached and evicted along them, lead to the same
answer when the pool answers every text of the table in one way only. -/
theorem serve_after_eq (P : Platform) (routes : List NgRoute) (start : RegexPool P.engine)
    (hstart : (texts P routes).Unambiguous start) (choices choices' : Nat → Option Nat)
    (history history' : List FindCall) (call : FindCall) :
    (serve P (build P routes) call
        (after P (build P routes) (fresh start choices) history)).1 =
      (serve P (build P routes) call
        (after P (build P routes) (fresh start choices') history')).1 := by
  rw [serve_after hstart, serve_after hstart]

theorem serve_after_eq_of_example :
    (serve starPlatform (build starPlatform [.declaring "r" "d.tld/x/$f<b.*>/a*"])
        ⟨"d.tld".toList, "/x/bar/abc".toList, false⟩
        (after starPlatform (build starPlatform [.declaring "r" "d.tld/x/$f<b.*>/a*"])
          (fresh [] fun _ => none) [])).1 =
      (serve starPlatform (build starPlatform [.declaring "r" "d.tld/x/$f<b.*>/a*"])
        ⟨"d.tld".toList, "/x/bar/abc".toList, false⟩
        (after starPlatform (build starPlatform [.declaring "r" "d.tld/x/$f<b.*>/a*"])
          (fresh [] fun _ => some 0) [⟨"d.tld".toList, "/x/foo".toList, true⟩])).1 :=
  serve_after_eq starPlatform [.declaring "r" "d.tld/x/$f<b.*>/a*"] []
    (unambiguous_of_disjoint starPlatform [] (by decide +kernel)) _ _ _ _ _

/-- A table with one text in both roles: whether `/y/abc` is served depends on
whether `/x/foo` was asked for before. -/
theorem serve_after_ne :
    ¬ ∀ (P : Platform) (routes : List NgRoute) (start : RegexPool P.engine)
        (choices choices' : Nat → Option Nat) (history history' : List FindCall)
        (call : FindCall),
      (serve P (build P routes) call
          (after P (build P routes) (fresh start choices) history)).1 =
        (serve P (build P routes) call
          (after P (build P routes) (fresh start choices') history')).1 := by
  intro h
  have hbad := h starPlatform
    [.declaring "byRegex" "d.tld/x/$f<a.*>", .declaring "byWildcard" "d.tld/y/a.*"] []
    (fun _ => none) (fun _ => none) [] [⟨"d.tld".toList, "/x/foo".toList, false⟩]
    ⟨"d.tld".toList, "/y/abc".toList, false⟩
  have hserved := congrArg (Except.map Option.isSome) hbad
  exact absurd hserved (by decide +kernel)

end NgTreeRouter

end Otoroshi
