/-
# Stripped paths

A route can strip the path that it was matched by from the uri of its backend. The router makes
the matched path from segments of the request, and it is looked for in the uri as a text. What is
found first may be somewhere else, and nothing is found where a slash of the uri is doubled.

`stripsExactly_iff` says when the uri that is left has the segments behind the matched ones, and
the same query.
-/

import Otoroshi.Foundation.Replacing
import Otoroshi.Foundation.Segments
import Otoroshi.Router.Literal

namespace Otoroshi

namespace StripPath

open Segments

/-- The part of a frontend that is read for a backend. -/
structure StripFrontend extends NgFrontend where
  stripPath : Bool := true

/-- What is sent to the backend, and the path that was stripped, where that is noted. -/
structure Stripped where
  uri : Str
  strippedPath : Option Str := none
  deriving DecidableEq

/-- `maybeStrippedUri`, for the path that the router has matched, if it has. -/
def maybeStrippedUri (relativeUri rawUri : Str) (frontend : StripFrontend)
    (matchedPath : Option Str) : Stripped :=
  if frontend.stripPath then
    match matchedPath with
    | some path =>
        if path.isEmpty then { uri := rawUri }
        else
          let allPaths := frontend.domains.map NgDomainAndPath.path
          let containsWildcard := allPaths.any fun p => p.contains '*'
          let containsNamedParams := allPaths.any fun p => decide ("/:".toList <:+: p)
          let containsRegexNamedParams := allPaths.any fun p => decide ("/$".toList <:+: p)
          if !containsWildcard && !containsNamedParams && !containsRegexNamedParams &&
              allPaths.length == 1 && allPaths.contains "/".toList then { uri := rawUri }
          else
            { uri := withoutMatch rawUri (findText (path.drop 1) rawUri)
              strippedPath := some path }
    | none =>
        let allPaths := frontend.domains.map NgDomainAndPath.path
        match allPaths.find? fun p => startsWith relativeUri p with
        | some p => { uri := relativeUri.drop p.length, strippedPath := some p }
        | none => { uri := rawUri }
  else { uri := rawUri }

/-! ## Uris -/

/-- The uri of a request, relative to its host: a path and a query. -/
structure RequestUri where
  /-- the path behind its first slash -/
  raw : Str
  /-- nothing, or a question mark and what comes behind it -/
  query : Str
  notMem_raw : '?' ∉ raw
  query_eq : query = [] ∨ ∃ text, query = '?' :: text

namespace RequestUri

def path (uri : RequestUri) : Str := '/' :: uri.raw

def relativeUri (uri : RequestUri) : Str := uri.path ++ uri.query

/-- `relativeUri.substring(1)` -/
def rawUri (uri : RequestUri) : Str := uri.relativeUri.drop 1

end RequestUri

/-- The part of a uri before its query. -/
def pathOfUri (uri : Str) : Str := uri.takeWhile (· != '?')

def queryOfUri (uri : Str) : Str := uri.dropWhile (· != '?')

/-- What is sent to the backend has the segments behind the matched ones, and the query. -/
def StripsExactly (frontend : StripFrontend) (uri : RequestUri) (matched : List Str) : Prop :=
  let stripped :=
    (maybeStrippedUri uri.relativeUri uri.rawUri frontend (some (pathOf matched))).uri
  pathSegments (pathOfUri stripped) = (pathSegments uri.path).drop matched.length ∧
    queryOfUri stripped = uri.query

/-- The matched path comes first where it begins and ends with segments of the path, and the
segments before it commute with it. -/
def FoundAtSegments (raw : Str) (matched : List Str) : Prop :=
  ∃ before after, findText ((pathOf matched).drop 1) raw =
      some (before, (pathOf matched).drop 1, after) ∧
    EndsSegment '/' before ∧ BeginsSegment '/' after ∧
      matched ++ pathSegments before = pathSegments before ++ matched

variable {frontend : StripFrontend} {uri : RequestUri} {matched : List Str} {path query raw : Str}

/-! ## Paths and queries -/

theorem pathSegments_eq (path : Str) : pathSegments path = segments '/' isTrimmed path := by
  have hfilter : ∀ pieces : List Str, (pieces.filter fun segment => !isBlank segment) =
      pieces.flatMap fun segment => if isBlank segment = true then [] else [segment] := by
    intro pieces
    induction pieces with
    | nil => rfl
    | cons piece pieces ih =>
        rw [List.filter_cons, List.flatMap_cons, ← ih]
        cases isBlank piece with
        | true => rfl
        | false => rfl
  rw [pathSegments, segments, hfilter, flatMap_split _ rfl, ← hfilter]
  rfl

theorem pathSegments_path (uri : RequestUri) :
    pathSegments uri.path = segments '/' isTrimmed uri.raw := by
  rw [pathSegments_eq]
  exact (segments_append_cons [] uri.raw).trans (by rw [segments_nil, List.nil_append])

theorem pathOfUri_append (hpath : '?' ∉ path) (hquery : query = [] ∨ ∃ text, query = '?' :: text) :
    pathOfUri (path ++ query) = path := by
  have hall : ∀ c ∈ path, (c != '?') = true := fun c hc => bne_iff_ne.mpr fun h => hpath (h ▸ hc)
  have hnone : query.takeWhile (· != '?') = [] := by
    rcases hquery with rfl | ⟨text, rfl⟩
    · rfl
    · rfl
  rw [pathOfUri, List.takeWhile_append_of_pos hall, hnone, List.append_nil]

theorem queryOfUri_append (hpath : '?' ∉ path)
    (hquery : query = [] ∨ ∃ text, query = '?' :: text) : queryOfUri (path ++ query) = query := by
  have hall : ∀ c ∈ path, (c != '?') = true := fun c hc => bne_iff_ne.mpr fun h => hpath (h ▸ hc)
  have hsame : query.dropWhile (· != '?') = query := by
    rcases hquery with rfl | ⟨text, rfl⟩
    · rfl
    · rfl
  rw [queryOfUri, List.dropWhile_append_of_pos hall, hsame]

/-! ## What is stripped -/

theorem pathOf_cons (first : Str) (rest : List Str) :
    (pathOf (first :: rest)).drop 1 = first ++ led '/' rest := rfl

/-- A route that declares the root only keeps the uri. -/
theorem maybeStrippedUri_of_root (relativeUri rawUri : Str)
    (hroot : frontend.domains.map NgDomainAndPath.path = ["/".toList]) :
    (maybeStrippedUri relativeUri rawUri frontend (some path)).uri = rawUri := by
  simp only [maybeStrippedUri, hroot]
  split
  · split
    · rfl
    · rw [if_pos (by decide)]
  · rfl

/-- Another route removes the path where it is found first. -/
theorem maybeStrippedUri_of_ne_root (relativeUri rawUri : Str) (hstrip : frontend.stripPath = true)
    (hpath : path ≠ [])
    (hroot : frontend.domains.map NgDomainAndPath.path ≠ ["/".toList]) :
    (maybeStrippedUri relativeUri rawUri frontend (some path)).uri =
      withoutMatch rawUri (findText (path.drop 1) rawUri) := by
  have hnot : ¬ ((frontend.domains.map NgDomainAndPath.path).length == 1 &&
      (frontend.domains.map NgDomainAndPath.path).contains "/".toList) = true := by
    intro h
    rw [Bool.and_eq_true, beq_iff_eq, List.contains_iff_mem] at h
    obtain ⟨only, honly⟩ := List.length_eq_one_iff.mp h.1
    rw [honly] at h hroot
    exact hroot (congrArg (fun only => [only]) (List.mem_singleton.mp h.2).symm)
  have hempty : ¬ path.isEmpty = true := fun h => hpath (List.isEmpty_iff.mp h)
  simp only [maybeStrippedUri, if_pos hstrip, if_neg hempty]
  rw [if_neg]
  intro h
  rw [Bool.and_eq_true, Bool.and_eq_true] at h
  exact hnot (Bool.and_eq_true_iff.mpr ⟨h.1.2, h.2⟩)

/-- A segment of a path has no question mark if the path has none. -/
theorem notMem_led {c : Char} (hc : c ≠ '/') {segments : List Str}
    (h : ∀ segment ∈ segments, c ∉ segment) : c ∉ led '/' segments := by
  intro hmem
  obtain ⟨segment, hsegment, hin⟩ := List.mem_flatMap.mp hmem
  rcases List.mem_cons.mp hin with hslash | hin
  · exact hc hslash
  · exact h segment hsegment hin

/-- Where the matched path is not found, the path stays as it is. -/
theorem pathOfUri_of_not_infix {text : Str} (hmark : '?' ∉ text) (hne : text ≠ [])
    (h : ¬ text <:+: uri.raw) :
    pathOfUri (withoutMatch (uri.raw ++ uri.query) (findText text (uri.raw ++ uri.query))) =
      uri.raw := by
  rcases uri.query_eq with hquery | ⟨rest, hquery⟩
  · rw [hquery, List.append_nil, findText_eq_none_iff.mpr h]
    have hraw := pathOfUri_append uri.notMem_raw (.inl hquery)
    rwa [hquery, List.append_nil] at hraw
  · rw [hquery, findText_append_cons hmark hne h]
    cases findText text rest with
    | none => exact pathOfUri_append uri.notMem_raw (.inr ⟨rest, rfl⟩)
    | some found =>
        show pathOfUri (uri.raw ++ '?' :: found.1 ++ found.2.2) = uri.raw
        rw [List.append_assoc]
        exact pathOfUri_append uri.notMem_raw (.inr ⟨_, rfl⟩)

/-- A path that stays as it is still has the matched segments. -/
theorem not_stripsExactly_of_path {first : Str} {rest : List Str}
    (hmatched : first :: rest <+: pathSegments uri.path)
    (h : pathOfUri (maybeStrippedUri uri.relativeUri uri.rawUri frontend
      (some (pathOf (first :: rest)))).uri = uri.raw) :
    ¬ StripsExactly frontend uri (first :: rest) := by
  rintro ⟨hsegments, -⟩
  obtain ⟨behind, hbehind⟩ := hmatched
  rw [h, pathSegments_eq, ← pathSegments_path, ← hbehind, List.drop_left] at hsegments
  have hlength := congrArg List.length hsegments
  rw [List.length_append, List.length_cons] at hlength
  omega

/-- The uri that is left has the segments behind the matched ones and the query exactly if nothing
was matched, or the route declares another path than the root and the matched path is found at
segments. -/
theorem stripsExactly_iff (frontend : StripFrontend) (uri : RequestUri) (matched : List Str)
    (hstrip : frontend.stripPath = true) (hmatched : matched <+: pathSegments uri.path) :
    StripsExactly frontend uri matched ↔
      matched = [] ∨ (frontend.domains.map NgDomainAndPath.path ≠ ["/".toList] ∧
        FoundAtSegments uri.raw matched) := by
  cases matched with
  | nil =>
      have hraw : (maybeStrippedUri uri.relativeUri uri.rawUri frontend (some (pathOf []))).uri =
          uri.raw ++ uri.query := by
        rw [maybeStrippedUri, if_pos hstrip]
        rfl
      refine iff_of_true ?_ (.inl rfl)
      rw [StripsExactly, hraw, pathOfUri_append uri.notMem_raw uri.query_eq,
        queryOfUri_append uri.notMem_raw uri.query_eq, pathSegments_path, pathSegments_eq]
      exact ⟨rfl, rfl⟩
  | cons first rest =>
      rw [or_iff_right (List.cons_ne_nil first rest)]
      by_cases hroot : frontend.domains.map NgDomainAndPath.path = ["/".toList]
      · refine iff_of_false (not_stripsExactly_of_path hmatched ?_) fun h => h.1 hroot
        rw [maybeStrippedUri_of_root _ _ hroot]
        exact pathOfUri_append uri.notMem_raw uri.query_eq
      rw [and_iff_right hroot]
      have hmem : ∀ segment ∈ first :: rest, segment ∈ segments '/' isTrimmed uri.raw := by
        rw [pathSegments_path] at hmatched
        exact fun segment hsegment => hmatched.subset hsegment
      have hmark : ∀ segment ∈ first :: rest, '?' ∉ segment := fun segment hsegment hin =>
        uri.notMem_raw ((mem_splitOn (List.mem_filter.mp (hmem segment hsegment)).1).2 _ hin)
      have hsegment : ∀ segment ∈ first :: rest, IsSegment '/' isTrimmed segment :=
        fun segment hsegment => isSegment_of_mem (hmem segment hsegment)
      have hpath : pathOf (first :: rest) ≠ [] := List.cons_ne_nil '/' (first ++ led '/' rest)
      have huri : (maybeStrippedUri uri.relativeUri uri.rawUri frontend
          (some (pathOf (first :: rest)))).uri =
            withoutMatch (uri.raw ++ uri.query)
              (findText (first ++ led '/' rest) (uri.raw ++ uri.query)) :=
        maybeStrippedUri_of_ne_root uri.relativeUri uri.rawUri hstrip hpath hroot
      cases hfound : findText (first ++ led '/' rest) uri.raw with
      | none =>
          refine iff_of_false (not_stripsExactly_of_path hmatched ?_) ?_
          · rw [huri]
            refine pathOfUri_of_not_infix ?_ ?_ (findText_eq_none_iff.mp hfound)
            · rw [List.mem_append, not_or]
              exact ⟨hmark first List.mem_cons_self, notMem_led (by decide) fun segment hin =>
                hmark segment (List.mem_cons_of_mem first hin)⟩
            · intro hnil
              have hblank := (hsegment first List.mem_cons_self).notBlank
              rw [(List.append_eq_nil_iff.mp hnil).1] at hblank
              cases hblank
          · rintro ⟨before, after, hsome, -⟩
            rw [pathOf_cons, hfound] at hsome
            cases hsome
      | some found =>
          obtain ⟨before, text, after⟩ := found
          have hraw := findText_eq_some hfound
          rw [findText_found hfound] at hraw hfound
          have hquestion : '?' ∉ before ++ after := by
            intro hin
            refine uri.notMem_raw ?_
            rw [← hraw, List.append_assoc]
            exact (List.mem_append.mp hin).elim (List.mem_append_left _) fun hin =>
              List.mem_append_right _ (List.mem_append_right _ hin)
          have hleft : (maybeStrippedUri uri.relativeUri uri.rawUri frontend
              (some (pathOf (first :: rest)))).uri = before ++ after ++ uri.query := by
            rw [huri, findText_append hfound]
            exact (List.append_assoc ..).symm
          have hwhole : segments '/' isTrimmed uri.raw =
              (first :: rest) ++ (pathSegments uri.path).drop (first :: rest).length := by
            rw [← pathSegments_path]
            exact (List.prefix_iff_eq_append.mp hmatched).symm
          have hremove := segments_remove_iff (hsegment first List.mem_cons_self)
            (fun segment hin => hsegment segment (List.mem_cons_of_mem first hin)) before after
          rw [hraw, hwhole, List.append_cancel_left_eq, eq_comm] at hremove
          rw [StripsExactly, hleft, pathOfUri_append hquestion uri.query_eq,
            queryOfUri_append hquestion uri.query_eq, and_iff_left rfl, pathSegments_eq, hremove]
          refine ⟨fun h => ⟨before, after, hfound, h.1, h.2.1, ?_⟩, ?_⟩
          · rw [pathSegments_eq]
            exact h.2.2
          · rintro ⟨before', after', hfound', hends, hbegins, hcommute⟩
            rw [pathOf_cons, hfound] at hfound'
            cases hfound'
            rw [pathSegments_eq] at hcommute
            exact ⟨hends, hbegins, hcommute⟩

/-! ## Examples -/

/-- A route at one path. -/
def oneDomain (raw : String) : StripFrontend := { domains := [⟨raw.toList⟩] }

/-- A uri with a query that has the path again. -/
def usersUri : RequestUri where
  raw := "api/users/42".toList
  query := "?next=/api/users".toList
  notMem_raw := by decide
  query_eq := .inr ⟨_, rfl⟩

theorem stripsExactly_of_example :
    StripsExactly (oneDomain "oto.tools/api/users") usersUri ["api".toList, "users".toList] :=
  (stripsExactly_iff (oneDomain "oto.tools/api/users") usersUri ["api".toList, "users".toList] rfl
    (by decide)).mpr (.inr ⟨by decide, [], "/42".toList, by decide, .inl rfl,
      .inr ⟨"42".toList, rfl⟩, by decide⟩)

/-- A uri with two slashes. -/
def doubledUri : RequestUri where
  raw := "api//users/42".toList
  query := []
  notMem_raw := by decide
  query_eq := .inl rfl

/-- Nothing is stripped from a path with a doubled slash. -/
theorem not_forall_stripsExactly :
    ¬ ∀ (frontend : StripFrontend) (uri : RequestUri) (matched : List Str),
      frontend.stripPath = true → matched <+: pathSegments uri.path →
        StripsExactly frontend uri matched := by
  intro h
  have hmatched : ["api".toList, "users".toList] <+: pathSegments doubledUri.path := by decide
  refine not_stripsExactly_of_path hmatched ?_
    (h (oneDomain "oto.tools/api/users") doubledUri _ rfl hmatched)
  have hnone : findText "api/users".toList doubledUri.raw = none :=
    findText_eq_none_iff.mpr (by decide)
  have hpath : pathOf ["api".toList, "users".toList] ≠ [] := List.cons_ne_nil _ _
  rw [maybeStrippedUri_of_ne_root _ _ rfl hpath (by decide)]
  exact congrArg (fun found => pathOfUri (withoutMatch doubledUri.raw found)) hnone

end StripPath

end Otoroshi
