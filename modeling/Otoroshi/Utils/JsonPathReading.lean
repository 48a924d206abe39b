/-
# Reading along a path

The search for segments cuts a written path where it was put together: a notation takes its
name or key up to the character that ends it, and the next match starts right there
(`groups_findAll`).

A walk then selects child after child (`walk_eq_some_iff`, `walk_eq_none_iff`). The regular
engine is only known by what it promises for such paths, `SelectsChildren`; for a recognised
path the fast reader and the regular engine come to the same, whatever the caches hold.
-/

import Otoroshi.Utils.FastJsonPath

namespace Otoroshi

open Stateful

namespace FastJsonPath

open Backtracking (Match)

/-! ## The search -/

/-- What may follow a segment: another one, or the end. -/
def EndsSegment (rest : Str) : Prop := ∀ c ∈ rest.head?, c = '.' ∨ c = '['

theorem endsSegment_flatMap (segments : List PathSegment) :
    EndsSegment (segments.flatMap PathSegment.text) := by
  intro c hc
  cases segments with
  | nil => cases hc
  | cons s segments =>
      obtain ⟨style, key, accepted⟩ := s
      rw [List.flatMap_cons] at hc
      cases style with
      | dotted => exact Or.inl (Option.some.inj hc).symm
      | quoted => exact Or.inr (Option.some.inj hc).symm
      | doubleQuoted => exact Or.inr (Option.some.inj hc).symm

variable {m : Match Char} {rest found : Str}

theorem head?_char {c : Char} (hm : m.rest = c :: rest) :
    ((char c).runs m).head? = some { m with rest } :=
  Backtracking.head?_one hm (beq_self_eq_true c)

theorem runs_char_eq_nil {c d : Char} (hm : m.rest = d :: rest) (hne : d ≠ c) :
    (char c).runs m = [] := by
  refine Backtracking.runs_one_eq_nil fun a ha => ?_
  rw [hm, List.head?_cons, Option.mem_some_iff] at ha
  subst ha
  exact beq_eq_false_iff_ne.mpr hne

theorem head?_name (hm : m.rest = found ++ rest) (hfound : Style.dotted.accepts found = true)
    (hrest : EndsSegment rest) : (name.runs m).head? = some { m with rest } := by
  cases found with
  | nil => cases hfound
  | cons c found =>
      rw [Style.accepts, Bool.and_eq_true, List.all_eq_true] at hfound
      refine Backtracking.head?_seq (Backtracking.head?_one hm hfound.1) ?_
      refine Backtracking.head?_manyOne rfl hfound.2 fun d hd => ?_
      rcases hrest d hd with rfl | rfl <;> decide

/-- A key ends where its quote does. -/
theorem head?_key {quote : Char} (hm : m.rest = found ++ quote :: rest) (hne : found ≠ [])
    (hfound : ∀ c ∈ found, isKeyPart c = true) (hquote : isKeyPart quote = false) :
    (key.runs m).head? = some { m with rest := quote :: rest } := by
  refine Backtracking.head?_plusOne hm hne hfound fun c hc => ?_
  rw [List.head?_cons, Option.mem_some_iff] at hc
  rw [← hc]
  exact hquote

theorem head?_bracket {quote : Char} {index : Nat}
    (hm : m.rest = '[' :: quote :: (found ++ [quote, ']']) ++ rest) (hne : found ≠ [])
    (hfound : ∀ c ∈ found, isKeyPart c = true) (hquote : isKeyPart quote = false) :
    ((bracket quote (.group index key)).runs m).head? =
      some { rest, groups := Function.update m.groups index (some found) } := by
  have hopened : ((char quote).runs
      { m with rest := quote :: (found ++ quote :: ']' :: rest) }).head? =
        some { m with rest := found ++ quote :: ']' :: rest } := head?_char rfl
  have hinner : ((Backtracking.group index key).runs
      { m with rest := found ++ quote :: ']' :: rest }).head? =
        some ⟨quote :: ']' :: rest, Function.update m.groups index (some found)⟩ :=
    Backtracking.head?_group_read rfl (head?_key rfl hne hfound hquote)
  have hbracket : m.rest = '[' :: quote :: (found ++ quote :: ']' :: rest) := by
    rw [hm]
    simp
  refine Backtracking.head?_seq (head?_char hbracket) (Backtracking.head?_seq hopened ?_)
  exact Backtracking.head?_seq hinner
    (Backtracking.head?_seq (head?_char rfl) (head?_char rfl))

theorem runs_bracket_eq_nil {quote other : Char} {inner : Backtracking Char}
    (hm : m.rest = '[' :: other :: rest) (hne : other ≠ quote) :
    (bracket quote inner).runs m = [] := by
  have hopening : (char '[').runs m = [{ m with rest := other :: rest }] := by
    rw [char, Backtracking.runs, hm]
    rfl
  rw [bracket, Backtracking.runs, hopening, List.flatMap_singleton]
  exact Backtracking.runs_seq_eq_nil (runs_char_eq_nil rfl hne)

/-- The first match at a segment is the segment. -/
theorem exists_head?_segment (s : PathSegment) (hrest : EndsSegment rest) :
    ∃ m : Match Char, (segment.runs (.start (s.text ++ rest))).head? = some m ∧ m.rest = rest ∧
      groupsOf m = s.groups := by
  obtain ⟨style, found, accepted⟩ := s
  cases style with
  | dotted =>
      have hname : ((Backtracking.group 1 name).runs
          { Match.start ('.' :: (found ++ rest)) with rest := found ++ rest }).head? =
            some ⟨rest, Function.update (fun _ => none) 1 (some found)⟩ :=
        Backtracking.head?_group_read rfl (head?_name rfl accepted hrest)
      refine ⟨⟨rest, Function.update (fun _ => none) 1 (some found)⟩,
        Backtracking.head?_either (Backtracking.head?_seq (head?_char rfl) hname), rfl, ?_⟩
      simp [groupsOf, Match.group, PathSegment.groups]
  | quoted =>
      rw [Style.accepts, Bool.and_eq_true, Bool.not_eq_true', List.isEmpty_eq_false_iff,
        List.all_eq_true] at accepted
      refine ⟨⟨rest, Function.update (fun _ => none) 2 (some found)⟩, ?_, rfl, ?_⟩
      · rw [segment, notations, Backtracking.runs_either
          (Backtracking.runs_seq_eq_nil (runs_char_eq_nil rfl (by decide)))]
        exact Backtracking.head?_either (head?_bracket rfl accepted.1 accepted.2 (by decide))
      · simp [groupsOf, Match.group, PathSegment.groups]
  | doubleQuoted =>
      rw [Style.accepts, Bool.and_eq_true, Bool.not_eq_true', List.isEmpty_eq_false_iff,
        List.all_eq_true] at accepted
      refine ⟨⟨rest, Function.update (fun _ => none) 3 (some found)⟩, ?_, rfl, ?_⟩
      · rw [segment, notations, Backtracking.runs_either
          (Backtracking.runs_seq_eq_nil (runs_char_eq_nil rfl (by decide))),
          Backtracking.runs_either (runs_bracket_eq_nil rfl (by decide))]
        exact head?_bracket rfl accepted.1 accepted.2 (by decide)
      · simp [groupsOf, Match.group, PathSegment.groups]

/-- The search gives back the segments that were written. -/
theorem groups_findAll (segments : List PathSegment) :
    (segment.findAll (segments.flatMap PathSegment.text)).map groupsOf =
      segments.map PathSegment.groups := by
  induction segments with
  | nil => rfl
  | cons s segments ih =>
      obtain ⟨m, hm, hrest, hgroups⟩ := exists_head?_segment s (endsSegment_flatMap segments)
      rw [List.flatMap_cons, Backtracking.findAll_of_head? s.text_ne_nil hrest hm, List.map_cons,
        List.map_cons, hgroups, ih]

theorem findAll_pathText (segments : List PathSegment) :
    segment.findAll (pathText segments) = segment.findAll (segments.flatMap PathSegment.text) := by
  refine Backtracking.findAll_cons_of_runs_eq_nil ?_
  have hbracket : ∀ quote inner, (bracket quote inner).runs
      (.start ('$' :: segments.flatMap PathSegment.text)) = [] := fun quote inner =>
    Backtracking.runs_seq_eq_nil (runs_char_eq_nil rfl (by decide))
  rw [segment, notations, Backtracking.runs_either
    (Backtracking.runs_seq_eq_nil (runs_char_eq_nil rfl (by decide))),
    Backtracking.runs_either (hbracket _ _), hbracket]

/-- A path is written in one way. -/
theorem pathText_injective : Function.Injective pathText := by
  intro first second h
  have hgroups := congrArg (fun path => (segment.findAll path).map groupsOf) h
  simp only [findAll_pathText, groups_findAll] at hgroups
  exact List.map_injective_iff.mpr PathSegment.groups_injective hgroups

theorem computeSegments_pathText {segments : List PathSegment} (hne : segments ≠ []) :
    computeSegments (pathText segments) = some (keys segments) := by
  have hkeys := congrArg (List.map Groups.text) (groups_findAll segments)
  rw [List.map_map, List.map_map] at hkeys
  rw [computeSegments, if_pos (matchesAll_simplePath_iff.mpr ⟨segments, hne, rfl⟩),
    findAll_pathText]
  refine congrArg some (hkeys.trans ?_)
  exact List.map_congr_left fun s _ => s.text_groups

/-! ## The walk -/

/-- Selecting the keys one after the other in nested objects leads to a value. -/
inductive Selects : JsValue → List Str → JsValue → Prop
  | here {value : JsValue} : Selects value [] value
  | child {fields : List (Str × JsValue)} {key : Str} {keys : List Str} {value found : JsValue}
      (hkey : fields.lookup key = some value) (hfound : Selects value keys found) :
      Selects (.object fields) (key :: keys) found

/-- A key is missing on the way, or the value it is looked for in is no object. -/
inductive Misses : JsValue → List Str → Prop
  | absent {fields : List (Str × JsValue)} {key : Str} {keys : List Str}
      (hkey : fields.lookup key = none) : Misses (.object fields) (key :: keys)
  | notObject {value : JsValue} {key : Str} {keys : List Str}
      (hvalue : ∀ fields, value ≠ .object fields) : Misses value (key :: keys)
  | child {fields : List (Str × JsValue)} {key : Str} {keys : List Str} {value : JsValue}
      (hkey : fields.lookup key = some value) (hvalue : Misses value keys) :
      Misses (.object fields) (key :: keys)

theorem walk_object (fields : List (Str × JsValue)) (key : Str) (keys : List Str) :
    walk (.object fields) (key :: keys) =
      (fields.lookup key).bind fun value => walk value keys := by
  rw [walk]
  cases fields.lookup key <;> rfl

theorem walk_eq_some_iff {keys : List Str} {value found : JsValue} :
    walk value keys = some found ↔ Selects value keys found := by
  constructor
  · intro h
    induction keys generalizing value with
    | nil =>
        rw [walk, Option.some.injEq] at h
        subst h
        exact .here
    | cons key keys ih =>
        cases value with
        | object fields =>
            rw [walk_object] at h
            obtain ⟨child, hchild, hrest⟩ := Option.bind_eq_some_iff.mp h
            exact .child hchild (ih hrest)
        | null | bool | number | string | array => cases h
  · intro h
    induction h with
    | here => rw [walk]
    | child hkey hfound ih => rw [walk_object, hkey, Option.bind_some, ih]

theorem walk_eq_none_iff {keys : List Str} {value : JsValue} :
    walk value keys = none ↔ Misses value keys := by
  constructor
  · intro h
    induction keys generalizing value with
    | nil => cases h
    | cons key keys ih =>
        cases value with
        | object fields =>
            rw [walk_object] at h
            cases hkey : fields.lookup key with
            | none => exact .absent hkey
            | some child =>
                rw [hkey, Option.bind_some] at h
                exact .child hkey (ih h)
        | null | bool | number | string | array =>
            exact .notObject fun fields hfields => by cases hfields
  · intro h
    induction h with
    | absent hkey => rw [walk_object, hkey, Option.bind_none]
    | @notObject value key keys hvalue =>
        cases value with
        | object fields => exact absurd rfl (hvalue fields)
        | null | bool | number | string | array => rfl
    | child hkey hvalue ih => rw [walk_object, hkey, Option.bind_some, ih]

end FastJsonPath

/-! ## Beside the regular engine -/

namespace Jayway

open FastJsonPath

/-- Paths of plain segments select children: such a path compiles, a read gives the selected
value, which may be a JSON null, and it fails where there is none. -/
def SelectsChildren (J : Jayway) : Prop :=
  ∀ segments : List PathSegment, segments ≠ [] →
    ∃ compiled, J.compile (pathText segments) = some compiled ∧ ∀ payload,
      (∀ found, Selects payload (keys segments) found →
        J.read payload compiled = some (some found)) ∧
      (Misses payload (keys segments) → J.read payload compiled = none)

end Jayway

namespace FastJsonPath

variable {J : Jayway}

/-- The caches hold what is computed. -/
structure Caches.Holds (caches : Caches J) : Prop where
  segments_eq : ∀ path value, (path, value) ∈ caches.segmentsCache → value = computeSegments path
  compiled_eq : ∀ path value, (path, value) ∈ caches.compiledCache → value = J.compile path

theorem holds_fresh (choices : Nat → Option Nat) : (fresh J choices).Holds where
  segments_eq _ _ h := by cases h
  compiled_eq _ _ h := by cases h

theorem segmentsOf_shows (path : Str) :
    Shows Caches.Holds (segmentsOf J path) (.ok (computeSegments path)) := by
  refine shows_cacheGet (segmentsCache J) path (shows_pure (computeSegments path)) ?_ ?_ ?_
  · intro caches hcaches value hvalue
    rw [hcaches.segments_eq path value hvalue]
  · exact fun caches hcaches => ⟨hcaches.segments_eq, hcaches.compiled_eq⟩
  · intro caches value hcaches hvalue
    refine ⟨fun other found hfound => ?_, hcaches.compiled_eq⟩
    rcases List.mem_cons.mp hfound with heq | hold
    · cases heq
      exact (Except.ok.inj hvalue).symm
    · exact hcaches.segments_eq other found hold

theorem compiledOf_shows (path : Str) :
    Shows Caches.Holds (compiledOf J path) (.ok (J.compile path)) := by
  refine shows_cacheGet (compiledCache J) path (shows_pure (J.compile path)) ?_ ?_ ?_
  · intro caches hcaches value hvalue
    rw [hcaches.compiled_eq path value hvalue]
  · exact fun caches hcaches => ⟨hcaches.segments_eq, hcaches.compiled_eq⟩
  · intro caches value hcaches hvalue
    refine ⟨hcaches.segments_eq, fun other found hfound => ?_⟩
    rcases List.mem_cons.mp hfound with heq | hold
    · cases heq
      exact (Except.ok.inj hvalue).symm
    · exact hcaches.compiled_eq other found hold

end FastJsonPath

namespace JsonPathDocument

open FastJsonPath

variable {J : Jayway} (nullIsJsNull : Bool)

/-- What the regular engine comes to, without the cache of compiled paths. -/
def regular (J : Jayway) (payload : JsValue) (path : Str) : Option JsValue :=
  (J.compile path).bind fun compiled => outcome (nullRead nullIsJsNull) (J.read payload compiled)

/-- What a read comes to, without the caches. -/
def reading (J : Jayway) (payload : JsValue) (path : Str) : Option JsValue :=
  match computeSegments path with
  | some segments => walk payload segments
  | none => regular nullIsJsNull J payload path

theorem readWithJsonPath_shows (payload : JsValue) (path : Str) :
    Shows Caches.Holds (readWithJsonPath J nullIsJsNull payload path)
      (.ok (regular nullIsJsNull J payload path)) := by
  have hbind : (.ok (regular nullIsJsNull J payload path) : Except Empty (Option JsValue)) =
      (.ok (J.compile path) >>= fun compiled => compiled.elim (pure none) fun compiled =>
        pure (outcome (nullRead nullIsJsNull) (J.read payload compiled))) := by
    rw [ok_bind, regular]
    cases J.compile path <;> rfl
  rw [hbind]
  refine shows_bind (compiledOf_shows path) fun compiled _ => ?_
  cases compiled with
  | none => exact shows_pure none
  | some compiled => exact shows_pure _

theorem read_shows (payload : JsValue) (path : Str) :
    Shows Caches.Holds (read J nullIsJsNull payload path)
      (.ok (reading nullIsJsNull J payload path)) := by
  have hbind : (.ok (reading nullIsJsNull J payload path) : Except Empty (Option JsValue)) =
      (.ok (computeSegments path) >>= fun segments => match segments with
        | some segments => pure (walk payload segments)
        | none => .ok (regular nullIsJsNull J payload path)) := by
    rw [ok_bind, reading]
    cases computeSegments path <;> rfl
  rw [hbind]
  refine shows_bind (segmentsOf_shows path) fun segments _ => ?_
  cases segments with
  | some segments => exact shows_pure _
  | none => exact readWithJsonPath_shows nullIsJsNull payload path

/-- An engine that selects children comes to what the walk comes to. -/
theorem regular_pathText (hJ : J.SelectsChildren) {segments : List PathSegment}
    (hne : segments ≠ []) (payload : JsValue) :
    regular nullIsJsNull J payload (pathText segments) = walk payload (keys segments) := by
  obtain ⟨compiled, hcompiled, hread⟩ := hJ segments hne
  rw [regular, hcompiled, Option.bind_some]
  cases hwalk : walk payload (keys segments) with
  | some found => rw [(hread payload).1 found (walk_eq_some_iff.mp hwalk), outcome]
  | none => rw [(hread payload).2 (walk_eq_none_iff.mp hwalk), outcome]

/-- The reads of payloads and paths that a process has made. -/
def after (J : Jayway) (choices : Nat → Option Nat) (history : List (JsValue × Str)) : Caches J :=
  afterAll (fun call => read J nullIsJsNull call.1 call.2) (fresh J choices) history

theorem holds_after (choices : Nat → Option Nat) (history : List (JsValue × Str)) :
    (after nullIsJsNull J choices history).Holds := by
  have hreads : ∀ call : JsValue × Str, Shows Caches.Holds (read J nullIsJsNull call.1 call.2)
      (.ok (reading nullIsJsNull J call.1 call.2)) := fun call =>
    read_shows nullIsJsNull call.1 call.2
  exact keeps_afterAll hreads (holds_fresh choices) history

/-- The path has one reading as segments, their keys are what `segmentsOf` gives, the walk
selects them in nested objects, and a read comes to what the walk and the regular engine do. -/
def ReadsAsChildren (J : Jayway) (nullIsJsNull : Bool) (path : Str) (caches : Caches J) : Prop :=
  ∃ segments : List PathSegment, pathText segments = path ∧
    (∀ others, pathText others = path → others = segments) ∧
    (segmentsOf J path caches).1 = .ok (some (keys segments)) ∧
    ∀ payload,
      (∀ found, walk payload (keys segments) = some found ↔
        Selects payload (keys segments) found) ∧
      (walk payload (keys segments) = none ↔ Misses payload (keys segments)) ∧
      (read J nullIsJsNull payload path caches).1 = .ok (walk payload (keys segments)) ∧
      (readWithJsonPath J nullIsJsNull payload path caches).1 =
        .ok (walk payload (keys segments))

/-- After any history, a recognised path is read child by child, like the regular engine
reads it. -/
theorem readsAsChildren_of_simplePath (J : Jayway) (hJ : J.SelectsChildren) (nullIsJsNull : Bool)
    (choices : Nat → Option Nat) (history : List (JsValue × Str)) (path : Str)
    (hpath : simplePath.matchesAll path = true) :
    ReadsAsChildren J nullIsJsNull path (after nullIsJsNull J choices history) := by
  obtain ⟨segments, hne, rfl⟩ := matchesAll_simplePath_iff.mp hpath
  have hholds := holds_after (J := J) nullIsJsNull choices history
  have hsegments := computeSegments_pathText hne
  refine ⟨segments, rfl, fun others hothers => pathText_injective hothers, ?_, fun payload =>
    ⟨fun found => walk_eq_some_iff, walk_eq_none_iff, ?_, ?_⟩⟩
  · rw [(segmentsOf_shows _).result hholds, hsegments]
  · rw [(read_shows nullIsJsNull payload _).result hholds, reading, hsegments]
  · rw [(readWithJsonPath_shows nullIsJsNull payload _).result hholds,
      regular_pathText nullIsJsNull hJ hne]

/-- An engine that knows the paths of plain segments only. -/
def childEngine : Jayway where
  Compiled := List Str
  compile := computeSegments
  read payload segments := (walk payload segments).map some

theorem selectsChildren_childEngine : childEngine.SelectsChildren := by
  intro segments hne
  refine ⟨keys segments, computeSegments_pathText hne, fun payload => ⟨fun found hfound => ?_,
    fun hmisses => ?_⟩⟩
  · exact congrArg (Option.map some) (walk_eq_some_iff.mpr hfound)
  · exact congrArg (Option.map some) (walk_eq_none_iff.mpr hmisses)

theorem readsAsChildren_of_simplePath_of_example :
    ReadsAsChildren childEngine false "$.attrs['x.y'][\"z\"]".toList
      (after false childEngine (fun _ => some 0) [(.null, "$.attrs".toList)]) :=
  readsAsChildren_of_simplePath childEngine selectsChildren_childEngine false _ _ _
    (by decide +kernel)

end JsonPathDocument

end Otoroshi
