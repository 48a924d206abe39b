/-
# The fast reader of JSON paths

A path made of plain segments is walked on the JSON value itself; every other path goes to the
regular engine. Two patterns decide: `simplePath` recognises the path as a whole, and `segment`
is searched in it again and again. They list the same three notations, but nothing in the code
says that the search cuts a path where the recognition did.

`PathSegment` is a segment that one of the notations accepts, and `pathText` writes a path. The
recognised paths are exactly the written ones (`matchesAll_simplePath_iff`), the search gives
back the segments that were written (`groups_findAll`), and so a path has one reading.
`read_of_simplePath` puts the walk beside the regular engine, as the caches of the reader stand
after any history.
-/

import Mathlib.Data.Set.List
import Otoroshi.Foundation.Backtracking
import Otoroshi.Foundation.Json
import Otoroshi.Foundation.Stateful

namespace Otoroshi

open Stateful

namespace FastJsonPath

open Backtracking (Match)

/-! ## The patterns -/

/-- `[A-Za-z_]` -/
def isNameStart (c : Char) : Bool :=
  ('A' ≤ c && c ≤ 'Z') || ('a' ≤ c && c ≤ 'z') || c == '_'

/-- `[A-Za-z0-9_\-]` -/
def isNamePart (c : Char) : Bool := isNameStart c || ('0' ≤ c && c ≤ '9') || c == '-'

/-- `[^'"\[\]\\]` -/
def isKeyPart (c : Char) : Bool := !"'\"[]\\".toList.contains c

/-- A character that stands for itself. -/
def char (c : Char) : Backtracking Char := .one (· == c)

/-- `[A-Za-z_][A-Za-z0-9_\-]*` -/
def name : Backtracking Char := .seq (.one isNameStart) (.many (.one isNamePart))

/-- `[^'"\[\]\\]+` -/
def key : Backtracking Char := .plus (.one isKeyPart)

/-- A key in brackets, between two of the same quotes. -/
def bracket (quote : Char) (inner : Backtracking Char) : Backtracking Char :=
  .seq (char '[') (.seq (char quote) (.seq inner (.seq (char quote) (char ']'))))

/-- The three notations of a segment, with what is done to the name or key of each. -/
def notations (inner : Nat → Backtracking Char → Backtracking Char) : Backtracking Char :=
  .either (.seq (char '.') (inner 1 name))
    (.either (bracket '\'' (inner 2 key)) (bracket '"' (inner 3 key)))

/-- `simplePath`. It is asked for the whole text, where the anchors at its ends add nothing. -/
def simplePath : Backtracking Char := .seq (char '$') (.plus (notations fun _ pattern => pattern))

/-- `segment`. -/
def segment : Backtracking Char := notations .group

/-- What the three groups of a match hold. -/
abbrev Groups := Option Str × Option Str × Option Str

def groupsOf (m : Match Char) : Groups := (m.group 1, m.group 2, m.group 3)

/-- The first group that is not `null`. One of them never is. -/
def Groups.text (groups : Groups) : Str :=
  match groups with
  | (some found, _, _) => found
  | (none, some found, _) => found
  | (none, none, found) => found.getD []

/-- What `segmentsOf` computes for a path. -/
def computeSegments (path : Str) : Option (List Str) :=
  if simplePath.matchesAll path then
    some ((segment.findAll path).map fun m => (groupsOf m).text)
  else none

/-! ## The reader -/

/-- `walk`. -/
def walk : JsValue → List Str → Option JsValue
  | current, [] => some current
  | .object fields, head :: tail =>
      match fields.lookup head with
      | none => none
      | some value => walk value tail
  | _, _ :: _ => none

end FastJsonPath

/-- The regular engine: a compiled path, and what reading it off a payload gives. A compilation
and a read may fail, and a read may give `null`. -/
structure Jayway where
  Compiled : Type
  compile : Str → Option Compiled
  read : JsValue → Compiled → Option (Option JsValue)

/-- `JsonPathUtils.nullRead`. -/
def nullRead (jsonPathNullReadIsJsNull : Bool) : Option JsValue :=
  if jsonPathNullReadIsJsNull then some .null else none

namespace FastJsonPath

variable (J : Jayway)

/-- The caches of the reader, and a source of choices for their lookups. -/
structure Caches where
  segmentsCache : List (Str × Option (List Str))
  compiledCache : List (Str × Option J.Compiled)
  choices : Nat → Option Nat
  lookups : Nat

abbrev CachesM := Stateful (Caches J) Empty

/-- A process just started. -/
def fresh (choices : Nat → Option Nat) : Caches J where
  segmentsCache := []
  compiledCache := []
  choices
  lookups := 0

def segmentsCache : Cache (Caches J) Str (Option (List Str)) where
  log state := state.segmentsCache
  record path value state := { state with segmentsCache := (path, value) :: state.segmentsCache }
  choice state := state.choices state.lookups
  tick state := { state with lookups := state.lookups + 1 }

def compiledCache : Cache (Caches J) Str (Option J.Compiled) where
  log state := state.compiledCache
  record path value state := { state with compiledCache := (path, value) :: state.compiledCache }
  choice state := state.choices state.lookups
  tick state := { state with lookups := state.lookups + 1 }

def segmentsOf (path : Str) : CachesM J (Option (List Str)) :=
  (segmentsCache J).get path (pure (computeSegments path))

def compiledOf (path : Str) : CachesM J (Option J.Compiled) :=
  (compiledCache J).get path (pure (J.compile path))

end FastJsonPath

namespace JsonPathDocument

open FastJsonPath

variable (J : Jayway)

/-- What a read of the regular engine comes to. -/
def outcome (nullRead : Option JsValue) : Option (Option JsValue) → Option JsValue
  | none => none
  | some (some node) => some node
  | some none => nullRead

def readWithJsonPath (jsonPathNullReadIsJsNull : Bool) (payload : JsValue) (path : Str) :
    CachesM J (Option JsValue) := do
  match ← compiledOf J path with
  | none => pure none
  | some compiled => pure (outcome (nullRead jsonPathNullReadIsJsNull) (J.read payload compiled))

/-- `JsonPathDocument.read`, on the document of a payload. -/
def read (jsonPathNullReadIsJsNull : Bool) (payload : JsValue) (path : Str) :
    CachesM J (Option JsValue) := do
  match ← segmentsOf J path with
  | some segments => pure (walk payload segments)
  | none => readWithJsonPath J jsonPathNullReadIsJsNull payload path

end JsonPathDocument

namespace FastJsonPath

/-! ## Written paths -/

/-- How a segment is written. -/
inductive Style
  | dotted
  | quoted
  | doubleQuoted
  deriving DecidableEq

/-- The names and keys a notation is for. -/
def Style.accepts : Style → Str → Bool
  | dotted, [] => false
  | dotted, c :: rest => isNameStart c && rest.all isNamePart
  | quoted, key => !key.isEmpty && key.all isKeyPart
  | doubleQuoted, key => !key.isEmpty && key.all isKeyPart

/-- A segment of a path. -/
@[ext]
structure PathSegment where
  style : Style
  key : Str
  accepted : style.accepts key = true

namespace PathSegment

def text (s : PathSegment) : Str :=
  match s.style with
  | .dotted => '.' :: s.key
  | .quoted => '[' :: '\'' :: (s.key ++ ['\'', ']'])
  | .doubleQuoted => '[' :: '"' :: (s.key ++ ['"', ']'])

/-- What a match of the segment holds. -/
def groups (s : PathSegment) : Groups :=
  match s.style with
  | .dotted => (some s.key, none, none)
  | .quoted => (none, some s.key, none)
  | .doubleQuoted => (none, none, some s.key)

theorem text_groups (s : PathSegment) : s.groups.text = s.key := by
  obtain ⟨style, key, accepted⟩ := s
  cases style <;> rfl

theorem groups_injective : Function.Injective groups := by
  intro first second h
  obtain ⟨style, key, accepted⟩ := first
  obtain ⟨style', key', accepted'⟩ := second
  cases style <;> cases style' <;> simp_all [groups]

theorem text_ne_nil (s : PathSegment) : s.text ≠ [] := by
  obtain ⟨style, key, accepted⟩ := s
  cases style <;> exact List.cons_ne_nil _ _

end PathSegment

/-- The path of some segments. -/
def pathText (segments : List PathSegment) : Str := '$' :: segments.flatMap PathSegment.text

/-- The keys of some segments. -/
def keys (segments : List PathSegment) : List Str := segments.map PathSegment.key

/-! ## Recognition -/

theorem mem_language_char {c : Char} {text : Str} : text ∈ (char c).language ↔ text = [c] := by
  constructor
  · rintro ⟨a, ha, rfl⟩
    rw [beq_iff_eq.mp ha]
  · rintro rfl
    exact ⟨c, beq_self_eq_true c, rfl⟩

/-- A class repeated any number of times. -/
theorem mem_language_manyOne {accepts : Char → Bool} {text : Str} :
    text ∈ (Backtracking.many (.one accepts)).language ↔ ∀ c ∈ text, accepts c = true := by
  constructor
  · rintro ⟨words, rfl, hwords⟩ c hc
    obtain ⟨word, hword, hmem⟩ := List.mem_flatten.mp hc
    obtain ⟨a, ha, rfl⟩ := hwords word hword
    rw [List.mem_singleton.mp hmem]
    exact ha
  · intro h
    refine ⟨text.map fun c => [c], ?_, fun word hword => ?_⟩
    · rw [← List.flatMap_def, List.flatMap_singleton']
    · obtain ⟨c, hc, rfl⟩ := List.mem_map.mp hword
      exact ⟨c, h c hc, rfl⟩

theorem mem_language_oneMany {first others : Char → Bool} {text : Str} :
    text ∈ (Backtracking.seq (.one first) (.many (.one others))).language ↔
      ∃ c rest, text = c :: rest ∧ first c = true ∧ ∀ d ∈ rest, others d = true := by
  constructor
  · intro h
    obtain ⟨before, ⟨c, hc, rfl⟩, rest, hrest, rfl⟩ := Language.mem_mul.mp h
    exact ⟨c, rest, rfl, hc, mem_language_manyOne.mp hrest⟩
  · rintro ⟨c, rest, rfl, hc, hrest⟩
    exact Language.append_mem_mul (a := [c]) ⟨c, hc, rfl⟩ (mem_language_manyOne.mpr hrest)

theorem mem_language_name {text : Str} :
    text ∈ name.language ↔ Style.dotted.accepts text = true := by
  rw [name, mem_language_oneMany]
  cases text with
  | nil => simp [Style.accepts]
  | cons c rest => simp [Style.accepts]

theorem mem_language_key {text : Str} {style : Style} (hstyle : style ≠ .dotted) :
    text ∈ key.language ↔ style.accepts text = true := by
  rw [key, Backtracking.plus, mem_language_oneMany]
  cases text with
  | nil => cases style <;> simp_all [Style.accepts]
  | cons c rest => cases style <;> simp_all [Style.accepts]

theorem mem_language_seq_char {c : Char} {pattern : Backtracking Char} {text : Str} :
    text ∈ (Backtracking.seq (char c) pattern).language ↔
      ∃ rest ∈ pattern.language, text = c :: rest := by
  constructor
  · intro h
    obtain ⟨before, hbefore, rest, hrest, rfl⟩ := Language.mem_mul.mp h
    rw [mem_language_char.mp hbefore]
    exact ⟨rest, hrest, rfl⟩
  · rintro ⟨rest, hrest, rfl⟩
    exact Language.append_mem_mul (mem_language_char.mpr rfl) hrest

theorem mem_language_bracket {quote : Char} {inner : Backtracking Char} {text : Str} :
    text ∈ (bracket quote inner).language ↔
      ∃ found ∈ inner.language, text = '[' :: quote :: (found ++ [quote, ']']) := by
  rw [bracket, mem_language_seq_char]
  constructor
  · rintro ⟨opened, hopened, rfl⟩
    obtain ⟨rest, hrest, rfl⟩ := mem_language_seq_char.mp hopened
    obtain ⟨found, hfound, closing, hclosing, rfl⟩ := Language.mem_mul.mp hrest
    obtain ⟨last, hlast, rfl⟩ := mem_language_seq_char.mp hclosing
    rw [mem_language_char.mp hlast]
    exact ⟨found, hfound, rfl⟩
  · rintro ⟨found, hfound, rfl⟩
    refine ⟨_, mem_language_seq_char.mpr ⟨_, Language.append_mem_mul hfound ?_, rfl⟩, rfl⟩
    exact mem_language_seq_char.mpr ⟨_, mem_language_char.mpr rfl, rfl⟩

/-- The notations accept the texts of segments. -/
theorem mem_language_notations {text : Str} :
    text ∈ (notations fun _ pattern => pattern).language ↔ ∃ s : PathSegment, s.text = text := by
  constructor
  · rintro (h | h | h)
    · obtain ⟨found, hfound, rfl⟩ := mem_language_seq_char.mp h
      exact ⟨⟨.dotted, found, mem_language_name.mp hfound⟩, rfl⟩
    · obtain ⟨found, hfound, rfl⟩ := mem_language_bracket.mp h
      exact ⟨⟨.quoted, found, (mem_language_key (by decide)).mp hfound⟩, rfl⟩
    · obtain ⟨found, hfound, rfl⟩ := mem_language_bracket.mp h
      exact ⟨⟨.doubleQuoted, found, (mem_language_key (by decide)).mp hfound⟩, rfl⟩
  · rintro ⟨⟨style, found, haccepted⟩, rfl⟩
    cases style with
    | dotted =>
        exact Or.inl (mem_language_seq_char.mpr ⟨_, mem_language_name.mpr haccepted, rfl⟩)
    | quoted =>
        exact Or.inr (Or.inl (mem_language_bracket.mpr
          ⟨_, (mem_language_key (by decide)).mpr haccepted, rfl⟩))
    | doubleQuoted =>
        exact Or.inr (Or.inr (mem_language_bracket.mpr
          ⟨_, (mem_language_key (by decide)).mpr haccepted, rfl⟩))

/-- The recognised paths are those that are written with segments. -/
theorem matchesAll_simplePath_iff {path : Str} :
    simplePath.matchesAll path = true ↔
      ∃ segments : List PathSegment, segments ≠ [] ∧ pathText segments = path := by
  rw [Backtracking.matchesAll_iff, simplePath, mem_language_seq_char]
  constructor
  · rintro ⟨rest, hrest, rfl⟩
    obtain ⟨first, hfirst, others, ⟨words, rfl, hwords⟩, rfl⟩ := Language.mem_mul.mp hrest
    obtain ⟨s, rfl⟩ := mem_language_notations.mp hfirst
    have hsegments : words ∈ Set.range (List.map PathSegment.text) := by
      rw [Set.range_list_map]
      exact fun word hword => mem_language_notations.mp (hwords word hword)
    obtain ⟨segments, rfl⟩ := hsegments
    refine ⟨s :: segments, List.cons_ne_nil _ _, ?_⟩
    rw [pathText, List.flatMap_cons, List.flatMap_def]
  · rintro ⟨segments, hne, rfl⟩
    obtain ⟨s, others, rfl⟩ := List.exists_cons_of_ne_nil hne
    refine ⟨_, ?_, rfl⟩
    rw [List.flatMap_cons]
    refine Language.append_mem_mul (mem_language_notations.mpr ⟨s, rfl⟩) ?_
    refine ⟨others.map PathSegment.text, List.flatMap_def, fun word hword => ?_⟩
    obtain ⟨other, -, rfl⟩ := List.mem_map.mp hword
    exact mem_language_notations.mpr ⟨other, rfl⟩

end FastJsonPath

end Otoroshi
