/-
# Laws of predicates

The sites of a predicate are the predicates and operators in it, each with the source that it
is evaluated on. A match need not come to all of them. A site is lawful when it answers from
every pool, and when its answer is what the laws of its operator say.

What stands in the way is at the site itself: a value that is missing, a bound that is no number,
a pattern that does not compile, a piece of a path that is no index, an operand of another kind,
and a value that `$all` lists twice. `lawful_iff` says that there is nothing else.
-/

import Mathlib.Logic.Relation
import Otoroshi.Foundation.Fallible
import Otoroshi.Utils.Matching

namespace Otoroshi

namespace Match

open Stateful UpToEquality

variable {E : RegexEngine}

/-! ## Sites -/

inductive Site
  | predicate (source : JsValue) (fields : List (Str × JsValue))
  | operator (fields : List (Str × JsValue)) (key : Str) (source : JsValue)

namespace Site

/-- What is evaluated for a site, unless the answer is known before. -/
inductive Calls : Site → Site → Prop
  | root {source : JsValue} {fields : List (Str × JsValue)} (hfields : isOperator fields = true) :
      Calls (.predicate source fields)
        (.operator fields "$root".toList (Json.obj [("$root", source)]))
  | fieldOperator {source : JsValue} {fields o : List (Str × JsValue)} {key : Str}
      (hfields : isOperator fields = false) (hmem : (key, .object o) ∈ fields)
      (ho : isOperator o = true) : Calls (.predicate source fields) (.operator o key source)
  | fieldPredicate {source : JsValue} {fields o obj : List (Str × JsValue)} {key : Str}
      (hfields : isOperator fields = false) (hmem : (key, .object o) ∈ fields)
      (ho : isOperator o = false) (hobj : source.field key = some (.object obj)) :
      Calls (.predicate source fields) (.predicate (.object obj) o)
  | clause {source dest : JsValue} {rest o : List (Str × JsValue)} {name key : Str}
      {clauses : List JsValue} {op : Op} (hname : Op.ofName name = some op)
      (hop : op ∈ [.and, .or, .nor]) (hdest : source.field key = some dest)
      (hmem : .object o ∈ clauses) :
      Calls (.operator ((name, .array clauses) :: rest) key source) (.predicate dest o)
  | operand {source dest : JsValue} {rest o : List (Str × JsValue)} {name key : Str} {op : Op}
      (hname : Op.ofName name = some op) (hop : op ∈ [.eq, .ne])
      (hdest : source.field key = some dest) :
      Calls (.operator ((name, .object o) :: rest) key source) (.predicate dest o)
  | not {source : JsValue} {rest o : List (Str × JsValue)} {name key : Str}
      (hname : Op.ofName name = some .not) :
      Calls (.operator ((name, .object o) :: rest) key source) (.operator o key source)

variable (digit : Char → Option Nat)

def run : Site → Answer E
  | .predicate source fields => matchesSource digit source fields
  | .operator fields key source => matchesOperator digit fields key source

end Site

/-! ## Laws -/

/-- The first operator is the negation of the second. -/
inductive Negates : Op → Op → Prop
  | ne : Negates .ne .eq
  | nin : Negates .nin .in
  | nor : Negates .nor .or

section Laws

variable (E : RegexEngine) (digit : Char → Option Nat)

/-- The laws of the operator of a name. -/
structure Laws (name : Str) (operand : JsValue) (rest : List (Str × JsValue)) (key : Str)
    (source : JsValue) : Prop where
  negation : ∀ op other, Negates op other → Op.ofName name = some op →
    (matchesOperator digit ((name, operand) :: rest) key source : Answer E) =
      (! ·) <$> matchesOperator digit ((other.name.toList, operand) :: rest) key source
  conjunction : Op.ofName name = some .and → ∀ clauses dest, operand = .array clauses →
    source.field key = some dest → ∀ pool : RegexPool E, ∃ answers after,
      clauses.mapM (singleMatches digit dest false) pool = (.ok answers, after) ∧
        (matchesOperator digit ((name, operand) :: rest) key source pool).1 =
          .ok (answers.all id)
  disjunction : Op.ofName name = some .or → ∀ clauses dest, operand = .array clauses →
    source.field key = some dest → ∀ pool : RegexPool E, ∃ answers after,
      clauses.mapM (singleMatches digit dest false) pool = (.ok answers, after) ∧
        (matchesOperator digit ((name, operand) :: rest) key source pool).1 =
          .ok (answers.any id)
  listing : Op.ofName name = some .all → ∀ value, operand = .array value →
    ∀ pool : RegexPool E,
      (matchesOperator digit ((name, operand) :: rest) key source pool).1 = .ok true ↔
        ∃ arr, source.field key = some (.array arr) ∧ ∀ item ∈ value, Among item arr

namespace Site

/-- The site answers, whatever is in the pool, and as its operator should. -/
structure Lawful (site : Site) : Prop where
  returns : Yields (site.run digit : Answer E) fun _ => True
  laws : ∀ name operand rest key source, site = .operator ((name, operand) :: rest) key source →
    Laws E digit name operand rest key source

end Site

/-! ## Conditions -/

/-- Every piece of digits of a path that meets an array is the index of an item. -/
def Indexes (key : Str) (source : JsValue) : Prop :=
  ∀ before path after found, splitText ".".toList key = before ++ path :: after →
    before.foldlM (pathStep digit) (source, .string []) = .ok found →
    ∀ items, found.1 = .array items → (path.all fun c => (digit c).isSome) = true →
      ∃ index item, Pagination.toIntOption digit path = some index ∧
        items[index.toInt.toNat]? = some item

/-- The bounds that a number is compared with are numbers. -/
def HasBounds (less : Rat → Rat → Bool) (o : List (Str × JsValue)) (nbr : Rat) : Prop :=
  ∃ min, (JsValue.object o).select "min" = some (.number min) ∧
    (less min nbr = true → ∃ max, (JsValue.object o).select "max" = some (.number max))

/-- What an operator needs of its operand and of the source. -/
def OperatorMeets (name : Str) (operand : JsValue) (key : Str) (source : JsValue) : Prop :=
  match Op.ofName name, operand with
  | some .wildcard, .string wildcard =>
      ∀ str, source.field key = some (.string str) →
        (E.compile (RegexPool.processedPattern wildcard)).isSome
  | some .regex, .string regex =>
      ∀ str, source.field key = some (.string str) → (E.compile regex).isSome
  | some .between, .object o =>
      ∀ nbr, source.field key = some (.number nbr) → HasBounds (fun low high => low < high) o nbr
  | some .betweene, .object o =>
      ∀ nbr, source.field key = some (.number nbr) → HasBounds (fun low high => low ≤ high) o nbr
  | some .and, .array _ | some .or, .array _ | some .in, .array _ | some .nor, .array _
  | some .nin, .array _ | some .eq, _ | some .ne, _ => ∃ value, source.field key = some value
  | some .nor, _ | some .nin, _ => False
  | some .contains, _ => Indexes digit key source
  | some .all, .array value =>
      ∀ arr, source.field key = some (.array arr) → (∀ item ∈ value, Among item arr) →
        value.Pairwise fun first second => (first == second) = false
  | _, _ => True

def Site.Meets : Site → Prop
  | .predicate _ _ => True
  | .operator [] _ _ => False
  | .operator ((name, operand) :: _) key source => OperatorMeets E digit name operand key source

end Laws

/-! ## Answers -/

variable {digit : Char → Option Nat} {source dest : JsValue} {key name : Str}
  {fields rest o : List (Str × JsValue)} {clauses : List JsValue}

/-- From every pool there is an answer. -/
abbrev Returns (answer : Answer E) : Prop := Yields answer fun _ => True

theorem returns_pure (value : Bool) : Returns (pure value : Answer E) := yields_pure trivial

theorem returns_not {answer : Answer E} (h : Returns answer) :
    Returns (do pure !(← answer) : Answer E) :=
  yields_bind h fun value _ => returns_pure !value

theorem forced_of_some {value : JsValue} (h : source.field key = some value) :
    (forced ((source.field key).as .jsValue) : Stateful (RegexPool E) MatchException JsValue) =
      pure value := by
  rw [h]
  rfl

theorem forced_of_none (h : source.field key = none) :
    (forced ((source.field key).as .jsValue) : Stateful (RegexPool E) MatchException JsValue) =
      .throw (.json .jsResult) := by
  rw [h]
  rfl

theorem returns_forced {next : JsValue → Answer E} (h : ∃ value, source.field key = some value)
    (hnext : ∀ value, source.field key = some value → Returns (next value)) :
    Returns (forced ((source.field key).as .jsValue) >>= next) := by
  obtain ⟨value, hvalue⟩ := h
  rw [forced_of_some hvalue, pure_bind]
  exact hnext value hvalue

theorem returns_singleMatches {clause : JsValue} {literalMatch : Bool}
    (h : literalMatch = false → ∀ o, clause = .object o →
      Returns (matchesSource digit dest o : Answer E)) :
    Returns (singleMatches digit dest literalMatch clause : Answer E) := by
  rw [singleMatches.eq_def]
  split
  · exact returns_pure _
  · exact returns_pure _
  · exact returns_pure _
  · next o =>
      split
      · exact returns_pure _
      · next hliteral => exact h (Bool.not_eq_true _ ▸ hliteral) o rfl
  · exact returns_pure _

theorem returns_allMatch
    (h : ∀ clause ∈ clauses, Returns (singleMatches digit dest false clause : Answer E)) :
    Returns (allMatch digit dest clauses : Answer E) := by
  induction clauses with
  | nil =>
      rw [allMatch]
      exact returns_pure true
  | cons clause clauses ih =>
      rw [List.forall_mem_cons] at h
      rw [allMatch]
      refine yields_bind h.1 fun value _ => ?_
      cases value with
      | true => exact ih h.2
      | false => exact returns_pure false

theorem returns_anyMatch {literalMatch : Bool}
    (h : ∀ clause ∈ clauses, Returns (singleMatches digit dest literalMatch clause : Answer E)) :
    Returns (anyMatch digit dest literalMatch clauses : Answer E) := by
  induction clauses with
  | nil =>
      rw [anyMatch]
      exact returns_pure false
  | cons clause clauses ih =>
      rw [List.forall_mem_cons] at h
      rw [anyMatch]
      refine yields_bind h.1 fun value _ => ?_
      cases value with
      | true => exact returns_pure true
      | false => exact ih h.2

/-! ### Patterns -/

section Patterns

variable {text processed str : Str} {selected : JsLookupResult}

theorem yields_pooled (h : (E.compile processed).isSome) :
    Yields (pooled (RegexPool.getOrCompile text processed) :
      Stateful (RegexPool E) MatchException (Regex E)) fun _ => True := by
  intro pool
  rw [pooled, RegexPool.getOrCompile]
  cases hlookup : pool.lookup text with
  | some regex => exact ⟨regex, pool, rfl, trivial⟩
  | none =>
      obtain ⟨compiled, hcompiled⟩ := Option.isSome_iff_exists.mp h
      exact ⟨⟨text, compiled⟩, (text, ⟨text, compiled⟩) :: pool,
        by rw [RegexPool.compile, hcompiled]; rfl, trivial⟩

theorem returns_matchesPattern
    (h : ∀ str, selected = some (.string str) → (E.compile processed).isSome) :
    Returns (matchesPattern (RegexPool.getOrCompile text processed) selected : Answer E) := by
  rw [matchesPattern]
  cases hselected : selected.asOpt .string with
  | none => exact returns_pure false
  | some str =>
      have hstring := (asOpt_eq_some_iff string_eq_ok_iff).mp hselected
      exact yields_bind (yields_pooled (h str hstring)) fun regex _ => returns_pure _

/-- With an empty pool the text is compiled. -/
theorem compile_of_returns
    (h : Returns (matchesPattern (RegexPool.getOrCompile text processed) selected : Answer E))
    (hselected : selected = some (.string str)) : (E.compile processed).isSome := by
  obtain ⟨value, after, hrun, -⟩ := h []
  rw [matchesPattern, (asOpt_eq_some_iff string_eq_ok_iff).mpr hselected] at hrun
  obtain ⟨regex, middle, hfirst, -⟩ := exists_of_bind hrun
  cases hcompile : E.compile processed with
  | some compiled => rfl
  | none =>
      rw [pooled, RegexPool.getOrCompile, RegexPool.compile, hcompile] at hfirst
      cases hfirst

end Patterns

/-! ### Bounds -/

section Bounds

variable {less : Rat → Rat → Bool} {nbr : Rat} {selected : JsLookupResult}

theorem jsNumber_eq_ok_iff (json : JsValue) (nbr : Rat) :
    Reads.jsNumber json = .ok nbr ↔ json = .number nbr := by
  cases json <;> simp [Reads.jsNumber]

theorem forced_ok {α : Type} (value : α) :
    (forced (.ok value) : Stateful (RegexPool E) MatchException α) = pure value := rfl

theorem exists_of_returns_forced {α : Type} {result : JsResult α} {next : α → Answer E}
    (h : Returns (forced result >>= next)) :
    ∃ value, result = .ok value ∧ Returns (next value) := by
  cases result with
  | ok value => exact ⟨value, rfl, h⟩
  | error e =>
      obtain ⟨value, after, hrun, -⟩ := h []
      cases hrun

theorem returns_isBetween (h : ∀ nbr, selected = some (.number nbr) → HasBounds less o nbr) :
    Returns (isBetween less o selected : Answer E) := by
  rw [isBetween]
  cases hselected : selected.asOpt .jsNumber with
  | none => exact returns_pure false
  | some nbr =>
      obtain ⟨min, hmin, hmax⟩ := h nbr ((asOpt_eq_some_iff jsNumber_eq_ok_iff).mp hselected)
      dsimp only
      rw [(as_eq_ok_iff jsNumber_eq_ok_iff).mpr hmin, forced_ok, pure_bind]
      cases hless : less min nbr with
      | false => exact returns_pure false
      | true =>
          obtain ⟨max, hmax⟩ := hmax hless
          rw [(as_eq_ok_iff jsNumber_eq_ok_iff).mpr hmax, forced_ok, if_pos rfl, pure_bind]
          exact returns_pure _

theorem hasBounds_of_returns (h : Returns (isBetween less o selected : Answer E))
    (hselected : selected = some (.number nbr)) : HasBounds less o nbr := by
  rw [isBetween, (asOpt_eq_some_iff jsNumber_eq_ok_iff).mpr hselected] at h
  obtain ⟨min, hmin, hrest⟩ := exists_of_returns_forced h
  refine ⟨min, (as_eq_ok_iff jsNumber_eq_ok_iff).mp hmin, fun hless => ?_⟩
  rw [if_pos hless] at hrest
  obtain ⟨max, hmax, -⟩ := exists_of_returns_forced hrest
  exact ⟨max, (as_eq_ok_iff jsNumber_eq_ok_iff).mp hmax⟩

end Bounds

/-! ### Paths -/

theorem pathStep_eq_ok_iff {found : JsValue × JsValue} {path : Str} :
    (∃ next, pathStep digit found path = .ok next) ↔
      ∀ items, found.1 = .array items → (path.all fun c => (digit c).isSome) = true →
        ∃ index item, Pagination.toIntOption digit path = some index ∧
          items[index.toInt.toNat]? = some item := by
  rw [pathStep]
  split
  · next hdigits =>
      split
      · next items hitems =>
          rw [hitems]
          constructor
          · rintro ⟨next, hnext⟩ others hothers -
            cases hothers
            split at hnext
            · cases hnext
            · next index hindex =>
                split at hnext
                · next item hitem => exact ⟨index, item, hindex, hitem⟩
                · cases hnext
          · intro h
            obtain ⟨index, item, hindex, hitem⟩ := h items rfl hdigits
            exact ⟨(item, item), by rw [hindex]; dsimp only; rw [hitem]⟩
      · next hother => exact iff_of_true ⟨_, rfl⟩ fun items hitems => absurd hitems (hother items)
  · next hdigits =>
      refine iff_of_true ?_ fun items _ hall => absurd hall hdigits
      split <;> exact ⟨_, rfl⟩

theorem getValueAtPath_eq_ok_iff :
    (∃ found, getValueAtPath digit key source = .ok found) ↔ Indexes digit key source := by
  have hmap : (∃ found, getValueAtPath digit key source = .ok found) ↔
      ∃ last, (splitText ".".toList key).foldlM (pathStep digit) (source, .string []) =
        .ok last := by
    simp only [getValueAtPath, map_eq_ok_iff]
    exact ⟨fun ⟨_, last, h, _⟩ => ⟨last, h⟩, fun ⟨last, h⟩ => ⟨_, last, h, rfl⟩⟩
  rw [hmap, foldlM_eq_ok_iff]
  simp only [pathStep_eq_ok_iff]
  exact Iff.rfl

/-! ### Operators -/

section Operators

variable {operand : JsValue}

/-- Clauses that are predicates are evaluated on the value that was selected. -/
theorem returns_clauses {op : Op} (hname : Op.ofName name = some op)
    (hop : op ∈ [.and, .or, .nor]) (hdest : source.field key = some dest)
    (hcall : ∀ site, Site.Calls (.operator ((name, .array clauses) :: rest) key source) site →
      Returns (site.run digit : Answer E)) :
    ∀ clause ∈ clauses, Returns (singleMatches digit dest false clause : Answer E) := by
  intro clause hclause
  apply returns_singleMatches
  rintro - o rfl
  exact hcall _ (.clause hname hop hdest hclause)

theorem returns_operand {op : Op} (hname : Op.ofName name = some op) (hop : op ∈ [.eq, .ne])
    (hdest : source.field key = some dest)
    (hcall : ∀ site, Site.Calls (.operator ((name, operand) :: rest) key source) site →
      Returns (site.run digit : Answer E)) :
    Returns (singleMatches digit dest false operand : Answer E) := by
  apply returns_singleMatches
  rintro - o rfl
  exact hcall _ (.operand hname hop hdest)

/-- Values of a list are compared as they are. -/
theorem returns_literals (dest : JsValue) (clauses : List JsValue) :
    Returns (anyMatch digit dest true clauses : Answer E) := by
  apply returns_anyMatch
  intro clause _
  apply returns_singleMatches
  intro h
  contradiction

theorem returns_operator (hmeets : OperatorMeets E digit name operand key source)
    (hcall : ∀ site, Site.Calls (.operator ((name, operand) :: rest) key source) site →
      Returns (site.run digit : Answer E)) :
    Returns (matchesOperator digit ((name, operand) :: rest) key source : Answer E) := by
  rw [OperatorMeets.eq_def] at hmeets
  rw [matchesOperator.eq_def]
  dsimp only
  split
  · next hname =>
      rw [hname] at hmeets
      exact returns_matchesPattern hmeets
  · next hname =>
      rw [hname] at hmeets
      exact returns_matchesPattern hmeets
  · next hname =>
      rw [hname] at hmeets
      exact returns_isBetween hmeets
  · next hname =>
      rw [hname] at hmeets
      exact returns_isBetween hmeets
  · exact returns_pure _
  · exact returns_pure _
  · exact returns_pure _
  · exact returns_pure _
  · next hname =>
      rw [hname] at hmeets
      exact returns_forced hmeets fun dest hdest =>
        returns_allMatch (returns_clauses hname (by decide) hdest hcall)
  · next hname =>
      rw [hname] at hmeets
      exact returns_forced hmeets fun dest hdest =>
        returns_anyMatch (returns_clauses hname (by decide) hdest hcall)
  · next hname =>
      rw [hname] at hmeets
      exact returns_forced hmeets fun dest hdest =>
        returns_not (returns_anyMatch (returns_clauses hname (by decide) hdest hcall))
  · next hname =>
      rw [hname] at hmeets
      exact returns_forced hmeets fun dest _ => returns_literals dest _
  · next hname =>
      rw [hname] at hmeets
      exact returns_forced hmeets fun dest _ => returns_not (returns_literals dest _)
  · exact returns_pure _
  · next hname =>
      rw [hname] at hmeets
      obtain ⟨found, hfound⟩ := getValueAtPath_eq_ok_iff.mpr hmeets
      rw [hfound]
      exact returns_pure _
  · exact returns_pure _
  · next hname => exact returns_not (hcall _ (.not hname))
  · next hname =>
      rw [hname] at hmeets
      exact returns_forced hmeets fun dest hdest =>
        returns_operand hname (by decide) hdest hcall
  · next hname =>
      rw [hname] at hmeets
      exact returns_forced hmeets fun dest hdest =>
        returns_not (returns_operand hname (by decide) hdest hcall)
  · exact returns_pure _
  · exact returns_pure _

theorem returns_field {value : JsValue} (hfields : isOperator fields = false)
    (hmem : (key, value) ∈ fields)
    (hcall : ∀ site, Site.Calls (.predicate source fields) site →
      Returns (site.run digit : Answer E)) :
    Returns (matchesField digit source key value : Answer E) := by
  cases value with
  | null => rw [matchesField]; exact returns_pure _
  | bool value => rw [matchesField]; exact returns_pure _
  | number value => rw [matchesField]; exact returns_pure _
  | string value => rw [matchesField]; exact returns_pure _
  | array value => rw [matchesField]; exact returns_pure _
  | object o =>
      rw [matchesField]
      split
      · next ho => exact hcall _ (.fieldOperator hfields hmem ho)
      · next ho =>
          split
          · next obj hobj =>
              exact hcall _ (.fieldPredicate hfields hmem (Bool.not_eq_true _ ▸ ho)
                ((asOpt_eq_some_iff jsObject_eq_ok_iff).mp hobj))
          · exact returns_pure _

theorem returns_fields
    (h : ∀ field ∈ fields, Returns (matchesField digit source field.1 field.2 : Answer E)) :
    Returns (matchesFields digit source fields : Answer E) := by
  induction fields with
  | nil =>
      rw [matchesFields]
      exact returns_pure true
  | cons field fields ih =>
      rw [List.forall_mem_cons] at h
      rw [matchesFields]
      refine yields_bind h.1 fun value _ => ?_
      cases value with
      | true => exact ih h.2
      | false => exact returns_pure false

end Operators

/-! ### Sites -/

namespace Site

/-- How much there is left to evaluate at a site. -/
noncomputable def size : Site → Nat
  | .predicate _ fields => 2 * sizeOf fields + 1
  | .operator fields _ _ => 2 * sizeOf fields

theorem size_lt_of_calls {site called : Site} (h : Calls site called) :
    called.size < site.size := by
  cases h with
  | root => exact Nat.lt_succ_self _
  | fieldOperator _ hmem _ =>
      have := List.sizeOf_lt_of_mem hmem
      simp only [Prod.mk.sizeOf_spec, JsValue.object.sizeOf_spec] at this
      simp only [size]
      omega
  | fieldPredicate _ hmem _ _ =>
      have := List.sizeOf_lt_of_mem hmem
      simp only [Prod.mk.sizeOf_spec, JsValue.object.sizeOf_spec] at this
      simp only [size]
      omega
  | clause _ _ _ hmem =>
      have := List.sizeOf_lt_of_mem hmem
      simp only [JsValue.object.sizeOf_spec] at this
      simp only [size, List.cons.sizeOf_spec, Prod.mk.sizeOf_spec, JsValue.array.sizeOf_spec]
      omega
  | operand =>
      simp only [size, List.cons.sizeOf_spec, Prod.mk.sizeOf_spec, JsValue.object.sizeOf_spec]
      omega
  | not =>
      simp only [size, List.cons.sizeOf_spec, Prod.mk.sizeOf_spec, JsValue.object.sizeOf_spec]
      omega

/-- A site answers if the sites it calls do. -/
theorem returns_of_calls {site : Site} (hmeets : site.Meets E digit)
    (hcall : ∀ called, Calls site called → Returns (called.run digit : Answer E)) :
    Returns (site.run digit : Answer E) := by
  cases site with
  | predicate source fields =>
      rw [run, matchesSource]
      split
      · next hfields => exact hcall _ (.root hfields)
      · next hfields =>
          exact returns_fields fun field hfield =>
            returns_field (Bool.not_eq_true _ ▸ hfields) hfield hcall
  | operator fields key source =>
      cases fields with
      | nil => exact absurd hmeets id
      | cons entry rest => exact returns_operator hmeets hcall

theorem returns_of_meets {site : Site}
    (h : ∀ called, Relation.ReflTransGen Calls site called → called.Meets E digit) :
    Returns (site.run digit : Answer E) :=
  returns_of_calls (h site .refl) fun called hcall =>
    returns_of_meets fun later hlater => h later (.head hcall hlater)
termination_by site.size
decreasing_by exact size_lt_of_calls hcall

end Site

/-! ## What the operators mean -/

section Meaning

variable {operand : JsValue}

theorem mapM_allMatch
    (h : ∀ clause ∈ clauses, Returns (singleMatches digit dest false clause : Answer E))
    (pool : RegexPool E) :
    ∃ answers after,
      clauses.mapM (singleMatches digit dest false) pool = (.ok answers, after) ∧
        (allMatch digit dest clauses pool).1 = .ok (answers.all id) := by
  induction clauses generalizing pool with
  | nil =>
      rw [allMatch]
      exact ⟨[], pool, rfl, rfl⟩
  | cons clause clauses ih =>
      rw [List.forall_mem_cons] at h
      obtain ⟨value, middle, hrun, -⟩ := h.1 pool
      obtain ⟨answers, after, hrest, hall⟩ := ih h.2 middle
      refine ⟨value :: answers, after, ?_, ?_⟩
      · rw [List.mapM_cons, bind_of_ok hrun, bind_of_ok hrest]
        rfl
      · rw [allMatch, bind_of_ok hrun]
        cases value with
        | true => exact hall
        | false => rfl

theorem mapM_anyMatch
    (h : ∀ clause ∈ clauses, Returns (singleMatches digit dest false clause : Answer E))
    (pool : RegexPool E) :
    ∃ answers after,
      clauses.mapM (singleMatches digit dest false) pool = (.ok answers, after) ∧
        (anyMatch digit dest false clauses pool).1 = .ok (answers.any id) := by
  induction clauses generalizing pool with
  | nil =>
      rw [anyMatch]
      exact ⟨[], pool, rfl, rfl⟩
  | cons clause clauses ih =>
      rw [List.forall_mem_cons] at h
      obtain ⟨value, middle, hrun, -⟩ := h.1 pool
      obtain ⟨answers, after, hrest, hany⟩ := ih h.2 middle
      refine ⟨value :: answers, after, ?_, ?_⟩
      · rw [List.mapM_cons, bind_of_ok hrun, bind_of_ok hrest]
        rfl
      · rw [anyMatch, bind_of_ok hrun]
        cases value with
        | true => rfl
        | false => exact hany

theorem listsAll_eq_true_iff {value : List JsValue} {selected : JsLookupResult} :
    listsAll value selected = true ↔
      ∃ arr, selected = some (.array arr) ∧
        value.Pairwise (fun first second => (first == second) = false) ∧
          ∀ item ∈ value, Among item arr := by
  rw [listsAll, Option.any_eq_true]
  refine exists_congr fun arr => ?_
  rw [asOpt_eq_some_iff jsArray_eq_ok_iff, beq_iff_eq, length_distinct_inter_eq_iff]

theorem matchesOperator_all {value : List JsValue} (hname : Op.ofName name = some .all) :
    (matchesOperator digit ((name, .array value) :: rest) key source : Answer E) =
      pure (listsAll value (source.field key)) := by
  rw [matchesOperator.eq_def]
  dsimp only
  rw [hname]

theorem ofName_name (op : Op) : Op.ofName op.name.toList = some op := by
  cases op <;> decide

theorem bind_not {α : Type} (first : Stateful (RegexPool E) MatchException α)
    (next : α → Answer E) :
    (do pure !(← next (← first)) : Answer E) = (! ·) <$> (first >>= next) := by
  rw [map_eq_pure_bind, bind_assoc]

/-- The operand of a negation is one that the operator it negates takes as well. -/
theorem negation_of_meets (hmeets : OperatorMeets E digit name operand key source) {op other : Op}
    (hnegates : Negates op other) (hname : Op.ofName name = some op) :
    (matchesOperator digit ((name, operand) :: rest) key source : Answer E) =
      (! ·) <$> matchesOperator digit ((other.name.toList, operand) :: rest) key source := by
  rw [OperatorMeets.eq_def, hname] at hmeets
  rw [matchesOperator.eq_def, matchesOperator.eq_def digit (_ :: _)]
  dsimp only
  rw [hname, ofName_name]
  cases hnegates with
  | ne => exact bind_not _ _
  | nin =>
      cases operand with
      | array value => exact bind_not _ _
      | _ => exact absurd hmeets id
  | nor =>
      cases operand with
      | array value => exact bind_not _ _
      | _ => exact absurd hmeets id

theorem laws_of_returns (hmeets : OperatorMeets E digit name operand key source)
    (hcall : ∀ site, Site.Calls (.operator ((name, operand) :: rest) key source) site →
      Returns (site.run digit : Answer E)) :
    Laws E digit name operand rest key source where
  negation op other := negation_of_meets hmeets
  conjunction hname clauses dest hoperand hdest pool := by
    subst hoperand
    obtain ⟨answers, after, hrun, hall⟩ :=
      mapM_allMatch (returns_clauses hname (by decide) hdest hcall) pool
    refine ⟨answers, after, hrun, ?_⟩
    rw [matchesOperator.eq_def]
    dsimp only
    rw [hname]
    dsimp only
    rw [forced_of_some hdest, pure_bind]
    exact hall
  disjunction hname clauses dest hoperand hdest pool := by
    subst hoperand
    obtain ⟨answers, after, hrun, hany⟩ :=
      mapM_anyMatch (returns_clauses hname (by decide) hdest hcall) pool
    refine ⟨answers, after, hrun, ?_⟩
    rw [matchesOperator.eq_def]
    dsimp only
    rw [hname]
    dsimp only
    rw [forced_of_some hdest, pure_bind]
    exact hany
  listing hname value hoperand pool := by
    subst hoperand
    rw [OperatorMeets.eq_def, hname] at hmeets
    rw [matchesOperator_all hname, pure_apply, Except.ok.injEq, listsAll_eq_true_iff]
    refine exists_congr fun arr => and_congr_right fun harr => ?_
    exact and_iff_right_of_imp (hmeets arr harr)

theorem not_returns_throw (e : MatchException) : ¬ Returns (.throw e : Answer E) := by
  intro h
  obtain ⟨value, after, hrun, -⟩ := h []
  cases hrun

/-- A value that an operator needs is there if it answers. -/
theorem exists_of_returns {next : JsValue → Answer E}
    (h : Returns (forced ((source.field key).as .jsValue) >>= next)) :
    ∃ value, source.field key = some value := by
  cases hfield : source.field key with
  | some value => exact ⟨value, rfl⟩
  | none =>
      obtain ⟨value, hvalue, -⟩ := exists_of_returns_forced h
      rw [hfield] at hvalue
      cases hvalue

/-- Operators for lists answer no where they do not get one. -/
theorem matchesOperator_of_not_array {op : Op} (hname : Op.ofName name = some op)
    (hop : op ∈ [.or, .nor, .in, .nin]) (hoperand : ∀ items, operand ≠ .array items) :
    (matchesOperator digit ((name, operand) :: rest) key source : Answer E) = pure false := by
  rw [matchesOperator.eq_def]
  dsimp only
  rw [hname]
  simp only [List.mem_cons, List.not_mem_nil, or_false] at hop
  cases operand with
  | array items => exact absurd rfl (hoperand items)
  | _ => obtain rfl | rfl | rfl | rfl := hop <;> rfl

/-- So an operator that negates another one needs a list if the other one does. -/
theorem array_of_negation {op other : Op} (hnegates : Negates op other)
    (hname : Op.ofName name = some op) (hop : op ∈ [.or, .nor, .in, .nin])
    (hother : other ∈ [.or, .nor, .in, .nin])
    (hlaws : Laws E digit name operand rest key source) : ∃ items, operand = .array items := by
  by_contra hoperand
  rw [not_exists] at hoperand
  have hnegation := hlaws.negation op other hnegates hname
  rw [matchesOperator_of_not_array hname hop hoperand,
    matchesOperator_of_not_array (ofName_name other) hother hoperand, map_pure] at hnegation
  have hrun := congrArg (fun answer : Answer E => (answer []).1) hnegation
  cases hrun

theorem meets_of_laws
    (hreturns : Returns (matchesOperator digit ((name, operand) :: rest) key source : Answer E))
    (hlaws : Laws E digit name operand rest key source) :
    OperatorMeets E digit name operand key source := by
  rw [matchesOperator.eq_def] at hreturns
  dsimp only at hreturns
  rw [OperatorMeets.eq_def]
  split
  · next hname =>
      rw [hname] at hreturns
      exact fun str => compile_of_returns hreturns
  · next hname =>
      rw [hname] at hreturns
      exact fun str => compile_of_returns hreturns
  · next hname =>
      rw [hname] at hreturns
      exact fun nbr => hasBounds_of_returns hreturns
  · next hname =>
      rw [hname] at hreturns
      exact fun nbr => hasBounds_of_returns hreturns
  · next hname =>
      rw [hname] at hreturns
      exact exists_of_returns hreturns
  · next hname =>
      rw [hname] at hreturns
      exact exists_of_returns hreturns
  · next hname =>
      rw [hname] at hreturns
      exact exists_of_returns hreturns
  · next hname =>
      rw [hname] at hreturns
      exact exists_of_returns hreturns
  · next hname =>
      rw [hname] at hreturns
      exact exists_of_returns hreturns
  · next hname =>
      rw [hname] at hreturns
      exact exists_of_returns hreturns
  · next hname =>
      rw [hname] at hreturns
      exact exists_of_returns hreturns
  · next hname hoperand =>
      obtain ⟨items, hitems⟩ := array_of_negation .nor hname (by decide) (by decide) hlaws
      exact hoperand items hitems
  · next hname hoperand =>
      obtain ⟨items, hitems⟩ := array_of_negation .nin hname (by decide) (by decide) hlaws
      exact hoperand items hitems
  · next hname =>
      rw [hname] at hreturns
      rw [← getValueAtPath_eq_ok_iff]
      cases hfound : getValueAtPath digit key source with
      | ok found => exact ⟨found, rfl⟩
      | error e =>
          rw [hfound] at hreturns
          obtain ⟨value, after, hrun, -⟩ := hreturns []
          cases hrun
  · next value hname =>
      intro arr harr hall
      have hlisting := (hlaws.listing hname value rfl []).mpr ⟨arr, harr, hall⟩
      rw [matchesOperator_all hname, pure_apply, Except.ok.injEq, listsAll_eq_true_iff]
        at hlisting
      obtain ⟨_, -, hdistinct, -⟩ := hlisting
      exact hdistinct
  · trivial

end Meaning

namespace Site

theorem meets_of_lawful {site : Site} (h : site.Lawful E digit) : site.Meets E digit := by
  cases site with
  | predicate source fields => trivial
  | operator fields key source =>
      cases fields with
      | nil =>
          have hreturns := h.returns
          rw [run, matchesOperator] at hreturns
          exact not_returns_throw _ hreturns
      | cons entry rest => exact meets_of_laws h.returns (h.laws _ _ _ _ _ rfl)

theorem lawful_of_meets {site : Site}
    (h : ∀ called, Relation.ReflTransGen Calls site called → called.Meets E digit) :
    site.Lawful E digit where
  returns := returns_of_meets h
  laws := by
    rintro name operand rest key source rfl
    exact laws_of_returns (h _ .refl) fun called hcall =>
      returns_of_meets fun later hlater => h later (.head hcall hlater)

end Site

/-- All sites of a predicate are lawful: the match of it, and the operators and predicates in it. -/
def Lawful (E : RegexEngine) (digit : Char → Option Nat) (source : JsValue)
    (predicate : List (Str × JsValue)) : Prop :=
  ∀ site, Relation.ReflTransGen Site.Calls (.predicate source predicate) site →
    site.Lawful E digit

/-- A predicate obeys the laws on a source exactly when its operators have what they need. -/
theorem lawful_iff (E : RegexEngine) (digit : Char → Option Nat) (source : JsValue)
    (predicate : List (Str × JsValue)) :
    Lawful E digit source predicate ↔
      ∀ site, Relation.ReflTransGen Site.Calls (.predicate source predicate) site →
        site.Meets E digit :=
  ⟨fun h site hsite => Site.meets_of_lawful (h site hsite),
    fun h _ hsite => Site.lawful_of_meets fun called hcalled => h called (hsite.trans hcalled)⟩

/-! ## Where the laws fail -/

/-- A value that is not there, and a value that is listed twice. -/
theorem not_lawful_of_missing_and_repeated :
    let missing : List (Str × JsValue) := [("a".toList, .object [(Op.ne.name.toList, .number 1)])]
    let repeated : List (Str × JsValue) :=
      [("a".toList, .object [(Op.all.name.toList, .array [.number 1, .number 1])])]
    let listed := Json.obj [("a", .array [.number 1])]
    (matchesSource asciiDigit (.object []) missing ([] : RegexPool starEngine)).1 =
        .error (.json .jsResult) ∧
      ¬ Lawful starEngine asciiDigit (.object []) missing ∧
      (matchesSource asciiDigit listed repeated ([] : RegexPool starEngine)).1 = .ok false ∧
      ¬ Lawful starEngine asciiDigit listed repeated := by
  intro missing repeated listed
  refine ⟨?_, fun h => ?_, ?_, fun h => ?_⟩
  · rw [matchesSource, if_neg (by decide), matchesFields, matchesField, if_pos (by decide),
      matchesOperator.eq_def]
    dsimp only
    rw [ofName_name]
    dsimp only
    rw [forced_of_none rfl]
    rfl
  · have hmeets := Site.meets_of_lawful
      (h _ (.single (.fieldOperator (by decide) List.mem_cons_self (by decide))))
    rw [Site.Meets, OperatorMeets.eq_def, ofName_name] at hmeets
    obtain ⟨value, hvalue⟩ := hmeets
    cases hvalue
  · have hlists : listsAll [.number 1, .number 1] (some (.array [.number 1])) = false := by decide
    have hfield : listed.field "a".toList = some (.array [.number 1]) := rfl
    rw [matchesSource, if_neg (by decide), matchesFields, matchesField, if_pos (by decide),
      matchesOperator_all (ofName_name .all), hfield, hlists]
    rfl
  · have hmeets := Site.meets_of_lawful
      (h _ (.single (.fieldOperator (by decide) List.mem_cons_self (by decide))))
    rw [Site.Meets, OperatorMeets.eq_def, ofName_name] at hmeets
    have hdistinct := hmeets [.number 1] rfl (by simp [Among])
    simp at hdistinct

end Match

end Otoroshi
