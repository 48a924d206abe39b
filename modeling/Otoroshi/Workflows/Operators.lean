/-
# Operators of workflows

Operators over several values fold a list: the connectives from its first value, with a case of
their own for short lists, the subtraction from zero and the division from its first number. A
value is truthy unless it is one of a few values, and zero is compared with its scale: `0` is one of
them and `0.0` is not. Objects are merged with or without the objects inside them.

Numbers are decimals with a scale here, as they are written. The results of arithmetic are rounded
in a way that the platform chooses.
-/

import Mathlib.Algebra.Order.Field.Rat
import Mathlib.Data.Int.CharZero
import Mathlib.Data.Rat.Floor
import Mathlib.Tactic.Linarith
import Mathlib.Tactic.NormNum
import Otoroshi.Foundation.Text

namespace Otoroshi

namespace WorkflowOperators

/-- A decimal number as it is written: `1.0` and `1` have different scales. -/
structure BigDecimal where
  unscaled : Int
  scale : Int
  deriving DecidableEq

namespace BigDecimal

def zero : BigDecimal := ⟨0, 0⟩

def value (x : BigDecimal) : ℚ := x.unscaled * 10 ^ (-x.scale)

theorem value_eq_zero_iff {x : BigDecimal} : x.value = 0 ↔ x.unscaled = 0 := by
  rw [value, mul_eq_zero, Int.cast_eq_zero]
  exact or_iff_left (zpow_ne_zero _ (by decide))

end BigDecimal

/-- A JSON value, whose numbers keep their scale. -/
inductive JsValue
  | null
  | boolean (value : Bool)
  | number (value : BigDecimal)
  | string (value : Str)
  | array (items : List JsValue)
  | object (fields : List (Str × JsValue))

/-- `WorkflowMemory`. -/
abbrev Memory := Str → Option JsValue

/-- What comes with the platform: the rounding of decimal arithmetic, the reader of numbers and the
selection of a path. -/
structure Platform where
  round : ℚ → ℚ
  round_zero : round 0 = 0
  /-- The decimal of a rounded result. -/
  decimal : ℚ → BigDecimal
  value_decimal : ∀ q, (decimal q).value = round q
  /-- `BigDecimal(s)`, with `none` for a `NumberFormatException`. -/
  parse : Str → Option BigDecimal
  atPath : JsValue → Str → Option JsValue

namespace JsValue

def select (json : JsValue) (name : String) : Option JsValue :=
  match json with
  | object fields => fields.lookup name.toList
  | _ => none

def asSeq : JsValue → Option (List JsValue)
  | array items => some items
  | _ => none

def asFields : JsValue → Option (List (Str × JsValue))
  | object fields => some fields
  | _ => none

def asNumber : JsValue → Option BigDecimal
  | number value => some value
  | _ => none

def asString : JsValue → Option Str
  | string value => some value
  | _ => none

def asBoolean : JsValue → Option Bool
  | boolean value => some value
  | _ => none

/-- `asOpt[Seq[JsObject]]`. -/
def asObjects (json : JsValue) : Option (List (List (Str × JsValue))) :=
  json.asSeq.bind (·.mapM asFields)

/-- `asOpt[Seq[JsNumber]]`. -/
def asNumbers (json : JsValue) : Option (List BigDecimal) := json.asSeq.bind (·.mapM asNumber)

end JsValue

open JsValue

/-! ## Truth -/

/-- `IsTruthyOperator.isTruthy`. -/
def isTruthy : JsValue → Bool
  | null => false
  | string str => !str.isEmpty
  | boolean value => value
  | number value => value ≠ .zero
  | _ => true

variable (P : Platform)

/-- The value an operator is given, or the one it finds in the memory. -/
def operand (opts : JsValue) (memory : Memory) : Option JsValue :=
  match opts.select "value" with
  | some value => some value
  | none => do
      let name ← (opts.select "name").bind asString
      match memory name with
      | none => some null
      | some value =>
          match (opts.select "path").bind asString with
          | none => some value
          | some path => P.atPath value path

def isTruthyOperator (opts : JsValue) (memory : Memory) : Option JsValue := do
  let value ← operand P opts memory
  return boolean (isTruthy value)

/-- `IsFalsyOperator`, which tests the value by itself. -/
def isFalsyOperator (opts : JsValue) (memory : Memory) : Option JsValue := do
  let value ← operand P opts memory
  let res := match value with
    | null => false
    | string str => !str.isEmpty
    | boolean value => value
    | number value => value ≠ .zero
    | _ => true
  return boolean !res

/-- What `$and` and `$or` have in common. -/
def connective (op : Bool → Bool → Bool) (opts : JsValue) : Option JsValue :=
  match (opts.select "values").bind asSeq with
  | some values =>
      match values with
      | head :: tail =>
          if 2 ≤ values.length then
            some (tail.foldl (fun a b => boolean (op (isTruthy a) (isTruthy b))) head)
          else some (boolean false)
      | [] => some (boolean false)
  | none => do
      let a ← opts.select "a"
      let b ← opts.select "b"
      return boolean (op (isTruthy a) (isTruthy b))

def andOperator : JsValue → Option JsValue := connective and

def orOperator : JsValue → Option JsValue := connective or

/-! ## Arithmetic -/

namespace Platform

def sub (a b : BigDecimal) : BigDecimal := P.decimal (a.value - b.value)

/-- Division, which throws for a divisor that is zero. -/
def div (a b : BigDecimal) : Option BigDecimal :=
  if b.value = 0 then none else some (P.decimal (a.value / b.value))

end Platform

def numberOf : JsValue → BigDecimal
  | number n => n
  | string s => (P.parse s).getD .zero
  | _ => .zero

def subtractOperator (opts : JsValue) : JsValue :=
  match (opts.select "values").bind asSeq with
  | some values => number ((values.map (numberOf P)).foldl P.sub .zero)
  | none => number .zero

def divideOperator (opts : JsValue) : Option JsValue :=
  match (opts.select "values").bind asNumbers with
  | some (head :: tail) => (tail.foldlM P.div head).map number
  | _ => some (number .zero)

/-! ## Merging -/

/-- `existing ++ other`, for the fields of objects. -/
def putAll (existing other : List (Str × JsValue)) : List (Str × JsValue) :=
  other.foldl
    (fun fields field =>
      if fields.any (·.1 == field.1) then
        fields.map fun old => if old.1 = field.1 then field else old
      else fields ++ [field])
    existing

mutual

/-- A value that is merged into what is under its key. -/
def mergeValue (existing : Option JsValue) : JsValue → JsValue
  | object other =>
      match existing with
      | some (object fields) => object (putAll fields (mergeFields fields other))
      | _ => object other
  | value => value

def mergeFields (existing : List (Str × JsValue)) : List (Str × JsValue) → List (Str × JsValue)
  | [] => []
  | (key, value) :: rest => (key, mergeValue (existing.lookup key) value) :: mergeFields existing rest

end

def deepMerge (existing other : List (Str × JsValue)) : List (Str × JsValue) :=
  putAll existing (mergeFields existing other)

/-- The objects an operator is given, or those it finds in the memory. -/
def objectsOf (opts : JsValue) (memory : Memory) : Option (List (List (Str × JsValue))) :=
  match (opts.select "values").bind asObjects with
  | some values => some values
  | none => do
      let name ← (opts.select "name").bind asString
      match memory name with
      | none => some []
      | some value =>
          match (opts.select "path").bind asString with
          | none => some (value.asObjects.getD [])
          | some path => some (((P.atPath value path).bind asObjects).getD [])

def isDeep (opts : JsValue) : Bool := ((opts.select "deep").bind asBoolean).getD false

def mergeObjectsOperator (opts : JsValue) (memory : Memory) : Option JsValue := do
  let value ← objectsOf P opts memory
  if isDeep opts then return object (value.foldl putAll [])
  else return object (value.foldl deepMerge [])

/-! ## Connectives -/

/-- Options with a list of values. -/
def withValues (values : List JsValue) (others : List (Str × JsValue)) : JsValue :=
  object (("values".toList, array values) :: others)

@[simp]
theorem select_withValues (values : List JsValue) (others : List (Str × JsValue)) :
    (withValues values others).select "values" = some (array values) := by
  simp [withValues, select]

/-- The first value is tested with the second one, and what comes of it with the next ones. -/
theorem foldl_connective (op : Bool → Bool → Bool) (head : JsValue) (tail : List JsValue)
    (hne : tail ≠ []) :
    tail.foldl (fun a b => boolean (op (isTruthy a) (isTruthy b))) head =
      boolean (tail.foldl (fun a b => op a (isTruthy b)) (isTruthy head)) := by
  induction tail generalizing head with
  | nil => exact absurd rfl hne
  | cons second rest ih =>
      rw [List.foldl_cons, List.foldl_cons]
      by_cases hrest : rest = []
      · subst hrest
        rfl
      · rw [ih _ hrest]
        rfl

theorem connective_withValues (op : Bool → Bool → Bool) (head : JsValue) (tail : List JsValue)
    (others : List (Str × JsValue)) :
    connective op (withValues (head :: tail) others) =
      some (boolean
        (!tail.isEmpty && tail.foldl (fun a b => op a (isTruthy b)) (isTruthy head))) := by
  rw [connective, select_withValues]
  simp only [Option.bind_some, asSeq]
  cases tail with
  | nil => rfl
  | cons second rest =>
      rw [if_pos (by simp), foldl_connective op head _ (by simp)]
      rfl

theorem foldl_and (first : Bool) (values : List JsValue) :
    values.foldl (fun a b => a && isTruthy b) first = (first && values.all isTruthy) := by
  induction values generalizing first with
  | nil => simp
  | cons value values ih => rw [List.foldl_cons, ih, List.all_cons, Bool.and_assoc]

theorem foldl_or (first : Bool) (values : List JsValue) :
    values.foldl (fun a b => a || isTruthy b) first = (first || values.any isTruthy) := by
  induction values generalizing first with
  | nil => simp
  | cons value values ih => rw [List.foldl_cons, ih, List.any_cons, Bool.or_assoc]

/-- The conjunction of several values, and `false` of one. -/
theorem andOperator_withValues (head : JsValue) (tail : List JsValue)
    (others : List (Str × JsValue)) :
    andOperator (withValues (head :: tail) others) =
      some (boolean (!tail.isEmpty && (head :: tail).all isTruthy)) := by
  rw [andOperator, connective_withValues]
  exact congrArg (fun b => some (boolean (!tail.isEmpty && b))) (foldl_and _ tail)

theorem orOperator_withValues (head : JsValue) (tail : List JsValue)
    (others : List (Str × JsValue)) :
    orOperator (withValues (head :: tail) others) =
      some (boolean (!tail.isEmpty && (head :: tail).any isTruthy)) := by
  rw [orOperator, connective_withValues]
  exact congrArg (fun b => some (boolean (!tail.isEmpty && b))) (foldl_or _ tail)

/-- A connective of a list is right when there are two values at least, or the one is falsy. -/
theorem and_all_iff (head : JsValue) (tail : List JsValue) (others : List (Str × JsValue)) :
    andOperator (withValues (head :: tail) others) =
        some (boolean ((head :: tail).all isTruthy)) ↔
      tail = [] → isTruthy head = false := by
  rw [andOperator_withValues]
  cases tail with
  | nil => cases hhead : isTruthy head <;> simp [hhead]
  | cons second rest => simp

theorem or_any_iff (head : JsValue) (tail : List JsValue) (others : List (Str × JsValue)) :
    orOperator (withValues (head :: tail) others) =
        some (boolean ((head :: tail).any isTruthy)) ↔
      tail = [] → isTruthy head = false := by
  rw [orOperator_withValues]
  cases tail with
  | nil => cases hhead : isTruthy head <;> simp [hhead]
  | cons second rest => simp

/-- The form with two names. -/
def withNames (a b : JsValue) : JsValue := object [("a".toList, a), ("b".toList, b)]

theorem connective_two (op : Bool → Bool → Bool) (a b : JsValue) (others : List (Str × JsValue)) :
    connective op (withValues [a, b] others) = connective op (withNames a b) := by
  rw [connective_withValues]
  rfl

/-! ## Subtraction and division -/

/-- The first number less all others, one after the other. -/
def difference (first : BigDecimal) (others : List BigDecimal) : BigDecimal :=
  others.foldl P.sub first

/-- The first number divided by all others, one after the other. -/
def quotient (first : BigDecimal) (others : List BigDecimal) : Option BigDecimal :=
  others.foldlM P.div first

/-- No result on the way is rounded. -/
def Unrounded (first : ℚ) : List BigDecimal → Prop
  | [] => True
  | second :: rest =>
      P.round (first - second.value) = first - second.value ∧ Unrounded (first - second.value) rest

variable {P}

theorem value_sub (a b : BigDecimal) : (P.sub a b).value = P.round (a.value - b.value) :=
  P.value_decimal _

/-- The value of a difference depends on the value of the first number only. -/
theorem value_foldl_sub (numbers : List BigDecimal) {first other : BigDecimal}
    (h : first.value = other.value) :
    (numbers.foldl P.sub first).value = (numbers.foldl P.sub other).value := by
  induction numbers generalizing first other with
  | nil => exact h
  | cons number numbers ih =>
      rw [List.foldl_cons, List.foldl_cons]
      exact ih (by rw [value_sub, value_sub, h])

theorem value_foldl_sub_of_unrounded (numbers : List BigDecimal) {first : BigDecimal}
    (h : Unrounded P first.value numbers) :
    (numbers.foldl P.sub first).value = first.value - (numbers.map BigDecimal.value).sum := by
  induction numbers generalizing first with
  | nil => simp
  | cons number numbers ih =>
      have hsub : (P.sub first number).value = first.value - number.value := by
        rw [value_sub, h.1]
      rw [List.foldl_cons, ih (hsub ▸ h.2), hsub, List.map_cons, List.sum_cons, sub_sub]

theorem subtractOperator_withValues (values : List JsValue) (others : List (Str × JsValue)) :
    subtractOperator P (withValues values others) =
      number ((values.map (numberOf P)).foldl P.sub .zero) := by
  rw [subtractOperator, select_withValues]
  rfl

variable (P) in
/-- The operator gives the first number less all others. -/
def Subtracts (first : JsValue) (rest : List JsValue) (others : List (Str × JsValue)) : Prop :=
  ∃ result, subtractOperator P (withValues (first :: rest) others) = number result ∧
    result.value = (difference P (numberOf P first) (rest.map (numberOf P))).value

theorem value_zero : BigDecimal.zero.value = 0 := BigDecimal.value_eq_zero_iff.mpr rfl

theorem subtracts_iff_eq (first : JsValue) (rest : List JsValue) (others : List (Str × JsValue)) :
    Subtracts P first rest others ↔
      (((first :: rest).map (numberOf P)).foldl P.sub .zero).value =
        (difference P (numberOf P first) (rest.map (numberOf P))).value := by
  rw [Subtracts, subtractOperator_withValues]
  constructor
  · rintro ⟨result, hresult, hvalue⟩
    cases hresult
    exact hvalue
  · intro h
    exact ⟨_, rfl, h⟩

/-- A first number that is zero can as well be subtracted from zero. -/
theorem subtracts_of_zero {first : JsValue} (rest : List JsValue) (others : List (Str × JsValue))
    (hzero : (numberOf P first).value = 0) : Subtracts P first rest others := by
  rw [subtracts_iff_eq, List.map_cons, List.foldl_cons]
  apply value_foldl_sub
  rw [value_sub, hzero, value_zero, sub_zero, P.round_zero]

/-- Where nothing is rounded, no other first number can. -/
theorem subtracts_iff_of_unrounded {first : JsValue} {rest : List JsValue}
    (others : List (Str × JsValue))
    (hcode : Unrounded P 0 ((first :: rest).map (numberOf P)))
    (hright : Unrounded P (numberOf P first).value (rest.map (numberOf P))) :
    Subtracts P first rest others ↔ (numberOf P first).value = 0 := by
  refine ⟨fun h => ?_, subtracts_of_zero rest others⟩
  rw [subtracts_iff_eq, value_foldl_sub_of_unrounded _ (value_zero ▸ hcode), difference,
    value_foldl_sub_of_unrounded _ hright, value_zero, List.map_cons, List.map_cons,
    List.sum_cons] at h
  linarith

theorem divideOperator_withValues (first : BigDecimal) (rest : List BigDecimal)
    (others : List (Str × JsValue)) :
    divideOperator P (withValues ((first :: rest).map number) others) =
      (quotient P first rest).map number := by
  have hnumbers : ((first :: rest).map number).mapM asNumber = some (first :: rest) := by
    generalize first :: rest = numbers
    induction numbers with
    | nil => rfl
    | cons value numbers ih => rw [List.map_cons, List.mapM_cons, ih]; rfl
  rw [divideOperator, select_withValues, Option.bind_some, asNumbers, asSeq, Option.bind_some,
    hnumbers]
  rfl

/-! ## Truth and merging -/

/-- The negation of a boolean. -/
def negate : JsValue → JsValue
  | boolean value => boolean !value
  | value => value

theorem isFalsyOperator_eq (opts : JsValue) (memory : Memory) :
    isFalsyOperator P opts memory = (isTruthyOperator P opts memory).map negate := by
  unfold isFalsyOperator isTruthyOperator
  cases operand P opts memory with
  | none => rfl
  | some value => cases value <;> rfl

/-- Zero is falsy when it is written without a scale. -/
theorem zero_falsy_iff (x : BigDecimal) :
    (x.value = 0 → isTruthy (number x) = false) ↔ (x.value = 0 → x.scale = 0) := by
  refine imp_congr_right fun hzero => ?_
  rw [BigDecimal.value_eq_zero_iff] at hzero
  cases x with
  | mk unscaled scale =>
      simp only [isTruthy, BigDecimal.zero, decide_eq_false_iff_not, ne_eq, not_not,
        BigDecimal.mk.injEq]
      exact and_iff_right hzero

variable (P) in
/-- Objects inside objects are merged when this is asked for, and only then. -/
def MergesWhenDeep (opts : JsValue) (memory : Memory) : Prop :=
  mergeObjectsOperator P opts memory =
    (objectsOf P opts memory).map fun objects =>
      if isDeep opts then object (objects.foldl deepMerge []) else object (objects.foldl putAll [])

/-- The operator does it the other way round, so both ways have to agree. -/
theorem mergesWhenDeep_iff (opts : JsValue) (memory : Memory) :
    MergesWhenDeep P opts memory ↔
      ∀ objects ∈ objectsOf P opts memory,
        objects.foldl deepMerge [] = objects.foldl putAll [] := by
  rw [MergesWhenDeep, mergeObjectsOperator]
  cases objectsOf P opts memory with
  | none => exact iff_of_true rfl nofun
  | some objects =>
      cases isDeep opts <;> simp [eq_comm]

/-! ## The laws of the operators -/

/-- Every law of the operators, and exactly when it holds; the one of the subtraction where no
result is rounded. -/
theorem operators_iff (P : Platform) :
    (∀ head tail others,
      (andOperator (withValues (head :: tail) others) =
          some (boolean ((head :: tail).all isTruthy)) ↔ (tail = [] → isTruthy head = false)) ∧
        (orOperator (withValues (head :: tail) others) =
          some (boolean ((head :: tail).any isTruthy)) ↔ (tail = [] → isTruthy head = false))) ∧
      (∀ a b others,
        andOperator (withValues [a, b] others) = andOperator (withNames a b) ∧
          orOperator (withValues [a, b] others) = orOperator (withNames a b)) ∧
      (∀ first rest others,
        ((numberOf P first).value = 0 → Subtracts P first rest others) ∧
          (Unrounded P 0 ((first :: rest).map (numberOf P)) →
            Unrounded P (numberOf P first).value (rest.map (numberOf P)) →
              Subtracts P first rest others → (numberOf P first).value = 0)) ∧
      (∀ first rest others, divideOperator P (withValues ((first :: rest).map number) others) =
        (quotient P first rest).map number) ∧
      (∀ opts memory,
        isFalsyOperator P opts memory = (isTruthyOperator P opts memory).map negate) ∧
      (∀ x : BigDecimal,
        (x.value = 0 → isTruthy (number x) = false) ↔ (x.value = 0 → x.scale = 0)) ∧
      ∀ opts memory, MergesWhenDeep P opts memory ↔
        ∀ objects ∈ objectsOf P opts memory,
          objects.foldl deepMerge [] = objects.foldl putAll [] := by
  refine ⟨fun head tail others => ⟨and_all_iff head tail others, or_any_iff head tail others⟩,
    fun a b others => ⟨connective_two and a b others, connective_two or a b others⟩,
    fun first rest others => ⟨subtracts_of_zero rest others, fun hcode hright => ?_⟩,
    divideOperator_withValues, isFalsyOperator_eq, zero_falsy_iff, mergesWhenDeep_iff⟩
  exact (subtracts_iff_of_unrounded others hcode hright).mp

/-- A platform that rounds to whole numbers, and computes with these as every platform does. -/
def wholePlatform : Platform where
  round q := ⌊q⌋
  round_zero := by simp
  decimal q := ⟨⌊q⌋, 0⟩
  value_decimal q := by simp [BigDecimal.value]
  parse _ := none
  atPath _ _ := none

def whole (n : Int) : JsValue := number ⟨n, 0⟩

/-- Two objects with an object under the same key. -/
def nestedObjects : JsValue :=
  withValues [object [("k".toList, object [("a".toList, null)])],
    object [("k".toList, object [("b".toList, null)])]] [("deep".toList, boolean true)]

theorem exists_wrong_results :
    ∃ P : Platform,
      andOperator (withValues [boolean true] []) = some (boolean false) ∧
        orOperator (withValues [boolean true] []) = some (boolean false) ∧
        ¬ Subtracts P (whole 3) [whole 1] [] ∧
        (BigDecimal.value ⟨0, 1⟩ = 0 ∧ isTruthy (number ⟨0, 1⟩) = true) ∧
        ¬ MergesWhenDeep P nestedObjects fun _ => none := by
  refine ⟨wholePlatform, rfl, rfl, ?_, ⟨BigDecimal.value_eq_zero_iff.mpr rfl, rfl⟩, ?_⟩
  · have hfloor : ⌊(-3 : ℚ)⌋ = -3 := rfl
    rw [subtracts_iff_eq]
    simp [whole, numberOf, difference, Platform.sub, BigDecimal.zero, wholePlatform,
      BigDecimal.value, hfloor]
    norm_num
  · rw [mergesWhenDeep_iff]
    intro h
    have hsame : [("k".toList, object [("a".toList, null), ("b".toList, null)])] =
        [("k".toList, object [("b".toList, null)])] := h _ rfl
    simp at hsame

end WorkflowOperators

end Otoroshi
