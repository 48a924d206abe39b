/-
# Predicates over JSON values

A predicate is an object. One whose only field starts with a dollar sign is an operator, and is
about the whole source; any other one says something about some fields of the source, where the
value of a field may be an operator, or a predicate for an object in it. Operators may have
clauses that are predicates again.

The patterns of two operators come from the pool that the program shares, and stay in it.
Operators that need a value throw when the source does not have it.
-/

import Otoroshi.Foundation.Intersection
import Otoroshi.Foundation.JsonEquality
import Otoroshi.Foundation.Splitting
import Otoroshi.Foundation.Stateful
import Otoroshi.Utils.Pagination
import Otoroshi.Utils.RegexPool

namespace Otoroshi

/-- `JsNumberReads`. -/
def Reads.jsNumber : Reads Rat
  | .number value => .ok value
  | _ => .error .jsResult

/-- `source.select(key)`. -/
def JsValue.field (source : JsValue) (key : Str) : JsLookupResult :=
  match source with
  | .object fields => fields.lookup key
  | _ => none

namespace Match

/-- The exceptions of a match. -/
inductive MatchException
  | json (e : JsException)
  | pool (e : JvmException)
  | indexOutOfBounds
  | numberFormat
  deriving DecidableEq

/-! ## Values at a path -/

section Paths

variable (digit : Char → Option Nat)

/-- One piece of a path: what is read on, and what was found last. -/
def pathStep (found : JsValue × JsValue) (path : Str) : Except MatchException (JsValue × JsValue) :=
  if path.all fun c => (digit c).isSome then
    match found.1 with
    | .array items =>
        match Pagination.toIntOption digit path with
        | none => .error .numberFormat
        | some index =>
            match items[index.toInt.toNat]? with
            | some item => .ok (item, item)
            | none => .error .indexOutOfBounds
    | _ => .ok (.object [], found.2)
  else
    match found.1.field path with
    | some (.object fields) => .ok (.object fields, .object fields)
    | some (.array items) => .ok (.array items, .array items)
    | some value => .ok (found.1, value)
    | none => .ok (.object [], .object [])

/-- `JsonOperationsHelper.getValueAtPath`. -/
def getValueAtPath (input : Str) (obj : JsValue) : Except MatchException (Str × JsValue) :=
  ((splitText ".".toList input).foldlM (pathStep digit) (obj, .string [])).map fun found =>
    (input, found.2)

end Paths

/-! ## Operators -/

inductive Op
  | wildcard
  | regex
  | between
  | betweene
  | gt
  | gte
  | lt
  | lte
  | and
  | or
  | nor
  | «in»
  | nin
  | size
  | contains
  | all
  | not
  | eq
  | ne
  | «exists»
  deriving DecidableEq

namespace Op

def name : Op → String
  | wildcard => "$wildcard"
  | regex => "$regex"
  | between => "$between"
  | betweene => "$betweene"
  | gt => "$gt"
  | gte => "$gte"
  | lt => "$lt"
  | lte => "$lte"
  | and => "$and"
  | or => "$or"
  | nor => "$nor"
  | «in» => "$in"
  | nin => "$nin"
  | size => "$size"
  | contains => "$contains"
  | all => "$all"
  | not => "$not"
  | eq => "$eq"
  | ne => "$ne"
  | «exists» => "$exists"

def values : List Op :=
  [wildcard, regex, between, betweene, gt, gte, lt, lte, and, or, nor, «in», nin, size, contains,
    all, not, eq, ne, «exists»]

/-- The operator of a name. -/
def ofName (text : Str) : Option Op := values.find? fun op => op.name.toList == text

end Op

/-- `Operator.isOperator`. -/
def isOperator (obj : List (Str × JsValue)) : Bool :=
  obj.length == 1 && obj.all fun field => "$".toList.isPrefixOf field.1

variable {E : RegexEngine}

/-- What a match answers, and what it leaves in the pool. -/
abbrev Answer (E : RegexEngine) := Stateful (RegexPool E) MatchException Bool

section Values

/-- `as`. -/
def forced {α : Type} (result : JsResult α) : Stateful (RegexPool E) MatchException α :=
  .ofExcept (result.mapError .json)

/-- What the pool has for a pattern. -/
def pooled (find : RegexPool E → Except JvmException (Regex E) × RegexPool E) :
    Stateful (RegexPool E) MatchException (Regex E) := fun pool =>
  ((find pool).1.mapError .pool, (find pool).2)

/-- `$wildcard` and `$regex`. -/
def matchesPattern (find : RegexPool E → Except JvmException (Regex E) × RegexPool E)
    (selected : JsLookupResult) : Answer E :=
  match selected.asOpt .string with
  | none => pure false
  | some str => do
      let regex ← pooled find
      pure (regex.matchesValue str)

/-- `$between` and `$betweene`, with the comparison of the smaller with the larger number. -/
def isBetween (less : Rat → Rat → Bool) (o : List (Str × JsValue)) (selected : JsLookupResult) :
    Answer E :=
  match selected.asOpt .jsNumber with
  | none => pure false
  | some nbr => do
      let min ← forced (((JsValue.object o).select "min").as .jsNumber)
      if less min nbr then do
        let max ← forced (((JsValue.object o).select "max").as .jsNumber)
        pure (less nbr max)
      else pure false

/-- `$gt`, `$gte`, `$lt` and `$lte`. -/
def compares (holds : Rat → Bool) (selected : JsLookupResult) : Bool :=
  (selected.asOpt .jsNumber).any holds

/-- `BigDecimal.intValue`. -/
def intValue (number : Rat) : Int32 := .ofInt (number.num.tdiv number.den)

/-- `$size`. -/
def hasSize (number : Rat) (selected : JsLookupResult) : Bool :=
  (selected.asOpt .jsArray).any fun items => (items.length : Int) == (intValue number).toInt

/-- `$contains`, for the value that was found. -/
def containsValue (value : JsValue) : JsValue → Bool
  | .object obj =>
      (do
        let key ← (value.select "key").asOpt .string
        let value ← (value.select "value").asOpt .jsValue
        let input ← (JsValue.object obj).field key
        pure (value.equals input)).getD false
  | .array arr => arr.any fun item => item.equals value
  | _ => false

/-- `$all`. -/
def listsAll (value : List JsValue) (selected : JsLookupResult) : Bool :=
  (selected.asOpt .jsArray).any fun arr => (arr.bagInter value).eraseDups.length == value.length

/-- `$exists`. -/
def hasKey (value : Str) (selected : JsLookupResult) : Bool :=
  (selected.asOpt .jsObject).any fun o => ((JsValue.object o).field value).isSome

end Values

/-! ## Matches -/

variable (digit : Char → Option Nat)

mutual

/-- `matches`. -/
def matchesSource (source : JsValue) (predicate : List (Str × JsValue)) : Answer E :=
  if isOperator predicate then
    matchesOperator predicate "$root".toList (Json.obj [("$root", source)])
  else matchesFields source predicate
termination_by (sizeOf predicate, 1)

/-- `predicate.value.forall`. -/
def matchesFields (source : JsValue) : List (Str × JsValue) → Answer E
  | [] => pure true
  | (key, value) :: fields => do
      if ← matchesField source key value then matchesFields source fields else pure false
termination_by fields => (sizeOf fields, 0)

def matchesField (source : JsValue) (key : Str) : JsValue → Answer E
  | .bool value => pure ((source.field key).asOpt .boolean == some value)
  | .number num => pure ((source.field key).asOpt .jsNumber == some num)
  | .string value => pure ((source.field key).asOpt .string == some value)
  | .array value => pure (((source.field key).asOpt .jsArray).any (JsValue.equalItems · value))
  | .object o =>
      if isOperator o then matchesOperator o key source
      else
        match (source.field key).asOpt .jsObject with
        | some obj => matchesSource (.object obj) o
        | none => pure false
  | .null => pure false
termination_by value => (sizeOf value, 0)

def matchesOperator (operator : List (Str × JsValue)) (key : Str) (source : JsValue) : Answer E :=
  match operator with
  | [] => .throw (.json .noSuchElement)
  | (name, operand) :: _ =>
      match Op.ofName name, operand with
      | some .wildcard, .string wildcard =>
          matchesPattern (RegexPool.apply wildcard) (source.field key)
      | some .regex, .string regex => matchesPattern (RegexPool.regex regex) (source.field key)
      | some .between, .object o => isBetween (fun low high => low < high) o (source.field key)
      | some .betweene, .object o => isBetween (fun low high => low ≤ high) o (source.field key)
      | some .gt, .number num => pure (compares (fun nbr => num < nbr) (source.field key))
      | some .gte, .number num => pure (compares (fun nbr => num ≤ nbr) (source.field key))
      | some .lt, .number num => pure (compares (fun nbr => nbr < num) (source.field key))
      | some .lte, .number num => pure (compares (fun nbr => nbr ≤ num) (source.field key))
      | some .and, .array value => do
          allMatch (← forced ((source.field key).as .jsValue)) value
      | some .or, .array value => do
          anyMatch (← forced ((source.field key).as .jsValue)) false value
      | some .nor, .array value => do
          pure !(← anyMatch (← forced ((source.field key).as .jsValue)) false value)
      | some .in, .array value => do
          anyMatch (← forced ((source.field key).as .jsValue)) true value
      | some .nin, .array value => do
          pure !(← anyMatch (← forced ((source.field key).as .jsValue)) true value)
      | some .size, .number number => pure (hasSize number (source.field key))
      | some .contains, value => do
          let found ← Stateful.ofExcept (getValueAtPath digit key source)
          pure (containsValue value found.2)
      | some .all, .array value => pure (listsAll value (source.field key))
      | some .not, .object o => do pure !(← matchesOperator o key source)
      | some .eq, value => do
          singleMatches (← forced ((source.field key).as .jsValue)) false value
      | some .ne, value => do
          pure !(← singleMatches (← forced ((source.field key).as .jsValue)) false value)
      | some .exists, .string value => pure (hasKey value (source.field key))
      | _, _ => pure false
termination_by (sizeOf operator, 0)

def singleMatches (dest : JsValue) (literalMatch : Bool) : JsValue → Answer E
  | .bool v => pure (JsLookupResult.asOpt (some dest) .boolean == some v)
  | .number n => pure (JsLookupResult.asOpt (some dest) .jsNumber == some n)
  | .string v => pure (JsLookupResult.asOpt (some dest) .string == some v)
  | .object o =>
      if literalMatch then
        pure ((JsLookupResult.asOpt (some dest) .jsObject).any fun d =>
          (JsValue.object d).equals (.object o))
      else matchesSource dest o
  | _ => pure false
termination_by value => (sizeOf value, 0)

/-- `value.forall(singleMatches(dest))`. -/
def allMatch (dest : JsValue) : List JsValue → Answer E
  | [] => pure true
  | clause :: clauses => do
      if ← singleMatches dest false clause then allMatch dest clauses else pure false
termination_by clauses => (sizeOf clauses, 0)

/-- `value.exists(singleMatches(dest, literalMatch))`. -/
def anyMatch (dest : JsValue) (literalMatch : Bool) : List JsValue → Answer E
  | [] => pure false
  | clause :: clauses => do
      if ← singleMatches dest literalMatch clause then pure true
      else anyMatch dest literalMatch clauses
termination_by clauses => (sizeOf clauses, 0)

end

end Match

end Otoroshi
