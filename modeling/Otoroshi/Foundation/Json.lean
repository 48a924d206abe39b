/-
# JSON values and their readers

A stored entity is written to a JSON value and read back from one. Readers are
written by hand, field by field: a field is looked up, converted if it has the
wanted type, and replaced by a default otherwise. Numbers are the exact decimals
of the platform.

The lemmas say what a reader finds in an object that was written field by field,
so that the proof of a round trip is one rewriting pass over the fields.
-/

import Mathlib.Data.List.AList
import Otoroshi.Foundation.Long

namespace Otoroshi

/-- A JSON value. -/
inductive JsValue
  | null
  | bool (value : Bool)
  | number (value : Rat)
  | string (value : Str)
  | array (items : List JsValue)
  | object (fields : List (Str × JsValue))

/-- The exceptions of the readers. -/
inductive JsException
  /-- a value that its reader refuses -/
  | jsResult
  /-- `None.get` -/
  | noSuchElement
  deriving DecidableEq

/-- `JsResult`: what a reader answers. An exception inside a reader becomes its
error. -/
abbrev JsResult (α : Type) := Except JsException α

abbrev Reads (α : Type) := JsValue → JsResult α

structure Format (α : Type) where
  writes : α → JsValue
  reads : Reads α

/-- The value under a field, if there is one. -/
abbrev JsLookupResult := Option JsValue

/-! ## Readers of the platform -/

namespace Reads

def jsValue : Reads JsValue := .ok

def jsObject : Reads (List (Str × JsValue))
  | .object fields => .ok fields
  | _ => .error .jsResult

def jsArray : Reads (List JsValue)
  | .array items => .ok items
  | _ => .error .jsResult

def string : Reads Str
  | .string value => .ok value
  | _ => .error .jsResult

def boolean : Reads Bool
  | .bool value => .ok value
  | _ => .error .jsResult

/-- A number is a `Long` when it is whole and in range. -/
def long : Reads Long
  | .number value =>
      if h : value.den = 1 ∧ isLong value.num = true then .ok ⟨value.num, h.2⟩
      else .error .jsResult
  | _ => .error .jsResult

/-- A number is an `Int` when it is whole and in range. -/
def int : Reads Int32
  | .number value =>
      if value.den = 1 ∧ -2 ^ 31 ≤ value.num ∧ value.num < 2 ^ 31 then .ok (.ofInt value.num)
      else .error .jsResult
  | _ => .error .jsResult

/-- `Reads[Seq[T]]`: every item has to be read. -/
def seq {α : Type} (read : Reads α) : Reads (List α)
  | .array items => items.mapM read
  | _ => .error .jsResult

/-- `Reads[Map[String, T]]`. -/
def map {α : Type} (read : Reads α) : Reads (AList fun _ : Str => α)
  | .object fields =>
      (fields.mapM fun field => (read field.2).map fun value => ⟨field.1, value⟩).map
        List.toAList
  | _ => .error .jsResult

end Reads

/-- `json \ name`. -/
def JsValue.select (json : JsValue) (name : String) : JsLookupResult :=
  match json with
  | .object fields => fields.lookup name.toList
  | _ => none

/-- `asOpt`. -/
def JsLookupResult.asOpt {α : Type} (found : JsLookupResult) (read : Reads α) : Option α :=
  found.bind fun value => (read value).toOption

/-- `as`. -/
def JsLookupResult.as {α : Type} (found : JsLookupResult) (read : Reads α) : JsResult α :=
  match found with
  | some value => read value
  | none => .error .jsResult

/-- `asOpt(..).getOrElse(default)`. -/
def JsLookupResult.asOptOrElse {α : Type} (found : JsLookupResult) (read : Reads α)
    (default : α) : α :=
  (found.asOpt read).getD default

/-! ## Writers of the platform -/

namespace Json

/-- `Json.obj`: an object of distinct fields. -/
def obj (fields : List (String × JsValue)) : JsValue :=
  .object (fields.map fun field => (field.1.toList, field.2))

def long (n : Long) : JsValue := .number n.1

def int (n : Int32) : JsValue := .number n.toInt

def strings (values : List Str) : JsValue := .array (values.map .string)

/-- An object of the entries of a map. -/
def stringMap (map : AList fun _ : Str => Str) : JsValue :=
  .object (map.entries.map fun entry => (entry.1, .string entry.2))

/-- `getOrElse(JsNull)`. -/
def orNull {α : Type} (write : α → JsValue) (value : Option α) : JsValue :=
  (value.map write).getD .null

end Json

/-! ## Reading what was written -/

section Written

variable {α : Type}

@[simp]
theorem select_obj_cons (key name : String) (value : JsValue) (fields : List (String × JsValue)) :
    (Json.obj ((key, value) :: fields)).select name =
      if name = key then some value else (Json.obj fields).select name := by
  rw [Json.obj, List.map_cons, JsValue.select, List.lookup_cons]
  by_cases hname : name = key
  · rw [if_pos hname, hname, beq_self_eq_true]
  · rw [if_neg hname, beq_false_of_ne (hname ∘ String.toList_injective)]
    rfl

@[simp]
theorem select_obj_nil (name : String) : (Json.obj []).select name = none := rfl

@[simp]
theorem asOpt_none (read : Reads α) : JsLookupResult.asOpt none read = none := rfl

theorem asOpt_of_ok {value : JsValue} {read : Reads α} {result : α} (h : read value = .ok result) :
    JsLookupResult.asOpt (some value) read = some result := by
  rw [JsLookupResult.asOpt, Option.bind_some, h]
  rfl

theorem asOptOrElse_of_ok {value : JsValue} {read : Reads α} {result : α}
    (h : read value = .ok result) (default : α) :
    JsLookupResult.asOptOrElse (some value) read default = result := by
  rw [JsLookupResult.asOptOrElse, asOpt_of_ok h, Option.getD_some]

/-- A reader that reads the values of one writer only. -/
theorem asOpt_eq_some_iff {read : Reads α} {write : α → JsValue}
    (hread : ∀ json result, read json = .ok result ↔ json = write result)
    {selected : JsLookupResult} {result : α} :
    selected.asOpt read = some result ↔ selected = some (write result) := by
  cases selected with
  | none => simp
  | some json =>
      rw [Option.some.injEq, ← hread]
      constructor
      · intro h
        cases hjson : read json with
        | error e =>
            rw [JsLookupResult.asOpt, Option.bind_some, hjson] at h
            cases h
        | ok found =>
            rw [asOpt_of_ok hjson] at h
            rw [Option.some.inj h]
      · exact asOpt_of_ok

theorem as_eq_ok_iff {read : Reads α} {write : α → JsValue}
    (hread : ∀ json result, read json = .ok result ↔ json = write result)
    {selected : JsLookupResult} {result : α} :
    selected.as read = .ok result ↔ selected = some (write result) := by
  cases selected with
  | none => simp [JsLookupResult.as]
  | some json => rw [JsLookupResult.as, hread, Option.some.injEq]

/-- What may be missing is read back, where nothing is read from a null. -/
theorem asOpt_orNull {read : Reads α} {write : α → JsValue}
    (hread : ∀ value, read (write value) = .ok value) {e : JsException}
    (hnull : read .null = .error e) (value : Option α) :
    JsLookupResult.asOpt (some (Json.orNull write value)) read = value := by
  cases value with
  | none => rw [Json.orNull, JsLookupResult.asOpt, Option.bind_some]; simp [hnull, Except.toOption]
  | some value => exact asOpt_of_ok (hread value)

@[simp]
theorem asOptOrElse_bool (value default : Bool) :
    JsLookupResult.asOptOrElse (some (.bool value)) .boolean default = value := rfl

theorem jsObject_eq_ok_iff (json : JsValue) (fields : List (Str × JsValue)) :
    Reads.jsObject json = .ok fields ↔ json = .object fields := by
  cases json <;> simp [Reads.jsObject]

theorem jsArray_eq_ok_iff (json : JsValue) (items : List JsValue) :
    Reads.jsArray json = .ok items ↔ json = .array items := by
  cases json <;> simp [Reads.jsArray]

theorem string_eq_ok_iff (json : JsValue) (text : Str) :
    Reads.string json = .ok text ↔ json = .string text := by
  cases json <;> simp [Reads.string]

theorem reads_long (n : Long) : Reads.long (Json.long n) = .ok n := by
  have hread : ((n.1 : Rat)).den = 1 ∧ isLong ((n.1 : Rat)).num = true := ⟨rfl, n.2⟩
  rw [Json.long, Reads.long, dif_pos hread]
  rfl

theorem reads_int (n : Int32) : Reads.int (Json.int n) = .ok n := by
  have hread : ((n.toInt : Rat)).den = 1 ∧ -2 ^ 31 ≤ ((n.toInt : Rat)).num ∧
      ((n.toInt : Rat)).num < 2 ^ 31 := ⟨rfl, n.le_toInt, n.toInt_lt⟩
  rw [Json.int, Reads.int, if_pos hread]
  exact congrArg Except.ok (Int32.ofInt_toInt n)

/-- A sequence is read back item by item. -/
theorem reads_seq (read : Reads α) (write : α → JsValue)
    (h : ∀ value, read (write value) = .ok value) (values : List α) :
    Reads.seq read (.array (values.map write)) = .ok values := by
  induction values with
  | nil => rfl
  | cons value values ih =>
      rw [Reads.seq] at ih ⊢
      rw [List.map_cons, List.mapM_cons, h, ih]
      rfl

theorem reads_strings (values : List Str) :
    Reads.seq .string (Json.strings values) = .ok values :=
  reads_seq .string .string (fun _ => rfl) values

private theorem mapM_string (entries : List (Σ _ : Str, Str)) :
    (entries.map fun entry => (entry.1, JsValue.string entry.2)).mapM
      (fun field => (Reads.string field.2).map fun value => (⟨field.1, value⟩ : Σ _ : Str, Str)) =
        .ok entries := by
  induction entries with
  | nil => rfl
  | cons entry entries ih =>
      rw [List.map_cons, List.mapM_cons, ih]
      rfl

private theorem toAList_entries (map : AList fun _ : Str => Str) : map.entries.toAList = map := by
  have hdedup : ∀ entries : List (Σ _ : Str, Str), entries.NodupKeys →
      entries.dedupKeys = entries := by
    intro entries hnodup
    induction entries with
    | nil => rfl
    | cons entry entries ih =>
        rw [List.nodupKeys_cons] at hnodup
        rw [List.dedupKeys_cons, ih hnodup.2, List.kinsert_def,
          List.kerase_of_notMem_keys hnodup.1]
  apply AList.ext
  rw [AList.entries_toAList, hdedup map.entries map.nodupKeys]

theorem reads_stringMap (map : AList fun _ : Str => Str) :
    Reads.map .string (Json.stringMap map) = .ok map := by
  rw [Json.stringMap, Reads.map, mapM_string]
  exact congrArg Except.ok (toAList_entries map)

end Written

end Otoroshi
