/-
# Transformed payloads

A transformation moves claims of a token to other names, puts evaluated values on top, and leaves
out the names that are to be removed and the null values. The claims are moved one after the
other, in the order that the map of the names is gone through, and every value that is moved is
evaluated like a value of the settings.

`renamesAtOnce_iff` says for which settings and tokens the payload is what it would be if all
claims were moved at once and as they are.
-/

import Otoroshi.El.Language
import Otoroshi.Foundation.Renaming
import Otoroshi.Jwt.Verifier

namespace Otoroshi

namespace Jwt

/-- What a transformation throws. -/
inductive TransformException
  /-- `as[JsValue]` and `as[JsObject]` -/
  | json
  /-- `toDouble` -/
  | numberFormat
  deriving DecidableEq

/-! ## The language for tokens -/

mutual

/-- A value in an array or an object. -/
def nested (apply : Str → Str) : JsValue → JsValue
  | .string str => .string (apply str)
  | .object fields => .object (nestedFields apply fields)
  | .array values => .array (nestedItems apply values)
  | value => value
termination_by structural value => value

def nestedFields (apply : Str → Str) : JsObject → JsObject
  | [] => []
  | field :: fields => nestedField apply field :: nestedFields apply fields
termination_by structural fields => fields

def nestedField (apply : Str → Str) : Str × JsValue → Str × JsValue
  | (key, value) => (key, nested apply value)
termination_by structural field => field

def nestedItems (apply : Str → Str) : List JsValue → List JsValue
  | [] => []
  | value :: values => nested apply value :: nestedItems apply values
termination_by structural values => values

end

/-- The language, for one request. -/
structure JwtLanguage where
  el : ElPlatform
  /-- what an expression can see besides the context -/
  world : ElWorld := {}
  /-- the context of the request, in place of an empty one -/
  elContext : AList fun _ : Str => Str := ∅
  /-- `toDouble`, with `none` where it throws -/
  toDouble : Str → Option Rat

namespace JwtLanguage

variable (L : JwtLanguage)

def apply (context : AList fun _ : Str => Str) (value : Str) : Str :=
  let context := if context.entries.isEmpty then L.elContext else context
  GlobalExpressionLanguage.apply L.el { L.world with context := context.lookup } value

/-- `([0-9\\.,]+)`, where the brackets have a backslash in them. -/
def isNumberText (text : Str) : Bool :=
  !text.isEmpty && text.all fun c => c.isDigit || c == '\\' || c == '.' || c == ','

/-- What a text that was evaluated is read as. -/
def readText (text : Str) : Except TransformException JsValue :=
  if text = "true".toList then .ok (.bool true)
  else if text = "false".toList then .ok (.bool false)
  else if isNumberText text then
    match L.toDouble text with
    | some nbr => .ok (.number nbr)
    | none => .error .numberFormat
  else if text = "null".toList then .ok .null
  else .ok (.string text)

def fromJson (context : AList fun _ : Str => Str) :
    JsValue → Except TransformException JsValue
  | .string str => L.readText (L.apply context str)
  | value => .ok (nested (L.apply context) value)

/-! ## A transformation -/

/-- A claim as the expressions see it. -/
def claimText : JsValue → Str
  | .string str => str
  | .null => "null".toList
  | json => L.el.stringify json

def contextOf (jsonToken : JsObject) : AList fun _ : Str => Str :=
  Maps.insertAll (jsonToken.map fun field => (field.1, L.claimText field.2)) ∅

/-- `as[JsObject]`. -/
def asJsObject : JsValue → Except TransformException JsObject
  | .object fields => .ok fields
  | _ => .error .json

/-- `(a \ b._1).as[JsValue]` is evaluated and moved. -/
def moveClaim (context : AList fun _ : Str => Str) (a : JsObject) (b : Str × Str) :
    Except TransformException JsObject :=
  match a.lookup b.1 with
  | none => .error .json
  | some value => (L.fromJson context value).map fun value => (a.put b.2 value).minus b.1

/-- The entries of the map whose claims are there. -/
def defined (settings : MappingSettings) (jsonToken : JsObject) : List (Str × Str) :=
  settings.map.filter fun a => (jsonToken.lookup a.1).isSome

/-- `newJsonToken` -/
def transform (settings : MappingSettings) (jsonToken : JsObject) :
    Except TransformException JsObject := do
  let context := L.contextOf jsonToken
  let evaluatedValues ← L.fromJson context (.object settings.values) >>= asJsObject
  let mapped ← (defined settings jsonToken).foldlM (L.moveClaim context) jsonToken
  return ((mapped.plusAll evaluatedValues).filter fun f => !isNull f.2).filter
    fun f => !settings.remove.contains f.1

end JwtLanguage

/-! ## Objects -/

namespace JsObject

variable {obj other : JsObject} {name key : Str} {value : JsValue}

def keys (obj : JsObject) : List Str := obj.map Prod.fst

theorem lookup_cons (field : Str × JsValue) (obj : JsObject) (key : Str) :
    List.lookup key (field :: obj) = if key = field.1 then some field.2 else obj.lookup key := by
  rw [List.lookup_cons]
  by_cases h : key = field.1
  · rw [if_pos h, beq_iff_eq.mpr h]
  · rw [if_neg h, beq_eq_false_iff_ne.mpr h]

theorem lookup_eq_none_iff : obj.lookup key = none ↔ key ∉ obj.keys := by
  induction obj with
  | nil => exact iff_of_true rfl List.not_mem_nil
  | cons field obj ih =>
      rw [lookup_cons, keys, List.map_cons, List.mem_cons, not_or]
      by_cases h : key = field.1
      · rw [if_pos h]
        exact iff_of_false (Option.some_ne_none _) fun hkey => hkey.1 h
      · rw [if_neg h, and_iff_right h]
        exact ih

theorem isSome_lookup_iff : (obj.lookup key).isSome = true ↔ key ∈ obj.keys := by
  rw [Option.isSome_iff_ne_none, ne_eq, lookup_eq_none_iff, not_not]

theorem keys_put (obj : JsObject) (name : Str) (value : JsValue) :
    (obj.put name value).keys = if name ∈ obj.keys then obj.keys else obj.keys ++ [name] := by
  by_cases hname : name ∈ obj.keys
  · rw [put, if_pos (isSome_lookup_iff.mpr hname), if_pos hname, keys, keys, List.map_map]
    refine List.map_congr_left fun field _ => ?_
    by_cases h : field.1 = name
    · rw [Function.comp_apply, if_pos h, h]
    · rw [Function.comp_apply, if_neg h]
  · rw [put, if_neg (mt isSome_lookup_iff.mp hname), if_neg hname, keys, keys, List.map_append]
    rfl

theorem lookup_map_put_self (h : name ∈ obj.keys) :
    (obj.map fun field => if field.1 = name then (name, value) else field).lookup name =
      some value := by
  induction obj with
  | nil => cases h
  | cons field obj ih =>
      rw [List.map_cons, lookup_cons]
      by_cases hfield : field.1 = name
      · rw [if_pos hfield, if_pos rfl]
      · rw [if_neg hfield, if_neg (Ne.symm hfield)]
        exact ih ((List.mem_cons.mp h).resolve_left (Ne.symm hfield))

theorem lookup_map_put_of_ne (h : key ≠ name) :
    (obj.map fun field => if field.1 = name then (name, value) else field).lookup key =
      obj.lookup key := by
  induction obj with
  | nil => rfl
  | cons field obj ih =>
      rw [List.map_cons, lookup_cons, lookup_cons, ih]
      by_cases hfield : field.1 = name
      · rw [if_pos hfield, if_neg h, if_neg (hfield ▸ h)]
      · rw [if_neg hfield]

theorem lookup_append (obj other : JsObject) (key : Str) :
    List.lookup key (obj ++ other) = (obj.lookup key).or (other.lookup key) := by
  induction obj with
  | nil => rfl
  | cons field obj ih =>
      rw [List.cons_append, lookup_cons, lookup_cons, ih]
      split
      · rfl
      · rfl

theorem lookup_put (obj : JsObject) (name : Str) (value : JsValue) :
    (fun key => (obj.put name value).lookup key) =
      Function.update (fun key => obj.lookup key) name (some value) := by
  funext key
  by_cases hname : name ∈ obj.keys
  · rw [put, if_pos (isSome_lookup_iff.mpr hname)]
    by_cases hkey : key = name
    · rw [hkey, Function.update_self, lookup_map_put_self hname]
    · rw [Function.update_of_ne hkey, lookup_map_put_of_ne hkey]
  · rw [put, if_neg (mt isSome_lookup_iff.mp hname), lookup_append, lookup_cons]
    by_cases hkey : key = name
    · rw [hkey, Function.update_self, if_pos rfl, lookup_eq_none_iff.mpr hname, Option.none_or]
    · rw [Function.update_of_ne hkey, if_neg hkey, List.lookup_nil, Option.or_none]

/-- What is left under a name is what was there, if it is kept. -/
theorem lookup_filter (h : obj.keys.Nodup) (keep : Str × JsValue → Bool) (key : Str) :
    (obj.filter keep).lookup key = (obj.lookup key).filter fun value => keep (key, value) := by
  induction obj with
  | nil => rfl
  | cons field obj ih =>
      rw [keys, List.map_cons, List.nodup_cons] at h
      have hnone : key = field.1 → obj.lookup key = none := fun hkey =>
        lookup_eq_none_iff.mpr (hkey ▸ h.1)
      rw [List.filter_cons, lookup_cons]
      by_cases hkeep : keep field = true
      · rw [if_pos hkeep, lookup_cons, ih h.2]
        by_cases hkey : key = field.1
        · rw [if_pos hkey, if_pos hkey, hkey]
          exact (Option.filter_some_pos (p := fun value => keep (field.1, value)) hkeep).symm
        · rw [if_neg hkey, if_neg hkey]
      · rw [if_neg hkeep, ih h.2]
        by_cases hkey : key = field.1
        · rw [if_pos hkey, hnone hkey, hkey]
          exact (Option.filter_some_neg (by simpa using hkeep)).symm
        · rw [if_neg hkey]

theorem lookup_minus (h : obj.keys.Nodup) (name : Str) :
    (fun key => (obj.minus name).lookup key) =
      Function.update (fun key => obj.lookup key) name none := by
  funext key
  rw [minus, lookup_filter h]
  by_cases hkey : key = name
  · rw [hkey, Function.update_self]
    simp
  · rw [Function.update_of_ne hkey]
    cases obj.lookup key with
    | none => rfl
    | some value => simp [hkey]

theorem nodup_keys_put (h : obj.keys.Nodup) (name : Str) (value : JsValue) :
    (obj.put name value).keys.Nodup := by
  rw [keys_put]
  split
  · exact h
  · rename_i hname
    rw [List.nodup_append_comm]
    exact List.nodup_cons.mpr ⟨hname, h⟩

theorem nodup_keys_filter (h : obj.keys.Nodup) (keep : Str × JsValue → Bool) :
    JsObject.keys (obj.filter keep) |>.Nodup :=
  h.sublist (List.filter_sublist.map Prod.fst)

theorem nodup_keys_plusAll (h : obj.keys.Nodup) (other : JsObject) :
    (obj.plusAll other).keys.Nodup := by
  induction other generalizing obj with
  | nil => exact h
  | cons field other ih => exact ih (nodup_keys_put h field.1 field.2)

theorem lookup_plusAll (hother : other.keys.Nodup) (key : Str) :
    (obj.plusAll other).lookup key = (other.lookup key).or (obj.lookup key) := by
  induction other generalizing obj with
  | nil => rfl
  | cons field other ih =>
      rw [keys, List.map_cons, List.nodup_cons] at hother
      have hput := congrFun (lookup_put obj field.1 field.2) key
      have hrest : (obj.plusAll (field :: other)).lookup key =
          (other.lookup key).or ((obj.put field.1 field.2).lookup key) := ih hother.2
      rw [hrest, lookup_cons, hput]
      by_cases hkey : key = field.1
      · rw [if_pos hkey, hkey, Function.update_self, lookup_eq_none_iff.mpr hother.1,
          Option.none_or, Option.some_or]
      · rw [if_neg hkey, Function.update_of_ne hkey]

end JsObject

/-! ## What a transformation gives -/

namespace JwtLanguage

open JsObject Renaming

variable (L : JwtLanguage) (settings : MappingSettings) (jsonToken : JsObject)

/-- What is put on top of the claims. -/
def evaluatedValues : JsObject := nestedFields (L.apply (L.contextOf jsonToken)) settings.values

/-- What a payload has under a name, with what the claims have there. -/
def shown (name : Str) (claim : Option JsValue) : Option JsValue :=
  if settings.remove.contains name then none
  else (((evaluatedValues L settings jsonToken).lookup name).or claim).filter fun value =>
    !isNull value

variable {L settings jsonToken}

theorem keys_nestedFields (apply : Str → Str) (fields : JsObject) :
    JsObject.keys (nestedFields apply fields) = JsObject.keys fields := by
  induction fields with
  | nil => rfl
  | cons field fields ih =>
      obtain ⟨key, value⟩ := field
      rw [nestedFields, nestedField, keys, keys, List.map_cons, List.map_cons, ← keys, ih]
      rfl

variable {context : AList fun _ : Str => Str} {entries : List (Str × Str)} {entry : Str × Str}
  {obj mapped : JsObject}

theorem filter_const (keep : Bool) (found : Option JsValue) :
    (found.filter fun _ => keep) = if keep = true then found else none := by
  cases found with
  | none => exact (ite_self none).symm
  | some value => rfl

/-- The claims by their names, behind one move. -/
theorem map_lookup_moveClaim (h : obj.keys.Nodup) :
    (L.moveClaim context obj entry).map (fun obj key => obj.lookup key) =
      step .json (L.fromJson context) (fun key => obj.lookup key) entry := by
  rw [moveClaim, step]
  cases obj.lookup entry.1 with
  | none => rfl
  | some value =>
      cases hvalue : L.fromJson context value with
      | error e => simp only [hvalue, Except.map]
      | ok moved =>
          simp only [hvalue, Except.map]
          rw [lookup_minus (nodup_keys_put h entry.2 moved), lookup_put]

theorem nodup_keys_moveClaim (h : obj.keys.Nodup)
    (hmoved : L.moveClaim context obj entry = .ok mapped) : mapped.keys.Nodup := by
  rw [moveClaim] at hmoved
  cases hlookup : obj.lookup entry.1 with
  | none =>
      rw [hlookup] at hmoved
      cases hmoved
  | some value =>
      cases hvalue : L.fromJson context value with
      | error e =>
          simp only [hlookup, hvalue, Except.map] at hmoved
          cases hmoved
      | ok moved =>
          simp only [hlookup, hvalue, Except.map, Except.ok.injEq] at hmoved
          rw [← hmoved]
          exact nodup_keys_filter (nodup_keys_put h entry.2 moved) _

/-- The claims by their names, behind all moves. -/
theorem foldlM_moveClaim (h : obj.keys.Nodup) :
    (entries.foldlM (L.moveClaim context) obj).map (fun obj key => obj.lookup key) =
        inTurn .json (L.fromJson context) entries (fun key => obj.lookup key) ∧
      ∀ mapped, entries.foldlM (L.moveClaim context) obj = .ok mapped → mapped.keys.Nodup := by
  induction entries generalizing obj with
  | nil =>
      refine ⟨rfl, fun mapped hmapped => ?_⟩
      cases hmapped
      exact h
  | cons entry entries ih =>
      rw [inTurn, List.foldlM_cons, List.foldlM_cons, ← map_lookup_moveClaim h]
      cases hmoved : L.moveClaim context obj entry with
      | error e => exact ⟨rfl, fun mapped hmapped => by cases hmapped⟩
      | ok moved => exact ih (nodup_keys_moveClaim h hmoved)

theorem transform_eq (L : JwtLanguage) (settings : MappingSettings) (jsonToken : JsObject) :
    L.transform settings jsonToken =
      ((defined settings jsonToken).foldlM (L.moveClaim (L.contextOf jsonToken)) jsonToken).map
        fun mapped => ((mapped.plusAll (evaluatedValues L settings jsonToken)).filter
          fun f => !isNull f.2).filter fun f => !settings.remove.contains f.1 := rfl

/-- The payload by its names. -/
theorem map_lookup_transform (htoken : jsonToken.keys.Nodup)
    (hvalues : settings.values.keys.Nodup) :
    (L.transform settings jsonToken).map (fun payload name => payload.lookup name) =
      (inTurn .json (L.fromJson (L.contextOf jsonToken)) (defined settings jsonToken)
        (fun name => jsonToken.lookup name)).map
          fun found name => shown L settings jsonToken name (found name) := by
  obtain ⟨hlookups, hnodup⟩ := @foldlM_moveClaim L (L.contextOf jsonToken)
    (defined settings jsonToken) _ htoken
  rw [← hlookups]
  have hevaluated : (evaluatedValues L settings jsonToken).keys.Nodup := by
    rw [evaluatedValues, keys_nestedFields]
    exact hvalues
  rw [transform_eq]
  cases hmapped : (defined settings jsonToken).foldlM (L.moveClaim (L.contextOf jsonToken))
    jsonToken with
  | error e => rfl
  | ok mapped =>
      refine congrArg Except.ok (funext fun name => ?_)
      have hplus := nodup_keys_plusAll (hnodup mapped hmapped)
        (evaluatedValues L settings jsonToken)
      show List.lookup name (List.filter _ (List.filter _ _)) =
        shown L settings jsonToken name (List.lookup name mapped)
      rw [lookup_filter (nodup_keys_filter hplus _), lookup_filter hplus, lookup_plusAll hevaluated,
        shown]
      refine (filter_const (!settings.remove.contains name) _).trans ?_
      cases settings.remove.contains name with
      | true => rfl
      | false => rfl

/-! ## Claims that are moved at once -/

/-- The claims of a payload are the ones of the token under their new names and as they are, with
the values on top, without what is removed and null. -/
structure IsTransformed (L : JwtLanguage) (settings : MappingSettings) (jsonToken : JsObject)
    (claims : Str → Option JsValue) : Prop where
  target : ∀ entry ∈ settings.map, (jsonToken.lookup entry.1).isSome = true →
    claims entry.2 = shown L settings jsonToken entry.2 (jsonToken.lookup entry.1)
  source : ∀ entry ∈ settings.map, (jsonToken.lookup entry.1).isSome = true →
    (∀ other ∈ settings.map, (jsonToken.lookup other.1).isSome = true → other.2 ≠ entry.1) →
      claims entry.1 = shown L settings jsonToken entry.1 none
  other : ∀ name, (∀ entry ∈ settings.map, (jsonToken.lookup entry.1).isSome = true →
      entry.1 ≠ name ∧ entry.2 ≠ name) →
    claims name = shown L settings jsonToken name (jsonToken.lookup name)

/-- In whichever order the map is gone through, the payload has the claims that are moved at
once. -/
def RenamesAtOnce (L : JwtLanguage) (settings : MappingSettings) (jsonToken : JsObject) : Prop :=
  ∃ claims, IsTransformed L settings jsonToken claims ∧
    ∀ order : List (Str × Str), order.Perm settings.map →
      (L.transform { settings with map := order } jsonToken).map
        (fun payload name => payload.lookup name) = .ok claims

/-- The payload has nothing of the claims under the name. -/
def Covered (L : JwtLanguage) (settings : MappingSettings) (jsonToken : JsObject) (name : Str) :
    Prop :=
  name ∈ settings.remove ∨ name ∈ (evaluatedValues L settings jsonToken).keys

/-- No claim is moved to a name that is moved away, and what evaluation makes of a claim, once or
on its way along other names, is the claim. Names that are covered and null values are left out. -/
structure Separate (L : JwtLanguage) (settings : MappingSettings) (jsonToken : JsObject) :
    Prop where
  vacated : ∀ entry ∈ defined settings jsonToken, ∀ other ∈ defined settings jsonToken,
    entry.2 = other.1 → Covered L settings jsonToken entry.2 ∨
      (jsonToken.lookup entry.1).any isNull = true
  carried : ∀ name chain value, chain ≠ [] → Links name chain → chain.Nodup →
    chain ⊆ defined settings jsonToken → jsonToken.lookup name = some value →
      ∃ moved, carry (L.fromJson (L.contextOf jsonToken)) chain value = .ok moved ∧
        ∀ entry ∈ defined settings jsonToken, entry.2 = finish name chain →
          Covered L settings jsonToken entry.2 ∨ jsonToken.lookup entry.1 = some moved ∨
            (isNull moved = true ∧ (jsonToken.lookup entry.1).any isNull = true)

variable {name : Str} {value : JsValue}

theorem shown_eq_iff {found found' : Option JsValue} :
    shown L settings jsonToken name found = shown L settings jsonToken name found' ↔
      Covered L settings jsonToken name ∨
        found.filter (fun value => !isNull value) = found'.filter fun value => !isNull value := by
  rw [Covered, ← isSome_lookup_iff, shown, shown]
  by_cases hremove : name ∈ settings.remove
  · simp [hremove]
  · cases hevaluated : (evaluatedValues L settings jsonToken).lookup name with
    | none => simp [hremove]
    | some value => simp [hremove]

theorem filter_some (value : JsValue) :
    ((some value).filter fun value => !isNull value) =
      if isNull value = true then none else some value := by
  cases h : isNull value with
  | true => simp [h]
  | false => simp [h]

theorem shown_none_eq_iff :
    shown L settings jsonToken name none = shown L settings jsonToken name (some value) ↔
      Covered L settings jsonToken name ∨ isNull value = true := by
  rw [shown_eq_iff, filter_some, Option.filter_none]
  cases isNull value with
  | true => simp
  | false => simp

theorem shown_some_eq_iff {other : JsValue} :
    shown L settings jsonToken name (some value) = shown L settings jsonToken name (some other) ↔
      Covered L settings jsonToken name ∨ other = value ∨
        (isNull value = true ∧ isNull other = true) := by
  rw [shown_eq_iff, filter_some, filter_some]
  have hne : isNull value ≠ isNull other → other ≠ value := fun hnull hsame => hnull (hsame ▸ rfl)
  cases hvalue : isNull value with
  | true =>
      cases hother : isNull other with
      | true => simp
      | false => simp [hne (by simp [hvalue, hother])]
  | false =>
      cases hother : isNull other with
      | true => simp [hne (by simp [hvalue, hother])]
      | false => simp [eq_comm]

/-- A null value is still one when it is evaluated. -/
theorem isNull_fromJson {moved : JsValue} (h : isNull value = true)
    (hmoved : L.fromJson context value = .ok moved) : isNull moved = true := by
  have happly : L.apply context "null".toList = "null".toList := by
    rfl
  cases value with
  | null =>
      cases hmoved
      rfl
  | string text =>
      have htext : text = "null".toList := beq_iff_eq.mp h
      rw [fromJson, htext, happly] at hmoved
      cases hmoved
      rfl
  | bool value => cases h
  | number value => cases h
  | array items => cases h
  | object fields => cases h

theorem mem_defined {entry : Str × Str} : entry ∈ defined settings jsonToken ↔
    entry ∈ settings.map ∧ (jsonToken.lookup entry.1).isSome = true :=
  List.mem_filter

theorem separate_iff_clear : Separate L settings jsonToken ↔
    Clear (L.fromJson (L.contextOf jsonToken)) (shown L settings jsonToken)
      (defined settings jsonToken) (fun name => jsonToken.lookup name) := by
  have hvacated : ∀ entry ∈ defined settings jsonToken,
      shown L settings jsonToken entry.2 none =
          shown L settings jsonToken entry.2 (jsonToken.lookup entry.1) ↔
        Covered L settings jsonToken entry.2 ∨ (jsonToken.lookup entry.1).any isNull = true := by
    intro entry hentry
    obtain ⟨value, hvalue⟩ := Option.isSome_iff_exists.mp (mem_defined.mp hentry).2
    rw [hvalue, shown_none_eq_iff, Option.any_some]
  have hcarried : ∀ entry ∈ defined settings jsonToken, ∀ moved,
      shown L settings jsonToken entry.2 (some moved) =
          shown L settings jsonToken entry.2 (jsonToken.lookup entry.1) ↔
        Covered L settings jsonToken entry.2 ∨ jsonToken.lookup entry.1 = some moved ∨
          (isNull moved = true ∧ (jsonToken.lookup entry.1).any isNull = true) := by
    intro entry hentry moved
    obtain ⟨value, hvalue⟩ := Option.isSome_iff_exists.mp (mem_defined.mp hentry).2
    rw [hvalue, shown_some_eq_iff, Option.any_some, Option.some.injEq]
  refine ⟨fun h => ⟨fun entry hentry other hother hsame => ?_, ?_⟩,
    fun h => ⟨fun entry hentry other hother hsame => ?_, ?_⟩⟩
  · exact (hvacated entry hentry).mpr (h.vacated entry hentry other hother hsame)
  · intro name chain value hchain hlinks hnodup hsubset hvalue
    obtain ⟨moved, hmoved, htarget⟩ :=
      h.carried name chain value hchain hlinks hnodup hsubset hvalue
    exact ⟨moved, hmoved, fun entry hentry hsame =>
      (hcarried entry hentry moved).mpr (htarget entry hentry hsame)⟩
  · exact (hvacated entry hentry).mp (h.vacated entry hentry other hother hsame)
  · intro name chain value hchain hlinks hnodup hsubset hvalue
    obtain ⟨moved, hmoved, htarget⟩ :=
      h.carried name chain value hchain hlinks hnodup hsubset hvalue
    exact ⟨moved, hmoved, fun entry hentry hsame =>
      (hcarried entry hentry moved).mp (htarget entry hentry hsame)⟩

theorem isTransformed_iff {claims : Str → Option JsValue} :
    IsTransformed L settings jsonToken claims ↔
      IsRenaming (shown L settings jsonToken) (defined settings jsonToken)
        (fun name => jsonToken.lookup name) claims := by
  refine ⟨fun h => ⟨fun entry hentry => ?_, fun entry hentry hno => ?_, fun name hother => ?_⟩,
    fun h => ⟨fun entry hentry hsome => ?_, fun entry hentry hsome hno => ?_,
      fun name hother => ?_⟩⟩
  · exact h.target entry (mem_defined.mp hentry).1 (mem_defined.mp hentry).2
  · exact h.source entry (mem_defined.mp hentry).1 (mem_defined.mp hentry).2
      fun other hother hsome => hno other (mem_defined.mpr ⟨hother, hsome⟩)
  · exact h.other name fun entry hentry hsome => hother entry (mem_defined.mpr ⟨hentry, hsome⟩)
  · exact h.target entry (mem_defined.mpr ⟨hentry, hsome⟩)
  · exact h.source entry (mem_defined.mpr ⟨hentry, hsome⟩) fun other hother =>
      hno other (mem_defined.mp hother).1 (mem_defined.mp hother).2
  · exact h.other name fun entry hentry => hother entry (mem_defined.mp hentry).1
      (mem_defined.mp hentry).2

/-- The orders of the map are the orders of the entries whose claims are there. -/
theorem renamesAtOnce_iff_renames (htoken : jsonToken.keys.Nodup)
    (hvalues : settings.values.keys.Nodup) :
    RenamesAtOnce L settings jsonToken ↔
      Renames .json (L.fromJson (L.contextOf jsonToken)) (shown L settings jsonToken)
        (defined settings jsonToken) (fun name => jsonToken.lookup name) := by
  refine exists_congr fun claims => and_congr isTransformed_iff ⟨fun h order hperm => ?_,
    fun h order hperm => ?_⟩
  · let absent := settings.map.filter fun a => !(jsonToken.lookup a.1).isSome
    have hwhole : (order ++ absent).Perm settings.map :=
      (hperm.append_right absent).trans (List.filter_append_perm _ settings.map)
    have hpresent : order.filter (fun a => (jsonToken.lookup a.1).isSome) = order :=
      List.filter_eq_self.mpr fun entry hentry => (mem_defined.mp (hperm.subset hentry)).2
    have habsent : absent.filter (fun a => (jsonToken.lookup a.1).isSome) = [] := by
      refine List.filter_eq_nil_iff.mpr fun entry hentry hsome => ?_
      have hnone := (List.mem_filter.mp hentry).2
      rw [hsome] at hnone
      cases hnone
    have hdefined : defined { settings with map := order ++ absent } jsonToken = order := by
      rw [defined, List.filter_append, hpresent, habsent, List.append_nil]
    have htransform := @map_lookup_transform L { settings with map := order ++ absent } jsonToken
      htoken hvalues
    rw [hdefined] at htransform
    exact htransform.symm.trans (h (order ++ absent) hwhole)
  · exact (@map_lookup_transform L { settings with map := order } jsonToken htoken hvalues).trans
      (h _ (hperm.filter _))

/-- The claims are moved at once and as they are exactly if they are separate. -/
theorem renamesAtOnce_iff (L : JwtLanguage) (settings : MappingSettings) (jsonToken : JsObject)
    (hmap : (settings.map.map Prod.fst).Nodup) (hvalues : settings.values.keys.Nodup)
    (htoken : jsonToken.keys.Nodup) :
    RenamesAtOnce L settings jsonToken ↔ Separate L settings jsonToken := by
  have hsources : ((defined settings jsonToken).map Prod.fst).Nodup :=
    hmap.sublist (List.filter_sublist.map Prod.fst)
  rw [renamesAtOnce_iff_renames htoken hvalues, separate_iff_clear]
  refine renames_iff_clear hsources (fun entry hentry => (mem_defined.mp hentry).2)
    fun name value moved hmoved hnull => ?_
  rw [shown_none_eq_iff] at hnull ⊢
  exact hnull.imp_right fun hnull => isNull_fromJson hnull hmoved

/-- Claims with values of no expression are separate if they are moved to names of their own that
are not moved. -/
theorem separate_of_disjoint (htargets : ((defined settings jsonToken).map Prod.snd).Nodup)
    (hdisjoint : ∀ entry ∈ defined settings jsonToken, ∀ other ∈ defined settings jsonToken,
      entry.2 ≠ other.1)
    (hvalues : ∀ entry ∈ defined settings jsonToken, ∃ value,
      jsonToken.lookup entry.1 = some value ∧
        L.fromJson (L.contextOf jsonToken) value = .ok value) :
    Separate L settings jsonToken where
  vacated entry hentry other hother hsame := absurd hsame (hdisjoint entry hentry other hother)
  carried name chain value hchain hlinks hnodup hsubset hvalue := by
    cases chain with
    | nil => exact absurd rfl hchain
    | cons first rest =>
        have hfirst := hsubset List.mem_cons_self
        obtain ⟨rfl, hlinks⟩ := hlinks
        cases rest with
        | cons next rest =>
            exact absurd hlinks.1.symm (hdisjoint first hfirst next (hsubset (by simp)))
        | nil =>
            obtain ⟨value', hvalue', hmoved⟩ := hvalues first hfirst
            rw [hvalue, Option.some.injEq] at hvalue'
            subst hvalue'
            refine ⟨value, carry_singleton.trans hmoved, fun entry hentry hsame => .inr (.inl ?_)⟩
            rw [List.inj_on_of_nodup_map htargets hentry hfirst hsame, hvalue]

/-- A language without a platform. -/
def plainLanguage : JwtLanguage where
  el := GlobalExpressionLanguage.plainPlatform
  toDouble _ := none

/-- The name of a claim is changed. -/
def renameA : MappingSettings := { map := [("a".toList, "b".toList)] }

/-- A token with a claim `a`. -/
def tokenA : JsObject := [("a".toList, .bool true)]

theorem renamesAtOnce_of_example : RenamesAtOnce plainLanguage renameA tokenA :=
  (renamesAtOnce_iff plainLanguage renameA tokenA (by decide) (by decide) (by decide)).mpr
    (separate_of_disjoint (by decide) (by decide) fun entry hentry => by
      rw [List.mem_singleton.mp hentry]
      exact ⟨.bool true, rfl, rfl⟩)

/-- A claim that keeps its name is lost. -/
theorem not_forall_renamesAtOnce :
    ¬ ∀ (L : JwtLanguage) (settings : MappingSettings) (jsonToken : JsObject),
      (settings.map.map Prod.fst).Nodup → settings.values.keys.Nodup → jsonToken.keys.Nodup →
        RenamesAtOnce L settings jsonToken := by
  intro h
  obtain ⟨claims, htransformed, horders⟩ := h plainLanguage
    { map := [("a".toList, "a".toList)] } tokenA (by decide) (by decide) (by decide)
  have htarget := htransformed.target ("a".toList, "a".toList) List.mem_cons_self rfl
  have horder : Except.ok (fun _ => none) = Except.ok claims :=
    horders [("a".toList, "a".toList)] (List.Perm.refl _)
  rw [← Except.ok.inj horder] at htarget
  cases htarget

end JwtLanguage

end Jwt

end Otoroshi
