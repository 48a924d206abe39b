/-
# Equality of JSON values

Two objects are equal when they have equal fields, in whatever order; two arrays are equal
item by item. `equals` decides this. It is an equivalence, so sets and multisets of values can
be formed with it.
-/

import Mathlib.Data.List.Forall2
import Otoroshi.Foundation.Json

namespace Otoroshi

namespace JsValue

/-- What holds of a value when it holds of all values in it, holds of every value. -/
@[elab_as_elim]
theorem deepInduction {motive : JsValue → Prop} (hnull : motive .null)
    (hbool : ∀ value, motive (.bool value)) (hnumber : ∀ value, motive (.number value))
    (hstring : ∀ value, motive (.string value))
    (harray : ∀ items, (∀ item ∈ items, motive item) → motive (.array items))
    (hobject : ∀ fields, (∀ field ∈ fields, motive field.2) → motive (.object fields)) :
    ∀ value, motive value
  | .null => hnull
  | .bool value => hbool value
  | .number value => hnumber value
  | .string value => hstring value
  | .array items => harray items fun item _hitem =>
      deepInduction hnull hbool hnumber hstring harray hobject item
  | .object fields => hobject fields fun field _hfield =>
      deepInduction hnull hbool hnumber hstring harray hobject field.2
termination_by value => sizeOf value
decreasing_by
  · have := List.sizeOf_lt_of_mem _hitem
    simp only [array.sizeOf_spec]
    omega
  · have := List.sizeOf_lt_of_mem _hfield
    rcases field with ⟨name, value⟩
    simp only [Prod.mk.sizeOf_spec, object.sizeOf_spec] at this ⊢
    omega

mutual

/-- `equals`. The fields of an object are a set. -/
def equals : JsValue → JsValue → Bool
  | .null, .null => true
  | .bool first, .bool second => first == second
  | .number first, .number second => first == second
  | .string first, .string second => first == second
  | .array first, .array second => equalItems first second
  | .object first, .object second =>
      fieldsIn first second && second.all fun other => hasField first other
  | _, _ => false
termination_by structural first => first

def equalItems : List JsValue → List JsValue → Bool
  | [], [] => true
  | first :: items, second :: others => equals first second && equalItems items others
  | _, _ => false
termination_by structural first => first

/-- All fields of the first are fields of the second. -/
def fieldsIn : List (Str × JsValue) → List (Str × JsValue) → Bool
  | [], _ => true
  | field :: fields, others =>
      others.any (fun other => equalFields field other) && fieldsIn fields others
termination_by structural first => first

def hasField : List (Str × JsValue) → Str × JsValue → Bool
  | [], _ => false
  | field :: fields, other => equalFields field other || hasField fields other
termination_by structural first => first

def equalFields : Str × JsValue → Str × JsValue → Bool
  | (name, value), other => name == other.1 && equals value other.2
termination_by structural first => first

end

theorem equalFields_iff {field other : Str × JsValue} :
    equalFields field other = true ↔ field.1 = other.1 ∧ equals field.2 other.2 = true := by
  rw [equalFields, Bool.and_eq_true, beq_iff_eq]

theorem equalItems_iff {first second : List JsValue} :
    equalItems first second = true ↔ List.Forall₂ (fun x y => equals x y = true) first second := by
  induction first generalizing second with
  | nil => cases second <;> simp [equalItems]
  | cons item items ih =>
      cases second with
      | nil => simp [equalItems]
      | cons other others => rw [equalItems, Bool.and_eq_true, ih, List.forall₂_cons]

theorem fieldsIn_iff {first second : List (Str × JsValue)} :
    fieldsIn first second = true ↔
      ∀ field ∈ first, ∃ other ∈ second, equalFields field other = true := by
  induction first with
  | nil => simp [fieldsIn]
  | cons field fields ih =>
      rw [fieldsIn, Bool.and_eq_true, ih, List.forall_mem_cons, List.any_eq_true]

theorem hasField_iff {first : List (Str × JsValue)} {other : Str × JsValue} :
    hasField first other = true ↔ ∃ field ∈ first, equalFields field other = true := by
  induction first with
  | nil => simp [hasField]
  | cons field fields ih => rw [hasField, Bool.or_eq_true, ih, List.exists_mem_cons_iff]

theorem equals_object_iff {first second : List (Str × JsValue)} :
    equals (.object first) (.object second) = true ↔
      (∀ field ∈ first, ∃ other ∈ second, equalFields field other = true) ∧
        ∀ other ∈ second, ∃ field ∈ first, equalFields field other = true := by
  rw [equals, Bool.and_eq_true, fieldsIn_iff, List.all_eq_true]
  simp only [hasField_iff]

theorem equals_array_iff {first second : List JsValue} :
    equals (.array first) (.array second) = true ↔
      List.Forall₂ (fun x y => equals x y = true) first second := by
  rw [equals, equalItems_iff]

theorem equals_refl (value : JsValue) : equals value value = true := by
  induction value using deepInduction with
  | hnull => rfl
  | hbool value => exact beq_self_eq_true value
  | hnumber value => exact beq_self_eq_true value
  | hstring value => exact beq_self_eq_true value
  | harray items ih =>
      rw [equals_array_iff, List.forall₂_same]
      exact ih
  | hobject fields ih =>
      have hfield (field) (hfield : field ∈ fields) : equalFields field field = true :=
        equalFields_iff.mpr ⟨rfl, ih field hfield⟩
      rw [equals_object_iff]
      exact ⟨fun field hmem => ⟨field, hmem, hfield field hmem⟩,
        fun field hmem => ⟨field, hmem, hfield field hmem⟩⟩

theorem equals_symm {first second : JsValue} (h : equals first second = true) :
    equals second first = true := by
  induction first using deepInduction generalizing second with
  | hnull => cases second <;> simp [equals] at h ⊢
  | hbool value => cases second <;> simp [equals] at h ⊢; exact h.symm
  | hnumber value => cases second <;> simp [equals] at h ⊢; exact h.symm
  | hstring value => cases second <;> simp [equals] at h ⊢; exact h.symm
  | harray items ih =>
      cases second with
      | array others =>
          rw [equals_array_iff] at h ⊢
          induction h with
          | nil => exact .nil
          | cons hfirst _ ih' =>
              rw [List.forall_mem_cons] at ih
              exact .cons (ih.1 hfirst) (ih' ih.2)
      | _ => simp [equals] at h
  | hobject fields ih =>
      have hsymm {field other : Str × JsValue} (hfield : field ∈ fields)
          (hequal : equalFields field other = true) : equalFields other field = true := by
        rw [equalFields_iff] at hequal ⊢
        exact ⟨hequal.1.symm, ih field hfield hequal.2⟩
      cases second with
      | object others =>
          rw [equals_object_iff] at h ⊢
          refine ⟨fun other hother => ?_, fun field hfield => ?_⟩
          · obtain ⟨field, hfield, hequal⟩ := h.2 other hother
            exact ⟨field, hfield, hsymm hfield hequal⟩
          · obtain ⟨other, hother, hequal⟩ := h.1 field hfield
            exact ⟨other, hother, hsymm hfield hequal⟩
      | _ => simp [equals] at h

theorem equals_trans {first second third : JsValue} (h : equals first second = true)
    (h' : equals second third = true) : equals first third = true := by
  induction first using deepInduction generalizing second third with
  | hnull =>
      cases second <;> simp [equals] at h
      exact h'
  | hbool value =>
      cases second <;> simp [equals] at h
      rwa [h]
  | hnumber value =>
      cases second <;> simp [equals] at h
      rwa [h]
  | hstring value =>
      cases second <;> simp [equals] at h
      rwa [h]
  | harray items ih =>
      cases second with
      | array others =>
          cases third with
          | array more =>
              rw [equals_array_iff] at h h' ⊢
              induction h generalizing more with
              | nil => exact h'
              | cons hfirst _ ih' =>
                  obtain ⟨item, rest, hitem, hrest, rfl⟩ := List.forall₂_cons_left_iff.mp h'
                  rw [List.forall_mem_cons] at ih
                  exact .cons (ih.1 hfirst hitem) (ih' ih.2 rest hrest)
          | _ => simp [equals] at h'
      | _ => simp [equals] at h
  | hobject fields ih =>
      have htrans {field other another : Str × JsValue} (hfield : field ∈ fields)
          (hequal : equalFields field other = true)
          (hequal' : equalFields other another = true) : equalFields field another = true := by
        rw [equalFields_iff] at hequal hequal' ⊢
        exact ⟨hequal.1.trans hequal'.1, ih field hfield hequal.2 hequal'.2⟩
      cases second with
      | object others =>
          cases third with
          | object more =>
              rw [equals_object_iff] at h h' ⊢
              refine ⟨fun field hfield => ?_, fun another hanother => ?_⟩
              · obtain ⟨other, hother, hequal⟩ := h.1 field hfield
                obtain ⟨another, hanother, hequal'⟩ := h'.1 other hother
                exact ⟨another, hanother, htrans hfield hequal hequal'⟩
              · obtain ⟨other, hother, hequal'⟩ := h'.2 another hanother
                obtain ⟨field, hfield, hequal⟩ := h.2 other hother
                exact ⟨field, hfield, htrans hfield hequal hequal'⟩
          | _ => simp [equals] at h'
      | _ => simp [equals] at h

instance : BEq JsValue := ⟨equals⟩

instance : EquivBEq JsValue where
  rfl := equals_refl _
  symm := equals_symm
  trans := equals_trans

end JsValue

end Otoroshi
