/-
# Transformers in one list

One list holds the transformers of a request for all the phases they have. A slot can
declare an index for the request and one for the response, and the list is put together
from three sorted parts: the slots whose plugin transforms requests by their request
index, those whose plugin transforms responses by their response index, and those whose
plugin transforms errors by the response index too. A slot comes where it comes first.
The slots that declare neither index follow.

A slot that declares an index can be in none of the parts, as its plugin need not
transform what the index is for. `mem_transformerPlugins` says which slots are kept, and
`pairwise_transformerPlugins` in which order they are.
-/

import Mathlib.Order.WithBot
import Otoroshi.Foundation.Sorting
import Otoroshi.Plugins.Slots

namespace Otoroshi

namespace Plugins

variable {Config Index : Type}

structure NgSimplePluginWrapper (Config Index : Type) where
  slot : NgPluginInstance Config Index
  plugin : NgRequestTransformer
  deriving DecidableEq

namespace NgSimplePluginWrapper

variable (wrapper : NgSimplePluginWrapper Config Index)

def requestIndex : Option Index :=
  wrapper.slot.pluginIndex.bind PluginIndex.transformRequest

def responseIndex : Option Index :=
  wrapper.slot.pluginIndex.bind PluginIndex.transformResponse

/-- The indexes as what a list is sorted by. -/
def requestKey : WithBot Index := wrapper.requestIndex

def responseKey : WithBot Index := wrapper.responseIndex

def declaresIndex : Bool := wrapper.requestIndex.isSome || wrapper.responseIndex.isSome

/-- Declared earlier. -/
def Earlier (x y : NgSimplePluginWrapper Config Index) : Prop :=
  x.slot.instanceId < y.slot.instanceId

theorem not_earlier_self : ¬ Earlier wrapper wrapper := lt_irrefl _

def inRequestPart : Bool := wrapper.requestIndex.isSome && wrapper.plugin.transformsRequest

def inResponsePart : Bool := wrapper.responseIndex.isSome && wrapper.plugin.transformsResponse

def inErrorPart : Bool := wrapper.responseIndex.isSome && wrapper.plugin.transformsError

/-- The parts of the list, and no part at all. -/
inductive Part
  | request
  | response
  | error
  | rest
  | nowhere
  deriving DecidableEq

/-- The part a slot comes in first. -/
def part : Part :=
  if wrapper.inRequestPart then .request
  else if wrapper.inResponsePart then .response
  else if wrapper.inErrorPart then .error
  else if wrapper.declaresIndex then .nowhere
  else .rest

namespace Part

/-- The parts follow each other in the list. -/
def rank : Part → Nat
  | .request => 0
  | .response => 1
  | .error => 2
  | .rest => 3
  | .nowhere => 4

theorem rank_request_lt {part : Part} (h : part ≠ .request) : rank .request < part.rank := by
  cases part with
  | request => exact absurd rfl h
  | response | error | rest | nowhere => decide

end Part

/-- The index that the part of a slot is sorted by. -/
def placeKey : WithBot Index :=
  match wrapper.part with
  | .request => wrapper.requestKey
  | .response | .error => wrapper.responseKey
  | .rest | .nowhere => ⊥

variable {wrapper}

theorem part_eq_request_iff : wrapper.part = .request ↔ wrapper.inRequestPart := by
  grind [part]

theorem part_eq_rest_iff : wrapper.part = .rest ↔ !wrapper.declaresIndex := by
  grind [part, declaresIndex, inRequestPart, inResponsePart, inErrorPart]

theorem placeKey_of_request (hpart : wrapper.part = .request) :
    wrapper.placeKey = wrapper.requestKey := by
  rw [placeKey, hpart]

theorem placeKey_of_response (hpart : wrapper.part = .response) :
    wrapper.placeKey = wrapper.responseKey := by
  rw [placeKey, hpart]

theorem placeKey_of_error (hpart : wrapper.part = .error) :
    wrapper.placeKey = wrapper.responseKey := by
  rw [placeKey, hpart]

theorem placeKey_of_rest (hpart : wrapper.part = .rest) : wrapper.placeKey = ⊥ := by
  rw [placeKey, hpart]

theorem part_eq_response_iff :
    wrapper.part = .response ↔ !wrapper.inRequestPart && wrapper.inResponsePart := by
  grind [part]

theorem part_eq_error_iff : wrapper.part = .error ↔
    !wrapper.inRequestPart && !wrapper.inResponsePart && wrapper.inErrorPart := by
  grind [part]

variable [LinearOrder Index]

/-- By part, then by the index that counts there, then by declaration. -/
def Precedes : NgSimplePluginWrapper Config Index → NgSimplePluginWrapper Config Index → Prop :=
  ByKey (fun wrapper => wrapper.part.rank) (ByKey placeKey Earlier)

theorem not_precedes_self : ¬ Precedes wrapper wrapper :=
  byKey_irrefl (byKey_irrefl not_earlier_self) wrapper

theorem precedes_asymm (x y : NgSimplePluginWrapper Config Index) (h : Precedes x y) :
    ¬ Precedes y x :=
  byKey_asymm (byKey_asymm fun _ _ => lt_asymm) x y h

theorem rank_le_of_precedes {x y : NgSimplePluginWrapper Config Index} (h : Precedes x y) :
    x.part.rank ≤ y.part.rank := by
  obtain hlt | ⟨heq, -⟩ := h
  · exact hlt.le
  · exact heq.le

theorem place_of_precedes {x y : NgSimplePluginWrapper Config Index} (h : Precedes x y)
    (hpart : x.part = y.part) : ByKey placeKey Earlier x y := by
  obtain hlt | ⟨-, hplace⟩ := h
  · exact absurd (congrArg Part.rank hpart) (ne_of_lt hlt)
  · exact hplace

/-- Slots of one part that are in order by an index are in order if it is the one that
counts there. -/
theorem pairwise_precedes_of_part {key : NgSimplePluginWrapper Config Index → WithBot Index}
    {part : Part} {list : List (NgSimplePluginWrapper Config Index)}
    (hkey : ∀ v : NgSimplePluginWrapper Config Index, v.part = part → v.placeKey = key v)
    (hpart : ∀ v ∈ list, v.part = part) (hlist : list.Pairwise (ByKey key Earlier)) :
    list.Pairwise Precedes := by
  apply hlist.imp_of_mem
  intro x y hx hy hxy
  have hplace : ByKey placeKey Earlier x y := by
    rwa [ByKey, hkey x (hpart x hx), hkey y (hpart y hy)]
  exact Or.inr ⟨congrArg Part.rank ((hpart x hx).trans (hpart y hy).symm), hplace⟩

theorem pairwise_precedes_append {first second : List (NgSimplePluginWrapper Config Index)}
    (hfirst : first.Pairwise Precedes) (hsecond : second.Pairwise Precedes)
    (hrank : ∀ x ∈ first, ∀ y ∈ second, x.part.rank < y.part.rank) :
    (first ++ second).Pairwise Precedes := by
  rw [List.pairwise_append]
  exact ⟨hfirst, hsecond, fun x hx y hy => Or.inl (hrank x hx y hy)⟩

end NgSimplePluginWrapper

open NgSimplePluginWrapper (Earlier Precedes Part not_earlier_self part_eq_request_iff
  part_eq_rest_iff pairwise_precedes_of_part pairwise_precedes_append placeKey_of_request
  placeKey_of_response placeKey_of_error placeKey_of_rest)

section List

variable (pls : List (NgSimplePluginWrapper Config Index)) {v : NgSimplePluginWrapper Config Index}

def plsWithIndexAll : List (NgSimplePluginWrapper Config Index) := pls.filter (·.declaresIndex)

def plsWithoutIndex : List (NgSimplePluginWrapper Config Index) :=
  pls.filter fun v => !v.declaresIndex

variable {pls} in
theorem mem_plsWithoutIndex : v ∈ plsWithoutIndex pls ↔ v ∈ pls ∧ !v.declaresIndex :=
  List.mem_filter

variable [LinearOrder Index]

def plsReq : List (NgSimplePluginWrapper Config Index) :=
  sortBy NgSimplePluginWrapper.requestKey ((plsWithIndexAll pls).filter (·.inRequestPart))

def plsResp : List (NgSimplePluginWrapper Config Index) :=
  sortBy NgSimplePluginWrapper.responseKey ((plsWithIndexAll pls).filter (·.inResponsePart))

def plsErr : List (NgSimplePluginWrapper Config Index) :=
  sortBy NgSimplePluginWrapper.responseKey ((plsWithIndexAll pls).filter (·.inErrorPart))

/-- The list of these transformers, each of the sorted ones where it comes first. -/
def arrangedTransformers [DecidableEq Config] : List (NgSimplePluginWrapper Config Index) :=
  (plsReq pls ++ plsResp pls ++ plsErr pls).eraseDups ++ plsWithoutIndex pls

variable {pls}

theorem mem_plsReq : v ∈ plsReq pls ↔ v ∈ pls ∧ v.inRequestPart := by
  simp only [plsReq, plsWithIndexAll, mem_sortBy, List.mem_filter]
  grind [NgSimplePluginWrapper.declaresIndex, NgSimplePluginWrapper.inRequestPart]

theorem mem_plsResp : v ∈ plsResp pls ↔ v ∈ pls ∧ v.inResponsePart := by
  simp only [plsResp, plsWithIndexAll, mem_sortBy, List.mem_filter]
  grind [NgSimplePluginWrapper.declaresIndex, NgSimplePluginWrapper.inResponsePart]

theorem mem_plsErr : v ∈ plsErr pls ↔ v ∈ pls ∧ v.inErrorPart := by
  simp only [plsErr, plsWithIndexAll, mem_sortBy, List.mem_filter]
  grind [NgSimplePluginWrapper.declaresIndex, NgSimplePluginWrapper.inErrorPart]

section Order

variable (hpls : pls.Pairwise Earlier)

include hpls

theorem pairwise_plsReq : (plsReq pls).Pairwise (ByKey NgSimplePluginWrapper.requestKey Earlier) :=
  pairwise_sortBy ((hpls.filter _).filter _)

theorem pairwise_plsResp :
    (plsResp pls).Pairwise (ByKey NgSimplePluginWrapper.responseKey Earlier) :=
  pairwise_sortBy ((hpls.filter _).filter _)

theorem pairwise_plsErr : (plsErr pls).Pairwise (ByKey NgSimplePluginWrapper.responseKey Earlier) :=
  pairwise_sortBy ((hpls.filter _).filter _)

end Order

/-- What is new in the second of the sorted lists, and in the third. -/
def newInResponse (pls : List (NgSimplePluginWrapper Config Index)) :
    List (NgSimplePluginWrapper Config Index) :=
  (plsResp pls).filter fun v => decide (v.part = .response)

def newInError (pls : List (NgSimplePluginWrapper Config Index)) :
    List (NgSimplePluginWrapper Config Index) :=
  (plsErr pls).filter fun v => decide (v.part = .error)

theorem mem_newInResponse : v ∈ newInResponse pls ↔ v ∈ pls ∧ v.part = .response := by
  rw [newInResponse, List.mem_filter, mem_plsResp]
  grind [NgSimplePluginWrapper.part]

theorem mem_newInError : v ∈ newInError pls ↔ v ∈ pls ∧ v.part = .error := by
  rw [newInError, List.mem_filter, mem_plsErr]
  grind [NgSimplePluginWrapper.part]

variable [DecidableEq Config]

theorem arrangedTransformers_eq (hpls : pls.Pairwise Earlier) : arrangedTransformers pls =
    plsReq pls ++ newInResponse pls ++ newInError pls ++ plsWithoutIndex pls := by
  have hreq : (plsReq pls).Nodup := nodup_of_byKey not_earlier_self (pairwise_plsReq hpls)
  have hresp : (plsResp pls).Nodup := nodup_of_byKey not_earlier_self (pairwise_plsResp hpls)
  have herr : (plsErr pls).Nodup := nodup_of_byKey not_earlier_self (pairwise_plsErr hpls)
  have hfirst : (plsResp pls).removeAll (plsReq pls) = newInResponse pls := by
    apply List.filter_congr
    intro v hv
    obtain ⟨hmem, hpart⟩ := mem_plsResp.mp hv
    grind [NgSimplePluginWrapper.part, mem_plsReq]
  have hsecond : (plsErr pls).removeAll (plsReq pls ++ plsResp pls) = newInError pls := by
    apply List.filter_congr
    intro v hv
    obtain ⟨hmem, hpart⟩ := mem_plsErr.mp hv
    grind [NgSimplePluginWrapper.part, mem_plsReq, mem_plsResp]
  rw [arrangedTransformers, eraseDups_append_of_nodup herr, hsecond,
    eraseDups_append_of_nodup hresp, hfirst, eraseDups_of_nodup hreq]

/-- A slot is kept unless it declares an index and is in none of the parts. -/
theorem mem_arrangedTransformers :
    v ∈ arrangedTransformers pls ↔ v ∈ pls ∧ v.part ≠ .nowhere := by
  simp only [arrangedTransformers, List.mem_append, List.mem_eraseDups, mem_plsReq, mem_plsResp,
    mem_plsErr, mem_plsWithoutIndex]
  grind [NgSimplePluginWrapper.part, NgSimplePluginWrapper.declaresIndex]

/-- The transformers are in one order throughout. -/
theorem pairwise_arrangedTransformers (hpls : pls.Pairwise Earlier) :
    (arrangedTransformers pls).Pairwise Precedes := by
  have hpartReq : ∀ v ∈ plsReq pls, v.part = .request := by
    intro v hv
    exact part_eq_request_iff.mpr (mem_plsReq.mp hv).2
  have hpartResp : ∀ v ∈ newInResponse pls, v.part = .response := by
    intro v hv
    exact (mem_newInResponse.mp hv).2
  have hpartErr : ∀ v ∈ newInError pls, v.part = .error := by
    intro v hv
    exact (mem_newInError.mp hv).2
  have hpartRest : ∀ v ∈ plsWithoutIndex pls, v.part = .rest := by
    intro v hv
    exact part_eq_rest_iff.mpr (mem_plsWithoutIndex.mp hv).2
  have hreq := pairwise_precedes_of_part (fun _ => placeKey_of_request) hpartReq
    (pairwise_plsReq hpls)
  have hresp := pairwise_precedes_of_part (fun _ => placeKey_of_response) hpartResp
    ((pairwise_plsResp hpls).filter _)
  have herr := pairwise_precedes_of_part (fun _ => placeKey_of_error) hpartErr
    ((pairwise_plsErr hpls).filter _)
  have hrest := pairwise_precedes_of_part (fun _ => placeKey_of_rest) hpartRest
    ((hpls.filter _).imp fun h => Or.inr ⟨rfl, h⟩)
  rw [arrangedTransformers_eq hpls]
  apply pairwise_precedes_append _ hrest
  · intro x hx y hy
    grind [Part.rank]
  apply pairwise_precedes_append _ herr
  · intro x hx y hy
    grind [Part.rank]
  apply pairwise_precedes_append hreq hresp
  intro x hx y hy
  grind [Part.rank]

end List

end Plugins

end Otoroshi
