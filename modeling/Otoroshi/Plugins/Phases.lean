/-
# The phases transformers run in

A transformer can have a part in three phases: the request on its way to the backend, the
response on its way back, and the response to an error. Each phase runs the transformers
that say that they transform in it, in the order of the one list there is for all of them.
When plugins are merged, the ones in a row that need not wait for anything become one
plugin; it runs them as they were.

`each_once_iff` says when no slot is lost. `ordered_iff` says when the order of the list
is right for every phase: a slot that the list places by its request index has to agree in
its response index with all slots that come after it.
-/

import Otoroshi.Plugins.Transformers

namespace Otoroshi

namespace Plugins

variable {Config Index : Type}

inductive Phase
  | request
  | response
  | error
  deriving DecidableEq

def NgRequestTransformer.transforms (plugin : NgRequestTransformer) : Phase → Bool
  | .request => plugin.transformsRequest
  | .response => plugin.transformsResponse
  | .error => plugin.transformsError

/-- The index a slot declares for a phase. An error has the one of the response. -/
def NgSimplePluginWrapper.index (v : NgSimplePluginWrapper Config Index) : Phase → Option Index
  | .request => v.requestIndex
  | .response => v.responseIndex
  | .error => v.responseIndex

/-- The plugin of a slot transforms something that the slot declares an index for, or the
slot declares none. -/
def NgSimplePluginWrapper.Placed (v : NgSimplePluginWrapper Config Index) : Prop :=
  (v.requestIndex = none ∧ v.responseIndex = none) ∨
    (v.requestIndex ≠ none ∧ v.plugin.transformsRequest) ∨
    (v.responseIndex ≠ none ∧ (v.plugin.transformsResponse ∨ v.plugin.transformsError))

theorem NgSimplePluginWrapper.part_ne_nowhere_iff (v : NgSimplePluginWrapper Config Index) :
    v.part ≠ .nowhere ↔ v.Placed := by
  cases hreq : v.requestIndex <;> cases hresp : v.responseIndex <;>
    grind [part, Placed, declaresIndex, inRequestPart, inResponsePart, inErrorPart]

namespace NgSimplePluginWrapper

private theorem key_of_response (v : NgSimplePluginWrapper Config Index)
    (hv : v.part = .response) : (v.index .response).isSome ∧
      v.placeKey = (v.index .response : WithBot Index) := by
  have hin := part_eq_response_iff.mp hv
  simp only [inResponsePart, Bool.and_eq_true] at hin
  exact ⟨hin.2.1, placeKey_of_response hv⟩

private theorem key_of_error (v : NgSimplePluginWrapper Config Index)
    (hv : v.part = .error) : (v.index .error).isSome ∧
      v.placeKey = (v.index .error : WithBot Index) := by
  have hin := part_eq_error_iff.mp hv
  simp only [inErrorPart, Bool.and_eq_true] at hin
  exact ⟨hin.2.1, placeKey_of_error hv⟩

variable [LinearOrder Index]

/-- If the second declares an index for the phase, the first declares one that is not
larger, and is declared earlier if it is the same one. -/
def InOrder (phase : Phase) (x y : NgSimplePluginWrapper Config Index) : Prop :=
  ∀ j, y.index phase = some j → ∃ i, x.index phase = some i ∧ (i < j ∨ i = j ∧ x.Earlier y)

/-- The list places the first by its request index, and before the second. -/
def PlacedByRequest (x y : NgSimplePluginWrapper Config Index) : Prop :=
  x.inRequestPart ∧ (y.inRequestPart → ByKey requestKey Earlier x y)

/-- The list places both by their response indexes, and the first only because its plugin
transforms responses while the one of the second does not. -/
def PlacedByResponse (x y : NgSimplePluginWrapper Config Index) : Prop :=
  (!x.inRequestPart && x.inResponsePart) ∧ !y.inRequestPart && !y.inResponsePart && y.inErrorPart

variable {x y : NgSimplePluginWrapper Config Index}

/-- A slot that declares an index is in order before those that it comes before by it. -/
theorem inOrder_of_byKey {phase : Phase} (hx : (x.index phase).isSome)
    (h : ByKey (fun v => (v.index phase : WithBot Index)) Earlier x y) : InOrder phase x y := by
  intro j hj
  obtain ⟨i, hi⟩ := Option.isSome_iff_exists.mp hx
  use i, hi
  simp only [ByKey, hi, hj] at h
  obtain hlt | ⟨heq, hearlier⟩ := h
  · exact Or.inl (WithBot.coe_lt_coe.mp hlt)
  · exact Or.inr ⟨WithBot.coe_injective heq, hearlier⟩

theorem precedes_of_placedByRequest (h : PlacedByRequest x y) : Precedes x y := by
  obtain ⟨hx, hy⟩ := h
  have hpartx := part_eq_request_iff.mpr hx
  by_cases hplaced : y.inRequestPart = true
  · have hparty := part_eq_request_iff.mpr hplaced
    apply Or.inr
    use congrArg Part.rank (hpartx.trans hparty.symm)
    rw [ByKey, placeKey_of_request hpartx, placeKey_of_request hparty]
    exact hy hplaced
  · apply Or.inl
    have hparty := mt part_eq_request_iff.mp hplaced
    show x.part.rank < y.part.rank
    rw [hpartx]
    exact Part.rank_request_lt hparty

theorem placedByRequest_of_precedes (hx : x.part = .request) (h : Precedes x y) :
    PlacedByRequest x y := by
  constructor
  · exact part_eq_request_iff.mp hx
  · intro hplaced
    have hparty := part_eq_request_iff.mpr hplaced
    obtain hlt | ⟨-, hplace⟩ := h
    · grind [Part.rank]
    · rwa [ByKey, placeKey_of_request hx, placeKey_of_request hparty] at hplace

theorem precedes_of_placedByResponse (h : PlacedByResponse x y) : Precedes x y := by
  have hx := part_eq_response_iff.mpr h.1
  have hy := part_eq_error_iff.mpr h.2
  apply Or.inl
  show x.part.rank < y.part.rank
  rw [hx, hy]
  decide

theorem inOrder_of_part {phase : Phase} {part : Part} (h : Precedes x y) (hx : x.part = part)
    (hy : y.part = part)
    (hkey : ∀ v : NgSimplePluginWrapper Config Index, v.part = part →
      (v.index phase).isSome ∧ v.placeKey = (v.index phase : WithBot Index)) :
    InOrder phase x y := by
  have hplace := place_of_precedes h (hx.trans hy.symm)
  rw [ByKey, (hkey x hx).2, (hkey y hy).2] at hplace
  exact inOrder_of_byKey (hkey x hx).1 hplace

/-- The request index of a transformer of requests is what it is placed by. -/
theorem inOrder_request (hy : y.plugin.transformsRequest) (h : Precedes x y) :
    InOrder .request x y := by
  intro j hj
  have hparty : y.part = .request := by
    have hindex : y.requestIndex = some j := hj
    simp [part_eq_request_iff, inRequestPart, hindex, hy]
  have hpartx : x.part = .request := by
    by_contra hne
    have hlt := Part.rank_request_lt hne
    have hle := rank_le_of_precedes h
    rw [hparty] at hle
    omega
  have hkey : ∀ v : NgSimplePluginWrapper Config Index, v.part = .request →
      (v.index .request).isSome ∧ v.placeKey = (v.index .request : WithBot Index) := by
    intro v hv
    have hin := part_eq_request_iff.mp hv
    simp only [inRequestPart, Bool.and_eq_true] at hin
    exact ⟨hin.1, placeKey_of_request hv⟩
  exact inOrder_of_part h hpartx hparty hkey j hj

/-- The response index of a transformer of responses need not be what it is placed by. -/
theorem inOrder_response (hy : y.plugin.transformsResponse) (h : Precedes x y)
    (hrequest : PlacedByRequest x y → InOrder .response x y) : InOrder .response x y := by
  intro j hj
  have hle := rank_le_of_precedes h
  have hindex : y.responseIndex = some j := hj
  have hinpart : y.inResponsePart := by simp [inResponsePart, hindex, hy]
  cases hx : x.part with
  | request => exact hrequest (placedByRequest_of_precedes hx h) j hj
  | response =>
      have hparty : y.part = .response := by
        grind [part, Part.rank]
      exact inOrder_of_part h hx hparty key_of_response j hj
  | error | rest | nowhere =>
      grind [part, Part.rank]

theorem inOrder_error (hy : y.plugin.transformsError) (h : Precedes x y)
    (hrequest : PlacedByRequest x y → InOrder .error x y)
    (hresponse : PlacedByResponse x y → InOrder .error x y) : InOrder .error x y := by
  intro j hj
  have hle := rank_le_of_precedes h
  have hindex : y.responseIndex = some j := hj
  have hinpart : y.inErrorPart := by simp [inErrorPart, hindex, hy]
  cases hx : x.part with
  | request => exact hrequest (placedByRequest_of_precedes hx h) j hj
  | response =>
      by_cases hparty : y.part = .response
      · exact inOrder_of_part h hx hparty key_of_response j hj
      · have hparty' : y.part = .error := by
          grind [part, Part.rank]
        exact hresponse ⟨part_eq_response_iff.mp hx, part_eq_error_iff.mp hparty'⟩ j hj
  | error =>
      have hparty : y.part = .error := by
        grind [part, Part.rank]
      exact inOrder_of_part h hx hparty key_of_error j hj
  | rest | nowhere =>
      grind [part, Part.rank]

end NgSimplePluginWrapper

/-- The response indexes fit the places the slots have in the list. -/
structure ResponseIndexesFit [LinearOrder Index]
    (slots : List (NgSimplePluginWrapper Config Index)) : Prop where
  placedByRequest : ∀ x ∈ slots, ∀ y ∈ slots, x.PlacedByRequest y →
    (x.plugin.transformsResponse ∧ y.plugin.transformsResponse) ∨
      (x.plugin.transformsError ∧ y.plugin.transformsError) → x.InOrder .response y
  placedByResponse : ∀ x ∈ slots, ∀ y ∈ slots, x.PlacedByResponse y →
    x.plugin.transformsError → x.InOrder .error y

inductive NgPluginWrapper (Config Index : Type)
  | simple (wrapper : NgSimplePluginWrapper Config Index)
  | merged (plugins : List (NgSimplePluginWrapper Config Index))

/-- What runs when this one does. -/
def NgPluginWrapper.transformers :
    NgPluginWrapper Config Index → List (NgSimplePluginWrapper Config Index)
  | .simple wrapper => [wrapper]
  | .merged plugins => plugins

section Merge

variable (isAsync : NgRequestTransformer → Bool)

/-- The step of the `foldLeft`. The list is not empty when the latest plugin was not
async. -/
def mergeNext (state : Bool × List (NgPluginWrapper Config Index))
    (plug : NgSimplePluginWrapper Config Index) : Bool × List (NgPluginWrapper Config Index) :=
  let (latestAsync, coll) := state
  if isAsync plug.plugin then
    (true, coll ++ [.simple plug])
  else if !latestAsync then
    match coll.getLast? with
    | some (.simple wrap) => (false, coll.dropLast ++ [.merged [wrap, plug]])
    | some (.merged plugins) => (false, coll.dropLast ++ [.merged (plugins ++ [plug])])
    | none => (true, coll ++ [.simple plug])
  else
    (false, coll ++ [.simple plug])

def mergePlugins (nextPluginsMerge : Bool) (plugs : List (NgSimplePluginWrapper Config Index)) :
    List (NgPluginWrapper Config Index) :=
  if nextPluginsMerge && decide (1 < plugs.length) then
    (plugs.foldl (mergeNext isAsync) (true, [])).2
  else
    plugs.map .simple

variable {isAsync}

theorem transformers_mergeNext (state : Bool × List (NgPluginWrapper Config Index))
    (plug : NgSimplePluginWrapper Config Index) :
    (mergeNext isAsync state plug).2.flatMap NgPluginWrapper.transformers =
      state.2.flatMap NgPluginWrapper.transformers ++ [plug] := by
  obtain ⟨latestAsync, coll⟩ := state
  have hlast : ∀ last, coll.getLast? = some last →
      coll.flatMap NgPluginWrapper.transformers =
        coll.dropLast.flatMap NgPluginWrapper.transformers ++ last.transformers := by
    intro last h
    conv_lhs => rw [← List.dropLast_append_getLast? last h]
    simp
  simp only [mergeNext]
  split
  · simp [NgPluginWrapper.transformers]
  split
  · split
    · next wrap h => simp [hlast _ h, NgPluginWrapper.transformers]
    · next plugins h => simp [hlast _ h, NgPluginWrapper.transformers]
    · simp [NgPluginWrapper.transformers]
  · simp [NgPluginWrapper.transformers]

/-- Merging changes nothing in what runs, nor in its order. -/
theorem transformers_mergePlugins (nextPluginsMerge : Bool)
    (plugs : List (NgSimplePluginWrapper Config Index)) :
    (mergePlugins isAsync nextPluginsMerge plugs).flatMap NgPluginWrapper.transformers = plugs := by
  have hfold : ∀ state : Bool × List (NgPluginWrapper Config Index),
      (plugs.foldl (mergeNext isAsync) state).2.flatMap NgPluginWrapper.transformers =
        state.2.flatMap NgPluginWrapper.transformers ++ plugs := by
    induction plugs with
    | nil => simp
    | cons plug plugs ih =>
        intro state
        rw [List.foldl_cons, ih, transformers_mergeNext, List.append_assoc]
        rfl
  rw [mergePlugins]
  split
  · simpa using hfold (true, [])
  · simp [List.flatMap_map, NgPluginWrapper.transformers]

end Merge

namespace NgContextualPlugins

variable (context : NgContextualPlugins Config Index)

/-- The slots whose plugin is a request transformer. -/
def transformers : List (NgSimplePluginWrapper Config Index) :=
  context.allPlugins.filterMap fun inst => (inst.getTransformer context.env).map (⟨inst, ·⟩)

theorem pairwise_transformers :
    context.transformers.Pairwise NgSimplePluginWrapper.Earlier := by
  rw [transformers, List.pairwise_filterMap]
  apply context.pairwise_allPlugins.imp
  intro x y hxy v hv w hw
  obtain ⟨plugin, -, rfl⟩ := Option.map_eq_some_iff.mp hv
  obtain ⟨plugin', -, rfl⟩ := Option.map_eq_some_iff.mp hw
  exact hxy

variable [DecidableEq Config] [LinearOrder Index]

def transformerPlugins : List (NgSimplePluginWrapper Config Index) :=
  arrangedTransformers context.transformers

def transformerPluginsThatTransformsRequest : List (NgPluginWrapper Config Index) :=
  mergePlugins NgRequestTransformer.isTransformRequestAsync context.nextPluginsMerge
    (context.transformerPlugins.filter (·.plugin.transformsRequest))

def transformerPluginsThatTransformsResponse : List (NgPluginWrapper Config Index) :=
  mergePlugins NgRequestTransformer.isTransformResponseAsync context.nextPluginsMerge
    (context.transformerPlugins.filter (·.plugin.transformsResponse))

def transformerPluginsThatTransformsError : List (NgPluginWrapper Config Index) :=
  (context.transformerPlugins.filter (·.plugin.transformsError)).map .simple

/-- The slots that run in a phase, in the order they run in. -/
def runs : Phase → List (NgSimplePluginWrapper Config Index)
  | .request => context.transformerPluginsThatTransformsRequest.flatMap NgPluginWrapper.transformers
  | .response =>
      context.transformerPluginsThatTransformsResponse.flatMap NgPluginWrapper.transformers
  | .error => context.transformerPluginsThatTransformsError.flatMap NgPluginWrapper.transformers

variable {context} {v : NgSimplePluginWrapper Config Index}

theorem runs_eq (phase : Phase) :
    context.runs phase = context.transformerPlugins.filter (·.plugin.transforms phase) := by
  cases phase with
  | request => exact transformers_mergePlugins _ _
  | response => exact transformers_mergePlugins _ _
  | error =>
      simp [runs, transformerPluginsThatTransformsError, List.flatMap_map,
        NgPluginWrapper.transformers, NgRequestTransformer.transforms]

theorem pairwise_transformerPlugins :
    context.transformerPlugins.Pairwise NgSimplePluginWrapper.Precedes :=
  pairwise_arrangedTransformers context.pairwise_transformers

theorem mem_transformerPlugins :
    v ∈ context.transformerPlugins ↔ v ∈ context.transformers ∧ v.part ≠ .nowhere :=
  mem_arrangedTransformers

theorem nodup_transformerPlugins : context.transformerPlugins.Nodup := by
  apply pairwise_transformerPlugins.imp
  intro x y hxy heq
  exact NgSimplePluginWrapper.not_precedes_self (heq ▸ hxy)

theorem count_runs (phase : Phase) : (context.runs phase).count v =
    if v.plugin.transforms phase then context.transformerPlugins.count v else 0 := by
  rw [runs_eq]
  split
  · next h => exact List.count_filter h
  · next h => simp [List.count_eq_zero, List.mem_filter, h]

/-- Each slot with a transformer is in the list once, and runs once in the phases it
transforms in, exactly when no slot declares an index only where its plugin does
nothing. -/
theorem each_once_iff (context : NgContextualPlugins Config Index) :
    (∀ v ∈ context.transformers, context.transformerPlugins.count v = 1 ∧
      ∀ phase : Phase, (context.runs phase).count v =
        if v.plugin.transforms phase then 1 else 0) ↔
    ∀ v ∈ context.transformers, v.Placed := by
  have hcount : ∀ v ∈ context.transformers,
      context.transformerPlugins.count v = 1 ↔ v.Placed := by
    intro v hv
    rw [← v.part_ne_nowhere_iff, nodup_transformerPlugins.count]
    simp [mem_transformerPlugins, hv]
  constructor
  · intro h v hv
    exact (hcount v hv).mp (h v hv).1
  · intro h v hv
    have hone := (hcount v hv).mpr (h v hv)
    use hone
    intro phase
    rw [count_runs, hone]

theorem mem_runs {phase : Phase} : v ∈ context.runs phase ↔
    v ∈ context.transformers ∧ v.part ≠ .nowhere ∧ v.plugin.transforms phase := by
  rw [runs_eq, List.mem_filter, mem_transformerPlugins, and_assoc]

theorem pairwise_runs_iff {phase : Phase}
    {order : NgSimplePluginWrapper Config Index → NgSimplePluginWrapper Config Index → Prop} :
    (context.runs phase).Pairwise order ↔
      ∀ x ∈ context.runs phase, ∀ y ∈ context.runs phase, x.Precedes y → order x y := by
  apply pairwise_iff_of_pairwise (fun _ => NgSimplePluginWrapper.not_precedes_self)
    NgSimplePluginWrapper.precedes_asymm
  rw [runs_eq]
  exact pairwise_transformerPlugins.filter _

/-- A slot that declares an index for a phase that its plugin transforms in is not lost. -/
theorem mem_runs_of_index {phase : Phase} (hv : v ∈ context.transformers)
    (hindex : (v.index phase).isSome) (htransforms : v.plugin.transforms phase) :
    v ∈ context.runs phase := by
  have hplaced : v.part ≠ .nowhere := by
    rw [v.part_ne_nowhere_iff]
    cases phase <;>
      simp_all [NgSimplePluginWrapper.Placed, NgSimplePluginWrapper.index,
        NgRequestTransformer.transforms, Option.isSome_iff_ne_none]
  exact mem_runs.mpr ⟨hv, hplaced, htransforms⟩

/-- The slots of each phase run in the order of the index they declare for it, and the
ones that declare one first, exactly when the response indexes fit the one list of all. -/
theorem ordered_iff (context : NgContextualPlugins Config Index) :
    (∀ phase : Phase, (context.runs phase).Pairwise (NgSimplePluginWrapper.InOrder phase)) ↔
      ResponseIndexesFit context.transformers := by
  constructor
  · intro h
    constructor
    · intro x hx y hy hplaced htransform j hj
      have hindex : y.responseIndex.isSome := Option.isSome_of_eq_some hj
      have hpart : x.part ≠ .nowhere := by
        rw [NgSimplePluginWrapper.part_eq_request_iff.mpr hplaced.1]
        decide
      have hprecedes := NgSimplePluginWrapper.precedes_of_placedByRequest hplaced
      obtain ⟨hxphase, hyphase⟩ | ⟨hxphase, hyphase⟩ := htransform
      · have hxruns : x ∈ context.runs .response := mem_runs.mpr ⟨hx, hpart, hxphase⟩
        have hyruns : y ∈ context.runs .response := mem_runs_of_index hy hindex hyphase
        exact pairwise_runs_iff.mp (h .response) x hxruns y hyruns hprecedes j hj
      · have hxruns : x ∈ context.runs .error := mem_runs.mpr ⟨hx, hpart, hxphase⟩
        have hyruns : y ∈ context.runs .error := mem_runs_of_index hy hindex hyphase
        exact pairwise_runs_iff.mp (h .error) x hxruns y hyruns hprecedes j hj
    · intro x hx y hy hplaced hxphase j hj
      obtain ⟨hxindex, -⟩ :=
        NgSimplePluginWrapper.key_of_response x (NgSimplePluginWrapper.part_eq_response_iff.mpr
          hplaced.1)
      have hyphase : y.plugin.transformsError := by
        have hin := hplaced.2
        simp only [NgSimplePluginWrapper.inErrorPart, Bool.and_eq_true] at hin
        exact hin.2.2
      have hxruns : x ∈ context.runs .error := mem_runs_of_index hx hxindex hxphase
      have hyruns : y ∈ context.runs .error :=
        mem_runs_of_index hy (Option.isSome_of_eq_some hj) hyphase
      exact pairwise_runs_iff.mp (h .error) x hxruns y hyruns
        (NgSimplePluginWrapper.precedes_of_placedByResponse hplaced) j hj
  · intro h phase
    rw [pairwise_runs_iff]
    intro x hx y hy hprecedes
    obtain ⟨hx', -, hxphase⟩ := mem_runs.mp hx
    obtain ⟨hy', -, hyphase⟩ := mem_runs.mp hy
    cases phase with
    | request => exact NgSimplePluginWrapper.inOrder_request hyphase hprecedes
    | response =>
        apply NgSimplePluginWrapper.inOrder_response hyphase hprecedes
        intro hplaced
        exact h.placedByRequest x hx' y hy' hplaced (Or.inl ⟨hxphase, hyphase⟩)
    | error =>
        apply NgSimplePluginWrapper.inOrder_error hyphase hprecedes
        · intro hplaced
          exact h.placedByRequest x hx' y hy' hplaced (Or.inr ⟨hxphase, hyphase⟩)
        · intro hplaced
          exact h.placedByResponse x hx' y hy' hplaced hxphase

end NgContextualPlugins

section Examples

/-- The name of a class that transforms the headers of responses, and of one that
exchanges tokens with the backend. -/
def headersOutName : Str := "cp:otoroshi.next.plugins.AdditionalHeadersOut".toList

def challengeName : Str := "cp:otoroshi.next.plugins.OtoroshiChallenge".toList

def headersOut : NgRequestTransformer :=
  { transformsRequest := false, transformsError := false,
    isTransformRequestAsync := false, isTransformResponseAsync := false }

def challenge : NgRequestTransformer :=
  { transformsError := false, isTransformRequestAsync := false }

def exampleEnv : Env Unit Int where
  getAnyScript name :=
    if name = headersOutName then some { transformer := some headersOut }
    else if name = challengeName then some { transformer := some challenge }
    else none
  regexMatches _ _ := false

def exampleContext (plugins : List (NgPluginInstance Unit Int)) : NgContextualPlugins Unit Int where
  plugins := plugins
  request := { thePath := "/".toList }
  env := exampleEnv

/-- A response header with an index for requests only. -/
def lostSlot : NgSimplePluginWrapper Unit Int :=
  ⟨{ plugin := headersOutName, config := (),
     pluginIndex := some { transformRequest := some 1 }, instanceId := 0 }, headersOut⟩

/-- The challenge goes first in requests, and the header should go first in responses. -/
def challengeSlot : NgSimplePluginWrapper Unit Int :=
  ⟨{ plugin := challengeName, config := (),
     pluginIndex := some { transformRequest := some 0, transformResponse := some 2 },
     instanceId := 0 }, challenge⟩

def headerSlot : NgSimplePluginWrapper Unit Int :=
  ⟨{ plugin := headersOutName, config := (),
     pluginIndex := some { transformResponse := some 1 }, instanceId := 1 }, headersOut⟩

namespace NgContextualPlugins

theorem exists_slot_lost :
    ¬ ∀ context : NgContextualPlugins Unit Int, ∀ v ∈ context.transformers,
      context.transformerPlugins.count v = 1 ∧ ∀ phase : Phase, (context.runs phase).count v =
        if v.plugin.transforms phase then 1 else 0 := by
  intro h
  have hmem : lostSlot ∈ (exampleContext [lostSlot.slot]).transformers := by decide
  have hcount := (h (exampleContext [lostSlot.slot]) lostSlot hmem).1
  have hkept : lostSlot ∈ (exampleContext [lostSlot.slot]).transformerPlugins :=
    List.count_pos_iff.mp (by rw [hcount]; decide)
  exact (mem_transformerPlugins.mp hkept).2 (by decide)

theorem exists_out_of_order :
    ¬ ∀ (context : NgContextualPlugins Unit Int) (phase : Phase),
      (context.runs phase).Pairwise (NgSimplePluginWrapper.InOrder phase) := by
  intro h
  have hresponse := h (exampleContext [challengeSlot.slot, headerSlot.slot]) .response
  rw [pairwise_runs_iff] at hresponse
  have hchallenge : challengeSlot ∈
      (exampleContext [challengeSlot.slot, headerSlot.slot]).runs .response :=
    mem_runs.mpr (by decide)
  have hheader : headerSlot ∈
      (exampleContext [challengeSlot.slot, headerSlot.slot]).runs .response :=
    mem_runs.mpr (by decide)
  have hprecedes : challengeSlot.Precedes headerSlot := Or.inl (by decide)
  obtain ⟨i, hi, hle⟩ := hresponse _ hchallenge _ hheader hprecedes 1 rfl
  obtain rfl : 2 = i := Option.some_injective _ hi
  simp [headerSlot] at hle

end NgContextualPlugins

end Examples

end Plugins

end Otoroshi
