/-
# Nodes over collections

Four nodes run a body for one item after the other, with the item in memory, until the body
answers with an error. What they make of the answers is their own: `foreach` and `map` keep
them, `flatmap` puts the arrays among them together, and `filter` chooses among the items.

The items come out of a stream that runs one body at a time and stops after an error. Whether
it has already started the next item then is open, so the runs say which items were started.

`computes_iff` says when a node computes what it is there for.
-/

import Otoroshi.Foundation.Stateful
import Otoroshi.Workflows.Nodes

namespace Otoroshi

namespace Workflows

/-- The items of a stream with what the body answered, up to the first error. -/
structure Streamed (Item : Type) where
  results : List (Item × Except WorkflowError JsValue)
  memory : Memory
  log : List LogItem
  started : List Nat

/-- `Source(..).mapAsync(1)(..).takeWhile(_.isRight, inclusive = true)`. With `ahead` the
item after one that failed is started before the stream has stopped. -/
def stream {Item : Type} (ahead : Bool) (enter : Item → Memory → Memory)
    (leave : Memory → Memory) (node : Runner) (path : List Nat) :
    List Item → Nat → Memory → Streamed Item
  | [], _, memory => ⟨[], memory, [], []⟩
  | item :: items, idx, memory =>
      let ran := node (path ++ [idx]) [] (enter item memory)
      match ran.result with
      | .error err =>
          ⟨[(item, .error err)], leave ran.memory, ran.log,
            idx :: if ahead && !items.isEmpty then [idx + 1] else []⟩
      | .ok res =>
          let rest := stream ahead enter leave node path items (idx + 1) (leave ran.memory)
          ⟨(item, .ok res) :: rest.results, rest.memory, ran.log ++ rest.log,
            idx :: rest.started⟩

/-- The values among the answers: `seq.collect { case Right(v) => v }`. -/
def values {Item : Type} (results : List (Item × Except WorkflowError JsValue)) : List JsValue :=
  results.filterMap fun result => result.2.toOption

/-- The error that the last answer is, if it is one. -/
def lastError {Item : Type} (results : List (Item × Except WorkflowError JsValue)) :
    Option WorkflowError :=
  results.getLast?.bind fun result => result.2.casesOn some fun _ => none

/-- What a stream answers: nothing but an empty array if there was no item, the error that it
stopped at, or an array that is also set in memory, under the destination of the node. -/
def Streamed.ended {Item : Type} (streamed : Streamed Item) (destination : Option Str)
    (array : List JsValue) : Ran Ended :=
  if streamed.results = [] then ⟨.right (.array []), streamed.memory, streamed.log⟩
  else match lastError streamed.results with
    | some err => ⟨.left err, streamed.memory, streamed.log⟩
    | none => ⟨.right (.array array), match destination with
        | none => streamed.memory
        | some name => streamed.memory.set name (.array array), streamed.log⟩

def foreachValue : Str := "foreach_value".toList

def foreachKey : Str := "foreach_key".toList

/-- The items of an array, in memory while the body runs. -/
def streamArray (ahead : Bool) (node : Runner) (path : List Nat) (items : List JsValue)
    (memory : Memory) : Streamed JsValue :=
  stream ahead (fun item memory => memory.set foreachValue item)
    (fun memory => memory.remove foreachValue) node path items 0 memory

def streamObject (ahead : Bool) (node : Runner) (path : List Nat) (fields : List (Str × JsValue))
    (memory : Memory) : Streamed (Str × JsValue) :=
  stream ahead
    (fun field memory => (memory.set foreachKey (.string field.1)).set foreachValue field.2)
    (fun memory => (memory.remove foreachKey).remove foreachValue) node path fields 0 memory

variable (E : WorkflowEnv)

/-- The frame that the four nodes have in common: they cannot be resumed, and their values are
processed first. -/
def overValues (kind : String) (info : NodeInfo) (values : Option JsValue)
    (run : JsValue → Memory → Ran Ended) (path fromPath : List Nat) (memory : Memory) : Ran Ended :=
  match fromPath with
  | _ :: _ =>
      let err : WorkflowError := {
        message := kind.toList ++ " Node (".toList ++ pathText path ++
          ") does not support resume: ".toList ++ pathText fromPath
        nodeId := some info.id }
      ⟨.left err, memory, []⟩
  | [] =>
      match values.bind fun json => E.processOperators json memory with
      | none => ⟨.thrown, memory, []⟩
      | some processed => run processed memory

/-- `ForEachNode.run`. -/
def ForEachNode.run (ahead : Bool) (info : NodeInfo) (json : Option JsValue) (node : Runner)
    (path fromPath : List Nat) (memory : Memory) : Ran Ended :=
  overValues E "ForEach" info json (fun processed memory =>
    match processed with
    | .object fields =>
        let streamed := streamObject ahead node path fields memory
        streamed.ended none (values streamed.results)
    | .array items =>
        let streamed := streamArray ahead node path items memory
        streamed.ended none (values streamed.results)
    | _ => ⟨.right .null, memory, []⟩) path fromPath memory

/-- The frame of the three nodes that only take arrays. -/
def overArray (kind : String) (ahead : Bool) (info : NodeInfo) (json : Option JsValue)
    (node : Runner) (destination : Option Str)
    (array : List (JsValue × Except WorkflowError JsValue) → List JsValue)
    (path fromPath : List Nat) (memory : Memory) : Ran Ended :=
  overValues E kind info json (fun processed memory =>
    match processed with
    | .array items =>
        let streamed := streamArray ahead node path items memory
        streamed.ended destination (array streamed.results)
    | _ => ⟨.right .null, memory, []⟩) path fromPath memory

/-- `MapNode.run`. -/
def MapNode.run (ahead : Bool) (info : NodeInfo) (json : Option JsValue) (node : Runner)
    (destination : Option Str) : List Nat → List Nat → Memory → Ran Ended :=
  overArray E "Map" ahead info json node destination values

/-- The items of an array. -/
def arrayItems : JsValue → List JsValue
  | .array items => items
  | _ => []

/-- `FlatMapNode.run`. An answer that is no array is left out. -/
def FlatMapNode.run (ahead : Bool) (info : NodeInfo) (json : Option JsValue) (node : Runner)
    (destination : Option Str) : List Nat → List Nat → Memory → Ran Ended :=
  overArray E "FlatMap" ahead info json node destination fun results =>
    (values results).flatMap arrayItems

/-- The value is the boolean. -/
def JsValue.isBool (json : JsValue) (wanted : Bool) : Bool :=
  match json with
  | .bool value => value == wanted
  | _ => false

/-- `collect { case (JsBoolean(v), Right(e)) => (v, e) }`, and those with the right `v`. -/
def FilterNode.chosen (not : Bool) (results : List (JsValue × Except WorkflowError JsValue)) :
    List JsValue :=
  results.filterMap fun result =>
    if JsValue.isBool result.1 (!not) then result.2.toOption else none

/-- `FilterNode.run`. -/
def FilterNode.run (ahead : Bool) (info : NodeInfo) (json : Option JsValue) (node : Runner)
    (not : Bool) (destination : Option Str) : List Nat → List Nat → Memory → Ran Ended :=
  overArray E "Filter" ahead info json node destination (FilterNode.chosen not)

/-! ## What the nodes are there for -/

/-- The four kinds of nodes. -/
inductive CollectionKind
  | foreach
  | map
  | flatmap
  | filter (not : Bool)

namespace CollectionKind

/-- The node of a kind, with the memory that it stores the array in. -/
def run (ahead : Bool) (info : NodeInfo) (json : Option JsValue) (node : Runner)
    (destination : Option Str) : CollectionKind → List Nat → List Nat → Memory → Ran Ended
  | foreach => ForEachNode.run E ahead info json node
  | map => MapNode.run E ahead info json node destination
  | flatmap => FlatMapNode.run E ahead info json node destination
  | filter not => FilterNode.run E ahead info json node not destination

/-- The collection function: the answers, one for each item, their concatenation, or the items
for which the answer is `true` (`false` with `not`). -/
def compute : CollectionKind → List (JsValue × JsValue) → List JsValue
  | foreach, answers => answers.map Prod.snd
  | map, answers => answers.map Prod.snd
  | flatmap, answers => answers.flatMap fun answer => arrayItems answer.2
  | filter not, answers => (answers.filter fun answer => JsValue.isBool answer.2 (!not)).map Prod.fst

/-- The node stores its array. -/
def stores : CollectionKind → Bool
  | foreach => false
  | _ => true

/-- The answers of the body, in order, if it never answers an error, and the first error
otherwise, with the number of items before it. -/
def bodyAnswers (node : Runner) (path : List Nat) : List JsValue → Nat → Memory →
    Except (WorkflowError × Nat) (List (JsValue × JsValue))
  | [], _, _ => .ok []
  | item :: items, idx, memory =>
      let ran := node (path ++ [idx]) [] (memory.set foreachValue item)
      match ran.result with
      | .error err => .error (err, idx)
      | .ok res => (bodyAnswers node path items (idx + 1) (ran.memory.remove foreachValue)).map
          ((item, res) :: ·)

/-- The node does what it is there for on the items: if the body answers an error, the node
answers the first one and starts no later item, and otherwise it answers what the collection
function gives, and has stored it. -/
def Computes (ahead : Bool) (info : NodeInfo) (json : Option JsValue) (node : Runner)
    (destination : Option Str) (kind : CollectionKind) (path : List Nat) (items : List JsValue)
    (memory : Memory) : Prop :=
  let ran := kind.run E ahead info json node destination path [] memory
  match bodyAnswers node path items 0 memory with
  | .error (err, idx) =>
      ran.result = .left err ∧
        (streamArray ahead node path items memory).started = List.range (idx + 1)
  | .ok answers =>
      ran.result = .right (.array (kind.compute answers)) ∧
        (streamArray ahead node path items memory).started = List.range items.length ∧
        (kind.stores = true → ∀ name ∈ destination,
          ran.memory name = some (.array (kind.compute answers)))

/-- What the kinds ask for: no item but the last one fails where the stream starts items
ahead; a destination already has the empty array if there are no items; and the answers of a
filter for the items that are the wanted boolean are the items whose answer is that boolean. -/
def Suits (ahead : Bool) (node : Runner) (destination : Option Str) (kind : CollectionKind)
    (path : List Nat) (items : List JsValue) (memory : Memory) : Prop :=
  match bodyAnswers node path items 0 memory with
  | .error (_, idx) => ahead = true → idx + 1 = items.length
  | .ok answers =>
      (kind.stores = true → items = [] → ∀ name ∈ destination, memory name = some (.array [])) ∧
        ∀ not, kind = filter not →
          (answers.filter fun answer => JsValue.isBool answer.1 (!not)).map Prod.snd =
            (answers.filter fun answer => JsValue.isBool answer.2 (!not)).map Prod.fst

/-! ## The stream and the answers of the body -/

variable {E} {ahead : Bool} {node : Runner} {path : List Nat} {items : List JsValue}
  {memory : Memory}

/-- A stream over an array, from one of its items on. -/
def streamFrom (ahead : Bool) (node : Runner) (path : List Nat) (items : List JsValue) (idx : Nat)
    (memory : Memory) : Streamed JsValue :=
  stream ahead (fun item memory => memory.set foreachValue item)
    (fun memory => memory.remove foreachValue) node path items idx memory

theorem streamFrom_cons_of_error (ahead : Bool) (items : List JsValue) {item : JsValue} {idx : Nat}
    {err : WorkflowError}
    (h : (node (path ++ [idx]) [] (memory.set foreachValue item)).result = .error err) :
    (streamFrom ahead node path (item :: items) idx memory).results = [(item, .error err)] ∧
      (streamFrom ahead node path (item :: items) idx memory).started =
        idx :: if ahead && !items.isEmpty then [idx + 1] else [] := by
  rw [streamFrom, stream]
  simp only [h, and_self]

theorem streamFrom_cons_of_ok (ahead : Bool) (items : List JsValue) {item res : JsValue} {idx : Nat}
    (h : (node (path ++ [idx]) [] (memory.set foreachValue item)).result = .ok res) :
    (streamFrom ahead node path (item :: items) idx memory).results =
        (item, .ok res) :: (streamFrom ahead node path items (idx + 1)
          ((node (path ++ [idx]) [] (memory.set foreachValue item)).memory.remove
            foreachValue)).results ∧
      (streamFrom ahead node path (item :: items) idx memory).started =
        idx :: (streamFrom ahead node path items (idx + 1)
          ((node (path ++ [idx]) [] (memory.set foreachValue item)).memory.remove
            foreachValue)).started := by
  rw [streamFrom, stream]
  simp only [h]
  exact ⟨rfl, rfl⟩

theorem bodyAnswers_cons_of_error {item : JsValue} {idx : Nat} {err : WorkflowError}
    (h : (node (path ++ [idx]) [] (memory.set foreachValue item)).result = .error err) :
    bodyAnswers node path (item :: items) idx memory = .error (err, idx) := by
  rw [bodyAnswers]
  simp only [h]

theorem bodyAnswers_cons_of_ok {item res : JsValue} {idx : Nat}
    (h : (node (path ++ [idx]) [] (memory.set foreachValue item)).result = .ok res) :
    bodyAnswers node path (item :: items) idx memory =
      (bodyAnswers node path items (idx + 1)
        ((node (path ++ [idx]) [] (memory.set foreachValue item)).memory.remove
          foreachValue)).map ((item, res) :: ·) := by
  rw [bodyAnswers]
  simp only [h]

/-- Where the body never answers an error, the stream has all its answers. -/
theorem streamFrom_of_ok {idx : Nat} {answers : List (JsValue × JsValue)}
    (h : bodyAnswers node path items idx memory = .ok answers) :
    (streamFrom ahead node path items idx memory).results =
        answers.map (fun answer => (answer.1, .ok answer.2)) ∧
      (streamFrom ahead node path items idx memory).started = List.range' idx items.length := by
  induction items generalizing idx memory answers with
  | nil =>
      cases h
      exact ⟨rfl, rfl⟩
  | cons item items ih =>
      cases hresult : (node (path ++ [idx]) [] (memory.set foreachValue item)).result with
      | error err =>
          rw [bodyAnswers_cons_of_error hresult] at h
          cases h
      | ok res =>
          rw [bodyAnswers_cons_of_ok hresult, map_eq_ok_iff] at h
          obtain ⟨rest, hrest, rfl⟩ := h
          obtain ⟨hresults, hstarted⟩ := streamFrom_cons_of_ok ahead items hresult
          obtain ⟨ihresults, ihstarted⟩ := ih hrest
          rw [hresults, hstarted, ihresults, ihstarted]
          exact ⟨rfl, rfl⟩

/-- Where the body answers an error, the stream stops there. -/
theorem streamFrom_of_error {idx failed : Nat} {err : WorkflowError}
    (h : bodyAnswers node path items idx memory = .error (err, failed)) :
    (∃ item, (streamFrom ahead node path items idx memory).results.getLast? =
        some (item, .error err)) ∧
      idx ≤ failed ∧ failed < idx + items.length ∧
      (streamFrom ahead node path items idx memory).started =
        List.range' idx (failed + 1 - idx) ++
          if ahead = true ∧ failed + 1 < idx + items.length then [failed + 1] else [] := by
  induction items generalizing idx memory with
  | nil => cases h
  | cons item items ih =>
      cases hresult : (node (path ++ [idx]) [] (memory.set foreachValue item)).result with
      | error err =>
          rw [bodyAnswers_cons_of_error hresult] at h
          cases h
          obtain ⟨hresults, hstarted⟩ := streamFrom_cons_of_error ahead items hresult
          rw [hresults, hstarted]
          refine ⟨⟨item, rfl⟩, le_rfl, by simp, ?_⟩
          rw [Nat.add_sub_cancel_left, List.range'_one]
          cases items <;> cases ahead <;> simp
      | ok res =>
          rw [bodyAnswers_cons_of_ok hresult] at h
          obtain ⟨hresults, hstarted⟩ := streamFrom_cons_of_ok ahead items hresult
          cases hrest : bodyAnswers node path items (idx + 1)
              ((node (path ++ [idx]) [] (memory.set foreachValue item)).memory.remove
                foreachValue) with
          | ok rest =>
              rw [hrest] at h
              cases h
          | error stopped =>
              rw [hrest] at h
              cases h
              obtain ⟨⟨last, hlast⟩, hle, hlt, hlater⟩ := ih hrest
              rw [hresults, hstarted, hlater]
              refine ⟨⟨last, ?_⟩, by omega, by rw [List.length_cons]; omega, ?_⟩
              · rw [List.getLast?_cons, hlast]
                rfl
              · have hlength : failed + 1 - idx = failed + 1 - (idx + 1) + 1 := by omega
                rw [hlength, List.range'_succ, List.length_cons, List.cons_append,
                  show idx + 1 + items.length = idx + (items.length + 1) by omega]

theorem lastError_of_ok {answers : List (JsValue × JsValue)} :
    lastError (answers.map fun answer => (answer.1, (.ok answer.2 : Except WorkflowError JsValue)))
      = none := by
  rw [lastError, List.getLast?_map]
  cases answers.getLast? <;> rfl

/-- What a node makes of a stream without an error. -/
theorem ended_of_ok {streamed : Streamed JsValue} {answers : List (JsValue × JsValue)}
    (h : streamed.results = answers.map fun answer => (answer.1, .ok answer.2))
    (destination : Option Str) (array : List JsValue) :
    (streamed.ended destination array).result =
        .right (.array (if answers = [] then [] else array)) ∧
      ∀ name ∈ destination, (streamed.ended destination array).memory name =
        if answers = [] then streamed.memory name else some (.array array) := by
  cases answers with
  | nil =>
      rw [List.map_nil] at h
      simp only [Streamed.ended, if_pos h]
      exact ⟨rfl, fun _ _ => rfl⟩
  | cons answer answers =>
      have hne : streamed.results ≠ [] := by
        rw [h]
        exact List.cons_ne_nil _ _
      have hlast : lastError streamed.results = none := by
        rw [h, lastError_of_ok]
      simp only [Streamed.ended, if_neg hne, hlast]
      refine ⟨rfl, ?_⟩
      intro name hname
      cases hname
      exact Function.update_self ..

/-- What a node makes of a stream that has stopped at an error. -/
theorem ended_of_error {streamed : Streamed JsValue} {item : JsValue} {err : WorkflowError}
    (h : streamed.results.getLast? = some (item, .error err)) (destination : Option Str)
    (array : List JsValue) : (streamed.ended destination array).result = .left err := by
  have hne : streamed.results ≠ [] := by
    intro hnil
    rw [hnil] at h
    cases h
  have hlast : lastError streamed.results = some err := by
    rw [lastError, h]
    rfl
  simp only [Streamed.ended, if_neg hne, hlast]

/-- The memory in which a node stores its array. -/
def stored (kind : CollectionKind) (destination : Option Str) : Option Str :=
  if kind.stores then destination else none

/-- What a node makes of the answers. -/
def array (kind : CollectionKind) (results : List (JsValue × Except WorkflowError JsValue)) :
    List JsValue :=
  match kind with
  | foreach => values results
  | map => values results
  | flatmap => (values results).flatMap arrayItems
  | filter not => FilterNode.chosen not results

theorem run_of_array {info : NodeInfo} {json : Option JsValue}
    (hvalues : (json.bind fun json => E.processOperators json memory) = some (.array items))
    (destination : Option Str) (kind : CollectionKind) :
    kind.run E ahead info json node destination path [] memory =
      (streamArray ahead node path items memory).ended (kind.stored destination)
        (kind.array (streamArray ahead node path items memory).results) := by
  cases kind <;>
    simp only [run, ForEachNode.run, MapNode.run, FlatMapNode.run, FilterNode.run, overArray,
      overValues, hvalues] <;> rfl

theorem values_of_ok (answers : List (JsValue × JsValue)) :
    values (answers.map fun answer => (answer.1, (.ok answer.2 : Except WorkflowError JsValue))) =
      answers.map Prod.snd := by
  rw [values, List.filterMap_map]
  exact List.filterMap_eq_map ▸ rfl

theorem chosen_of_ok (not : Bool) (answers : List (JsValue × JsValue)) :
    FilterNode.chosen not
        (answers.map fun answer => (answer.1, (.ok answer.2 : Except WorkflowError JsValue))) =
      (answers.filter fun answer => JsValue.isBool answer.1 (!not)).map Prod.snd := by
  induction answers with
  | nil => rfl
  | cons answer answers ih =>
      rw [FilterNode.chosen] at ih ⊢
      rw [List.map_cons, List.filterMap_cons, ih, List.filter_cons]
      cases JsValue.isBool answer.1 (!not) <;> rfl

/-- What the nodes make of the answers is their collection function, but for `filter`. -/
theorem array_eq_compute_iff (kind : CollectionKind) (answers : List (JsValue × JsValue)) :
    kind.array (answers.map fun answer => (answer.1, .ok answer.2)) = kind.compute answers ↔
      ∀ not, kind = filter not →
        (answers.filter fun answer => JsValue.isBool answer.1 (!not)).map Prod.snd =
          (answers.filter fun answer => JsValue.isBool answer.2 (!not)).map Prod.fst := by
  cases kind with
  | foreach => exact iff_of_true (values_of_ok answers) nofun
  | map => exact iff_of_true (values_of_ok answers) nofun
  | flatmap =>
      refine iff_of_true ?_ nofun
      rw [array, values_of_ok, compute, List.flatMap_map]
  | filter not =>
      rw [array, chosen_of_ok, compute]
      constructor
      · intro h other hother
        cases hother
        exact h
      · intro h
        exact h not rfl

theorem answers_eq_nil_iff {idx : Nat} {answers : List (JsValue × JsValue)}
    (h : bodyAnswers node path items idx memory = .ok answers) : answers = [] ↔ items = [] := by
  cases items with
  | nil =>
      cases h
      exact iff_of_true rfl rfl
  | cons item items =>
      cases hresult : (node (path ++ [idx]) [] (memory.set foreachValue item)).result with
      | error err =>
          rw [bodyAnswers_cons_of_error hresult] at h
          cases h
      | ok res =>
          rw [bodyAnswers_cons_of_ok hresult, map_eq_ok_iff] at h
          obtain ⟨rest, -, rfl⟩ := h
          exact iff_of_false (List.cons_ne_nil _ _) (List.cons_ne_nil _ _)

end CollectionKind

open CollectionKind

/-- A node computes its collection function exactly if its kind gets what it asks for. -/
theorem computes_iff (E : WorkflowEnv) (ahead : Bool) (info : NodeInfo) (json : Option JsValue)
    (node : Runner) (destination : Option Str) (kind : CollectionKind) (path : List Nat)
    (items : List JsValue) (memory : Memory)
    (hvalues : (json.bind fun json => E.processOperators json memory) = some (.array items)) :
    Computes E ahead info json node destination kind path items memory ↔
      Suits ahead node destination kind path items memory := by
  rw [Computes, Suits, run_of_array hvalues]
  cases hanswers : bodyAnswers node path items 0 memory with
  | error stopped =>
      obtain ⟨err, failed⟩ := stopped
      obtain ⟨⟨item, hlast⟩, -, hlt, hstarted⟩ := 
        @streamFrom_of_error ahead node path items memory 0 failed err hanswers
      have hresult := ended_of_error hlast (kind.stored destination)
        (kind.array (streamArray ahead node path items memory).results)
      show _ ∧ (streamFrom ahead node path items 0 memory).started = _ ↔ _
      rw [hstarted, Nat.sub_zero, Nat.zero_add, ← List.range_eq_range']
      constructor
      · rintro ⟨-, hnext⟩ hahead
        by_contra hlength
        rw [if_pos ⟨hahead, by omega⟩] at hnext
        have hlonger := congrArg List.length hnext
        rw [List.length_append, List.length_singleton] at hlonger
        omega
      · intro hlength
        refine ⟨hresult, ?_⟩
        rw [if_neg (fun h => by have := hlength h.1; omega), List.append_nil]
  | ok answers =>
      obtain ⟨hresults, hstarted⟩ := @streamFrom_of_ok ahead node path items memory 0 answers hanswers
      obtain ⟨hresult, hmemory⟩ := ended_of_ok hresults (kind.stored destination)
        (kind.array (streamArray ahead node path items memory).results)
      have hstored : ∀ name, kind.stores = true ∧ name ∈ destination →
          name ∈ kind.stored destination := by
        rintro name ⟨hstores, hname⟩
        rwa [CollectionKind.stored, if_pos hstores]
      have hrange : (streamArray ahead node path items memory).started =
          List.range items.length := hstarted.trans (List.range_eq_range' ..).symm
      by_cases hitems : items = []
      · subst hitems
        cases hanswers
        have hcompute : kind.compute [] = [] := by cases kind <;> rfl
        simp only [hcompute]
        constructor
        · rintro ⟨-, -, hdestination⟩
          refine ⟨fun hstores _ name hname => ?_, fun _ _ => rfl⟩
          exact (hmemory name (hstored name ⟨hstores, hname⟩)).symm.trans
            (hdestination hstores name hname)
        · rintro ⟨hdestination, -⟩
          refine ⟨hresult, hrange, fun hstores name hname => ?_⟩
          exact (hmemory name (hstored name ⟨hstores, hname⟩)).trans
            (hdestination hstores trivial name hname)
      · have hne : answers ≠ [] := fun hnil => hitems ((answers_eq_nil_iff hanswers).mp hnil)
        have harray := array_eq_compute_iff kind answers
        rw [← hresults] at harray
        dsimp only
        rw [← harray]
        simp only [if_neg hne] at hresult hmemory
        constructor
        · rintro ⟨hright, -, -⟩
          refine ⟨fun _ hnil => absurd hnil hitems, ?_⟩
          have hsame := hresult.symm.trans hright
          injection hsame with hsame
          injection hsame
        · rintro ⟨-, hsame⟩
          refine ⟨hresult.trans (congrArg (Ended.right ∘ JsValue.array) hsame), hrange, ?_⟩
          intro hstores name hname
          exact (hmemory name (hstored name ⟨hstores, hname⟩)).trans
            (congrArg (some ∘ JsValue.array) hsame)

section Examples

/-- A body that answers `true` for every item. -/
def answersTrue : Runner := fun _ _ memory => ⟨.ok (.bool true), memory, []⟩

theorem computes_iff_example :
    Computes plainEnv true { id := "map".toList } (some (.array [.null, .bool false])) answersTrue
      (some "all".toList) .map [0] [.null, .bool false] (fun _ => none) := by
  rw [computes_iff plainEnv true _ _ answersTrue _ .map [0] [.null, .bool false] _ rfl]
  refine ⟨fun _ hnil => absurd hnil (List.cons_ne_nil _ _), nofun⟩

/-- A filter that keeps every item leaves out those that are not `true` themselves. -/
theorem exists_not_computes :
    ¬ ∀ (E : WorkflowEnv) (ahead : Bool) (info : NodeInfo) (json : Option JsValue) (node : Runner)
      (destination : Option Str) (kind : CollectionKind) (path : List Nat) (items : List JsValue)
      (memory : Memory),
        (json.bind fun json => E.processOperators json memory) = some (.array items) →
          Computes E ahead info json node destination kind path items memory := by
  intro h
  obtain ⟨hresult, -, -⟩ := h plainEnv false { id := "filter".toList } (some (.array [.null]))
    answersTrue none (.filter false) [0] [.null] (fun _ => none) rfl
  have hempty : (Ended.right (.array []) : Ended) = .right (.array [.null]) := hresult
  injection hempty with hempty
  injection hempty with hempty
  cases hempty

end Examples

end Workflows

end Otoroshi
