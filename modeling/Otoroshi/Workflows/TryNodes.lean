/-
# Try nodes

A try node runs a node, its catch node when that fails, and its finally node after both. All of them
work on one memory, where the catch node finds the error under the name `caught_error`, the same for
every try. `internalRun` starts a node, which goes on when the executor comes to it; only a node
that is switched off, or that throws at once, is done when `internalRun` returns.

The catch node is waited for and the finally node is not. `Step` is one move of a try node and of
whatever else goes on, in any order. `correct_of_run` is about every run in which nobody else writes
the name of the caught error and the finally node has nothing to wait for. `exists_run_not_waited`
says that every other finally node can be overtaken.
-/

import Mathlib.Logic.Relation
import Otoroshi.Workflows.Nodes

namespace Otoroshi

namespace Workflows

/-- `WorkflowError.json`, without the text of an exception. -/
def WorkflowError.json (err : WorkflowError) : JsValue := Json.obj [
  ("nodeId", Json.orNull .string err.nodeId),
  ("message", .string err.message),
  ("details", err.details.getD .null),
  ("exception", .null)]

/-- What a node does to the memory at one time. -/
abbrev Act := Memory → Memory

/-- A node in one of its runs: what it does before its `run` returns, what it does later, and how it
ends. -/
structure Child where
  info : NodeInfo
  atOnce : List Act := []
  later : List Act := []
  ended : Ended

def Ended.isThrown : Ended → Bool
  | .thrown => true
  | _ => false

namespace Child

variable (child : Child)

/-- What is done until the node ends. -/
def acts : List Act := if child.ended.isThrown then child.atOnce else child.atOnce ++ child.later

/-- Its future is complete when `internalRun` returns. -/
def DoneAtOnce : Prop := child.info.enabled = false ∨ child.ended.isThrown = true

end Child

/-- A try node, with the children it runs. -/
structure TryNode where
  info : NodeInfo
  node : Child
  catchNode : Child
  finallyNode : Option Child

namespace TryNode

/-- The name under which the catch node finds the error. -/
def caughtError : Str := "caught_error".toList

/-- What is started and what has ended, in order. -/
inductive Event
  | nodeStarted
  | nodeEnded (result : Except WorkflowError JsValue)
  | catchStarted
  | catchEnded (result : Except WorkflowError JsValue)
  | finallyStarted
  | finallyEnded
  | tryEnded (result : Except WorkflowError JsValue)
  | nextStarted

/-- How far the run of a try node is. -/
inductive Phase
  | ready
  | inNode (acts : List Act)
  | afterNode (result : Except WorkflowError JsValue)
  | inCatch (err : WorkflowError) (acts : List Act)
  | afterCatch (err : WorkflowError) (result : Except WorkflowError JsValue)
  | settled (result : Except WorkflowError JsValue)
  | inFinally (finallyNode : Child) (acts : List Act) (result : Except WorkflowError JsValue)
  | ended (result : Except WorkflowError JsValue)
  | following

/-- The phase, the finally node while it goes on by itself, the memory and what happened. -/
structure State where
  phase : Phase
  pending : Option (Child × List Act) := none
  memory : Memory
  events : List Event := []

variable (E : WorkflowEnv) (T : TryNode) (path fromPath : List Nat)

/-- What a child leaves at its end. -/
def finish (child : Child) (idx : Nat) (memory : Memory) : Ran (Except WorkflowError JsValue) :=
  child.info.finish E (path ++ [idx]) memory child.ended

/-- A try node is not resumed at one of its later children. -/
def cannotResume : WorkflowError :=
  Workflows.cannotResume "Try" T.info path fromPath

/-- One move. `others` are the acts of nodes that were started before and are not waited for. -/
inductive Step (others : Act → Prop) : State → State → Prop
  | refuse {pending memory events} (h : 0 < fromPath.headD 0) :
      Step others ⟨.ready, pending, memory, events⟩
        ⟨.ended (.error (cannotResume T path fromPath)), pending, memory,
          events ++ [.tryEnded (.error (cannotResume T path fromPath))]⟩
  | start {pending memory events} (h : fromPath.headD 0 = 0) (henabled : T.node.info.enabled = true) :
      Step others ⟨.ready, pending, memory, events⟩
        ⟨.inNode T.node.acts, pending, memory, events ++ [.nodeStarted]⟩
  | skip {pending memory events} (h : fromPath.headD 0 = 0) (henabled : T.node.info.enabled = false) :
      Step others ⟨.ready, pending, memory, events⟩
        ⟨.afterNode (.ok .null), pending, memory,
          events ++ [.nodeStarted, .nodeEnded (.ok .null)]⟩
  | act {act acts pending memory events} :
      Step others ⟨.inNode (act :: acts), pending, memory, events⟩
        ⟨.inNode acts, pending, act memory, events⟩
  | endNode {pending memory events} :
      Step others ⟨.inNode [], pending, memory, events⟩
        ⟨.afterNode (finish E path T.node 0 memory).result, pending,
          (finish E path T.node 0 memory).memory,
          events ++ [.nodeEnded (finish E path T.node 0 memory).result]⟩
  | succeed {res pending memory events} :
      Step others ⟨.afterNode (.ok res), pending, memory, events⟩
        ⟨.settled (.ok res), pending, memory, events⟩
  | runCatch {err pending memory events} (henabled : T.catchNode.info.enabled = true) :
      Step others ⟨.afterNode (.error err), pending, memory, events⟩
        ⟨.inCatch err T.catchNode.acts, pending, memory.set caughtError err.json,
          events ++ [.catchStarted]⟩
  | skipCatch {err pending memory events} (henabled : T.catchNode.info.enabled = false) :
      Step others ⟨.afterNode (.error err), pending, memory, events⟩
        ⟨.afterCatch err (.ok .null), pending, memory.set caughtError err.json,
          events ++ [.catchStarted, .catchEnded (.ok .null)]⟩
  | actCatch {err act acts pending memory events} :
      Step others ⟨.inCatch err (act :: acts), pending, memory, events⟩
        ⟨.inCatch err acts, pending, act memory, events⟩
  | endCatch {err pending memory events} :
      Step others ⟨.inCatch err [], pending, memory, events⟩
        ⟨.afterCatch err (finish E path T.catchNode 1 memory).result, pending,
          (finish E path T.catchNode 1 memory).memory,
          events ++ [.catchEnded (finish E path T.catchNode 1 memory).result]⟩
  | settle {err result pending memory events} :
      Step others ⟨.afterCatch err result, pending, memory, events⟩
        ⟨.settled result, pending, memory.remove caughtError, events⟩
  | endWithout {result pending memory events} (h : T.finallyNode = none) :
      Step others ⟨.settled result, pending, memory, events⟩
        ⟨.ended result, pending, memory, events ++ [.tryEnded result]⟩
  | runFinally {child result pending memory events} (h : T.finallyNode = some child)
      (henabled : child.info.enabled = true) :
      Step others ⟨.settled result, pending, memory, events⟩
        ⟨.inFinally child child.atOnce result, pending, memory, events ++ [.finallyStarted]⟩
  | skipFinally {child result pending memory events} (h : T.finallyNode = some child)
      (henabled : child.info.enabled = false) :
      Step others ⟨.settled result, pending, memory, events⟩
        ⟨.ended result, pending, memory,
          events ++ [.finallyStarted, .finallyEnded, .tryEnded result]⟩
  | actFinally {child act acts result pending memory events} :
      Step others ⟨.inFinally child (act :: acts) result, pending, memory, events⟩
        ⟨.inFinally child acts result, pending, act memory, events⟩
  | throwFinally {child result pending memory events} (h : child.ended.isThrown = true) :
      Step others ⟨.inFinally child [] result, pending, memory, events⟩
        ⟨.ended result, pending, (finish E path child 2 memory).memory,
          events ++ [.finallyEnded, .tryEnded result]⟩
  -- the future of the finally node is dropped
  | leaveFinally {child result pending memory events} (h : child.ended.isThrown = false) :
      Step others ⟨.inFinally child [] result, pending, memory, events⟩
        ⟨.ended result, some (child, child.later), memory, events ++ [.tryEnded result]⟩
  | actPending {phase child act acts memory events} :
      Step others ⟨phase, some (child, act :: acts), memory, events⟩
        ⟨phase, some (child, acts), act memory, events⟩
  | endPending {phase child memory events} :
      Step others ⟨phase, some (child, []), memory, events⟩
        ⟨phase, none, (finish E path child 2 memory).memory, events ++ [.finallyEnded]⟩
  | next {result pending memory events} :
      Step others ⟨.ended result, pending, memory, events⟩
        ⟨.following, pending, memory, events ++ [.nextStarted]⟩
  | other {act phase pending memory events} (h : others act) :
      Step others ⟨phase, pending, memory, events⟩ ⟨phase, pending, act memory, events⟩

def Reaches (others : Act → Prop) : State → State → Prop :=
  Relation.ReflTransGen (Step E T path fromPath others)

/-- A run begins with a memory. -/
def initial (memory : Memory) : State := { phase := .ready, memory := memory }

/-! ## What a run has to do -/

namespace Event

def isCatchStarted : Event → Bool
  | catchStarted => true
  | _ => false

def isFinallyStarted : Event → Bool
  | finallyStarted => true
  | _ => false

end Event

/-- The error that is being caught. -/
def Phase.caught : Phase → Option WorkflowError
  | inCatch err _ => some err
  | afterCatch err _ => some err
  | _ => none

/-- The law of a try node, for what has happened in a run. As events are only added, the last part says that
the finally node has ended when the next node starts. -/
structure InOrder (T : TryNode) (events : List Event) : Prop where
  catchAtMostOnce : events.countP Event.isCatchStarted ≤ 1
  catchOnce : ∀ result, .tryEnded result ∈ events →
    (events.countP Event.isCatchStarted = 1 ↔ ∃ err, .nodeEnded (.error err) ∈ events)
  result : ∀ result, .tryEnded result ∈ events →
    (∃ res, result = .ok res ∧ .nodeEnded (.ok res) ∈ events) ∨
      ∃ err, .nodeEnded (.error err) ∈ events ∧ .catchEnded result ∈ events
  finallyAtMostOnce : events.countP Event.isFinallyStarted ≤ 1
  finallyOnce : T.finallyNode ≠ none → .nextStarted ∈ events →
    events.countP Event.isFinallyStarted = 1 ∧ .finallyEnded ∈ events

/-- In order, and with the error in memory while it is being caught. -/
structure Correct (T : TryNode) (state : State) : Prop extends InOrder T state.events where
  visible : state.memory caughtError = state.phase.caught.map WorkflowError.json

/-! ## Nobody else writes the name -/

/-- The name of the caught error is left alone. -/
def Leaves (act : Act) : Prop := ∀ memory, act memory caughtError = memory caughtError

def Child.Leaves (child : Child) : Prop :=
  (∀ act ∈ child.atOnce ++ child.later, TryNode.Leaves act) ∧ child.info.result ≠ some caughtError

/-- The condition on a try node and on what else goes on: the name of the caught error is its own,
the finally node is done as soon as it is run, and the try is not resumed at a later child. -/
structure Undisturbed (T : TryNode) (fromPath : List Nat) (others : Act → Prop) : Prop where
  node : Child.Leaves T.node
  catchNode : Child.Leaves T.catchNode
  finallyNode : ∀ child ∈ T.finallyNode, Child.Leaves child ∧ child.DoneAtOnce
  others : ∀ act, others act → Leaves act
  resumed : fromPath.headD 0 = 0

variable {E T path fromPath}

theorem Child.Leaves.acts {child : Child} (h : Child.Leaves child) :
    ∀ act ∈ child.acts, TryNode.Leaves act := by
  intro act hact
  rw [Child.acts] at hact
  split at hact
  · exact h.1 act (List.mem_append_left _ hact)
  · exact h.1 act hact

theorem set_ne {name other : Str} (h : name ≠ other) (memory : Memory) (value : JsValue) :
    memory.set name value other = memory other := Function.update_of_ne h.symm _ _

theorem set_self (memory : Memory) (name : Str) (value : JsValue) :
    memory.set name value name = some value := Function.update_self ..

theorem remove_self (memory : Memory) (name : Str) : memory.remove name name = none :=
  Function.update_self ..

theorem setResult_leaves {info : NodeInfo} (h : info.result ≠ some caughtError) (res : JsValue) :
    Leaves fun memory => info.setResult memory res := by
  intro memory
  unfold NodeInfo.setResult
  split
  · rfl
  · next name hname =>
      refine set_ne (fun heq => h ?_) memory res
      rw [hname, heq]

/-- A child that has another name for its result leaves the name alone at its end. -/
theorem finish_leaves {child : Child} (h : child.info.result ≠ some caughtError) (idx : Nat) :
    Leaves fun memory => (finish E path child idx memory).memory := by
  intro memory
  have hinput : "input".toList ≠ caughtError := by decide
  have hresult := fun res => setResult_leaves h res memory
  unfold finish NodeInfo.finish
  cases child.ended with
  | left err =>
      simp only
      split_ifs
      · split
        · rfl
        · exact hresult _
      · rfl
      · rfl
  | right res =>
      simp only
      split
      · split_ifs
        · exact (set_ne hinput (child.info.setResult memory res) res).trans (hresult res)
        · exact hresult res
      · split
        · exact hresult res
        · next finalRes _ =>
            exact (set_ne hinput (child.info.setResult memory res) finalRes).trans (hresult res)
  | failed => rfl
  | thrown => rfl

/-! ## The invariant -/

/-- What has happened when the result of a try node is known. -/
def Before (events : List Event) (result : Except WorkflowError JsValue) : Prop :=
  (∃ res, result = .ok res ∧ events = [.nodeStarted, .nodeEnded (.ok res)]) ∨
    ∃ err, events = [.nodeStarted, .nodeEnded (.error err), .catchStarted, .catchEnded result]

variable (T) in
def finallyEvents : List Event :=
  match T.finallyNode with
  | none => []
  | some _ => [.finallyStarted, .finallyEnded]

variable (T) in
/-- What has happened in every phase. -/
inductive History : Phase → List Event → Prop
  | ready : History .ready []
  | inNode {acts} : History (.inNode acts) [.nodeStarted]
  | afterNode {result} : History (.afterNode result) [.nodeStarted, .nodeEnded result]
  | inCatch {err acts} :
      History (.inCatch err acts) [.nodeStarted, .nodeEnded (.error err), .catchStarted]
  | afterCatch {err result} :
      History (.afterCatch err result)
        [.nodeStarted, .nodeEnded (.error err), .catchStarted, .catchEnded result]
  | settled {events result} (h : Before events result) : History (.settled result) events
  | inFinally {events child acts result} (h : Before events result)
      (hfinally : T.finallyNode = some child) (henabled : child.info.enabled = true) :
      History (.inFinally child acts result) (events ++ [.finallyStarted])
  | ended {events result} (h : Before events result) :
      History (.ended result) (events ++ (finallyEvents T ++ [.tryEnded result]))
  | following {events result} (h : Before events result) :
      History .following (events ++ (finallyEvents T ++ [.tryEnded result, .nextStarted]))

/-- What is still to be done in a phase. -/
def Phase.acts : Phase → List Act
  | inNode acts => acts
  | inCatch _ acts => acts
  | inFinally _ acts _ => acts
  | _ => []

variable (T) in
structure Inv (state : State) : Prop where
  history : History T state.phase state.events
  pending : state.pending = none
  acts : ∀ act ∈ state.phase.acts, Leaves act
  visible : state.memory caughtError = state.phase.caught.map WorkflowError.json

theorem inv_initial {memory : Memory} (h : memory caughtError = none) : Inv T (initial memory) :=
  ⟨.ready, rfl, nofun, h⟩

/-- A move of an undisturbed run keeps the invariant. -/
theorem Inv.step {others : Act → Prop} {state next : State} (hT : Undisturbed T fromPath others)
    (hinv : Inv T state) (hstep : Step E T path fromPath others state next) : Inv T next := by
  obtain ⟨hhistory, hpending, hacts, hvisible⟩ := hinv
  cases hstep with
  | refuse h => exact absurd hT.resumed (Nat.pos_iff_ne_zero.mp h)
  | start =>
      cases hhistory
      exact ⟨.inNode, hpending, hT.node.acts, hvisible⟩
  | skip =>
      cases hhistory
      exact ⟨.afterNode, hpending, nofun, hvisible⟩
  | act =>
      cases hhistory
      exact ⟨.inNode, hpending, fun act hact => hacts act (List.mem_cons_of_mem _ hact),
        (hacts _ List.mem_cons_self _).trans hvisible⟩
  | endNode =>
      cases hhistory
      exact ⟨.afterNode, hpending, nofun, (finish_leaves hT.node.2 0 _).trans hvisible⟩
  | succeed =>
      cases hhistory
      exact ⟨.settled (Or.inl ⟨_, rfl, rfl⟩), hpending, nofun, hvisible⟩
  | @runCatch err _ memory =>
      cases hhistory
      exact ⟨.inCatch, hpending, hT.catchNode.acts, set_self memory caughtError err.json⟩
  | @skipCatch err _ memory =>
      cases hhistory
      exact ⟨.afterCatch, hpending, nofun, set_self memory caughtError err.json⟩
  | actCatch =>
      cases hhistory
      exact ⟨.inCatch, hpending, fun act hact => hacts act (List.mem_cons_of_mem _ hact),
        (hacts _ List.mem_cons_self _).trans hvisible⟩
  | endCatch =>
      cases hhistory
      exact ⟨.afterCatch, hpending, nofun, (finish_leaves hT.catchNode.2 1 _).trans hvisible⟩
  | @settle _ _ _ memory =>
      cases hhistory
      exact ⟨.settled (Or.inr ⟨_, rfl⟩), hpending, nofun, remove_self memory caughtError⟩
  | endWithout h =>
      cases hhistory with
      | settled hbefore =>
          refine ⟨?_, hpending, nofun, hvisible⟩
          have hended := History.ended (T := T) hbefore
          rwa [finallyEvents, h] at hended
  | runFinally h henabled =>
      cases hhistory with
      | settled hbefore =>
          refine ⟨.inFinally hbefore h henabled, hpending, fun act hact => ?_, hvisible⟩
          exact (hT.finallyNode _ h).1.1 act (List.mem_append_left _ hact)
  | skipFinally h =>
      cases hhistory with
      | settled hbefore =>
          refine ⟨?_, hpending, nofun, hvisible⟩
          have hended := History.ended (T := T) hbefore
          rwa [finallyEvents, h] at hended
  | actFinally =>
      cases hhistory with
      | inFinally hbefore h henabled =>
          exact ⟨.inFinally hbefore h henabled, hpending,
            fun act hact => hacts act (List.mem_cons_of_mem _ hact),
            (hacts _ List.mem_cons_self _).trans hvisible⟩
  | throwFinally =>
      cases hhistory with
      | inFinally hbefore h =>
          refine ⟨?_, hpending, nofun, (finish_leaves (hT.finallyNode _ h).1.2 2 _).trans hvisible⟩
          have hended := History.ended (T := T) hbefore
          rw [finallyEvents, h] at hended
          simpa using hended
  | leaveFinally hthrown =>
      cases hhistory with
      | inFinally hbefore h henabled =>
          rcases (hT.finallyNode _ h).2 with hdisabled | hthrows
          · rw [henabled] at hdisabled
            cases hdisabled
          · rw [hthrown] at hthrows
            cases hthrows
  | actPending => cases hpending
  | endPending => cases hpending
  | next =>
      cases hhistory with
      | ended hbefore =>
          refine ⟨?_, hpending, nofun, hvisible⟩
          have hnext := History.following (T := T) hbefore
          simpa using hnext
  | other h => exact ⟨hhistory, hpending, hacts, (hT.others _ h _).trans hvisible⟩

/-- What happened when a result is known, with what the finally node and the next node add. -/
theorem inOrder_append {events more : List Event} {result : Except WorkflowError JsValue}
    (hbefore : Before events result)
    (hmore : more = finallyEvents T ++ [.tryEnded result] ∨
      more = finallyEvents T ++ [.tryEnded result, .nextStarted]) : InOrder T (events ++ more) := by
  cases hfinally : T.finallyNode with
  | none =>
      rw [finallyEvents, hfinally] at hmore
      rcases hbefore with ⟨res, rfl, rfl⟩ | ⟨err, rfl⟩ <;> rcases hmore with rfl | rfl <;>
        constructor <;> simp [List.countP_cons, Event.isCatchStarted, Event.isFinallyStarted, hfinally]
  | some child =>
      rw [finallyEvents, hfinally] at hmore
      rcases hbefore with ⟨res, rfl, rfl⟩ | ⟨err, rfl⟩ <;> rcases hmore with rfl | rfl <;>
        constructor <;> simp [List.countP_cons, Event.isCatchStarted, Event.isFinallyStarted, hfinally]

theorem inOrder_of_history {phase : Phase} {events : List Event} (h : History T phase events) :
    InOrder T events := by
  cases h with
  | ready => constructor <;> simp
  | inNode => constructor <;> simp [Event.isCatchStarted, Event.isFinallyStarted]
  | afterNode => constructor <;> simp [Event.isCatchStarted, Event.isFinallyStarted]
  | inCatch => constructor <;> simp [List.countP_cons, Event.isCatchStarted, Event.isFinallyStarted]
  | afterCatch => constructor <;> simp [List.countP_cons, Event.isCatchStarted, Event.isFinallyStarted]
  | settled hbefore =>
      rcases hbefore with ⟨res, rfl, rfl⟩ | ⟨err, rfl⟩ <;> constructor <;>
        simp [List.countP_cons, Event.isCatchStarted, Event.isFinallyStarted]
  | inFinally hbefore =>
      rcases hbefore with ⟨res, rfl, rfl⟩ | ⟨err, rfl⟩ <;> constructor <;>
        simp [List.countP_cons, Event.isCatchStarted, Event.isFinallyStarted]
  | ended hbefore => exact inOrder_append hbefore (Or.inl rfl)
  | following hbefore => exact inOrder_append hbefore (Or.inr rfl)

/-- The invariant is the law. -/
theorem Inv.correct {state : State} (h : Inv T state) : Correct T state :=
  ⟨inOrder_of_history h.history, h.visible⟩

theorem inv_of_reaches {others : Act → Prop} (hT : Undisturbed T fromPath others) {first last : State}
    (hinv : Inv T first) (hrun : Reaches E T path fromPath others first last) : Inv T last := by
  induction hrun with
  | refl => exact hinv
  | tail _ hstep ih => exact ih.step hT hstep

/-- In every undisturbed run the law of the try node holds in every state. -/
theorem correct_of_run (E : WorkflowEnv) (T : TryNode) (path fromPath : List Nat)
    (others : Act → Prop) (hT : Undisturbed T fromPath others) (memory : Memory)
    (hmemory : memory caughtError = none) (state : State)
    (hrun : Reaches E T path fromPath others (initial memory) state) : Correct T state :=
  (inv_of_reaches hT (inv_initial hmemory) hrun).correct

def idle : WorkflowEnv := ⟨fun json _ => some json, fun _ => none, fun _ => none, .null⟩

/-- A node that does nothing but end. -/
def endingWith (ended : Ended) : Child := { info := { id := [] }, ended := ended }

theorem leaves_endingWith (ended : Ended) : Child.Leaves (endingWith ended) := ⟨nofun, nofun⟩

/-- A node that fails, and a catch node that answers. -/
def failing : TryNode := ⟨{ id := [] }, endingWith .failed, endingWith (.right .null), none⟩

theorem correct_of_run_example :
    ∃ state, Correct failing state ∧ .catchStarted ∈ state.events ∧ .nextStarted ∈ state.events := by
  have hT : Undisturbed failing [] fun _ => False :=
    ⟨leaves_endingWith _, leaves_endingWith _, nofun, nofun, rfl⟩
  have hrun : ∃ state, Reaches idle failing [] [] (fun _ => False) (initial fun _ => none) state ∧
      .catchStarted ∈ state.events ∧ .nextStarted ∈ state.events :=
    ⟨_, .head (.start rfl rfl) <| .head .endNode <| .head (.runCatch rfl) <| .head .endCatch <|
      .head .settle <| .head (.endWithout rfl) <| .single .next, by simp, by simp⟩
  obtain ⟨state, hreaches, hevents⟩ := hrun
  exact ⟨state, correct_of_run idle failing [] [] _ hT _ rfl _ hreaches, hevents⟩

/-! ## The finally node is not waited for -/

section NotWaited

variable {others : Act → Prop} {memory : Memory} {events : List Event}

theorem reaches_inNode (acts : List Act) :
    ∃ after, Reaches E T path fromPath others ⟨.inNode acts, none, memory, events⟩
      ⟨.inNode [], none, after, events⟩ := by
  induction acts generalizing memory with
  | nil => exact ⟨memory, .refl⟩
  | cons act acts ih =>
      obtain ⟨after, hacts⟩ := @ih (act memory)
      exact ⟨after, .head .act hacts⟩

theorem reaches_inCatch (err : WorkflowError) (acts : List Act) :
    ∃ after, Reaches E T path fromPath others ⟨.inCatch err acts, none, memory, events⟩
      ⟨.inCatch err [], none, after, events⟩ := by
  induction acts generalizing memory with
  | nil => exact ⟨memory, .refl⟩
  | cons act acts ih =>
      obtain ⟨after, hacts⟩ := @ih (act memory)
      exact ⟨after, .head .actCatch hacts⟩

theorem reaches_inFinally (child : Child) (result : Except WorkflowError JsValue)
    (acts : List Act) :
    ∃ after, Reaches E T path fromPath others ⟨.inFinally child acts result, none, memory, events⟩
      ⟨.inFinally child [] result, none, after, events⟩ := by
  induction acts generalizing memory with
  | nil => exact ⟨memory, .refl⟩
  | cons act acts ih =>
      obtain ⟨after, hacts⟩ := @ih (act memory)
      exact ⟨after, .head .actFinally hacts⟩

/-- The node can be run to its end, -/
theorem reaches_afterNode (h : fromPath.headD 0 = 0) :
    ∃ result after, Reaches E T path fromPath others (initial memory)
      ⟨.afterNode result, none, after, [.nodeStarted, .nodeEnded result]⟩ := by
  cases henabled : T.node.info.enabled with
  | true =>
      obtain ⟨after, hacts⟩ := reaches_inNode (T := T) T.node.acts
      exact ⟨_, _, .head (.start h henabled) (hacts.tail .endNode)⟩
  | false => exact ⟨_, _, .single (.skip h henabled)⟩

/-- and the catch node after it, before anything of the finally node is seen. -/
theorem reaches_settled (h : fromPath.headD 0 = 0) :
    ∃ result after events, Reaches E T path fromPath others (initial memory)
      ⟨.settled result, none, after, events⟩ ∧ .finallyEnded ∉ events := by
  obtain ⟨result, after, hnode⟩ : ∃ result after, Reaches E T path fromPath others (initial memory)
      ⟨.afterNode result, none, after, [.nodeStarted, .nodeEnded result]⟩ := reaches_afterNode h
  cases result with
  | ok res => exact ⟨_, _, _, hnode.tail .succeed, by simp⟩
  | error err =>
      cases henabled : T.catchNode.info.enabled with
      | true =>
          obtain ⟨later, hacts⟩ := reaches_inCatch err T.catchNode.acts
          exact ⟨_, _, _, ((hnode.tail (.runCatch henabled)).trans hacts).tail .endCatch
            |>.tail .settle, by simp⟩
      | false =>
          exact ⟨_, _, _, (hnode.tail (.skipCatch henabled)).tail .settle, by simp⟩

/-- A finally node that goes on after `internalRun` has returned can be overtaken by the node that
comes after the try. -/
theorem exists_run_not_waited {child : Child} (h : fromPath.headD 0 = 0)
    (hfinally : T.finallyNode = some child) (hdone : ¬ child.DoneAtOnce) (memory : Memory) :
    ∃ state, Reaches E T path fromPath others (initial memory) state ∧ ¬ Correct T state := by
  have henabled : child.info.enabled = true := by
    simpa using fun hoff => hdone (Or.inl hoff)
  have hthrown : child.ended.isThrown = false := by
    simpa using fun hthrows => hdone (Or.inr hthrows)
  obtain ⟨result, after, events, hsettled, hevents⟩ : ∃ result after events,
      Reaches E T path fromPath others (initial memory) ⟨.settled result, none, after, events⟩ ∧
        .finallyEnded ∉ events := reaches_settled h
  obtain ⟨later, hacts⟩ := reaches_inFinally child result child.atOnce
  refine ⟨_, ((hsettled.tail (.runFinally hfinally henabled)).trans hacts).tail
    (.leaveFinally hthrown) |>.tail .next, fun hcorrect => ?_⟩
  have hended := (hcorrect.finallyOnce (by simp [hfinally]) (by simp)).2
  simp [hevents] at hended

/-- A finally node that only answers is already overtaken. -/
theorem exists_not_correct :
    ∃ T state, Reaches idle T [] [] (fun _ => False)
      (initial fun _ => none) state ∧ ¬ Correct T state := by
  refine ⟨⟨{ id := [] }, endingWith (.right .null), endingWith .failed,
    some (endingWith (.right .null))⟩, exists_run_not_waited rfl rfl ?_ _⟩
  simp [Child.DoneAtOnce, endingWith, Ended.isThrown]

end NotWaited

end TryNode

end Workflows

end Otoroshi
