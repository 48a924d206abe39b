/-
# Nodes of a workflow

A workflow is a tree of nodes. A node is run at a position of the tree, the list of child
indexes that leads to it, and with the remainder of the position at which a resumed workflow
has to go on; the remainder is empty when the node is run from its beginning.

`Node.internalRun` runs a node. The runners of the children of a node are what its own kind
works with, so every kind has a definition of its own, over runners. The log of a run says
which nodes were started, at which position, what they did and how they ended.
-/

import Mathlib.Data.List.Infix
import Mathlib.Logic.Function.Basic
import Otoroshi.Foundation.Json

namespace Otoroshi

namespace Workflows

/-- `WorkflowMemory`. -/
abbrev Memory := Str → Option JsValue

namespace Memory

def set (memory : Memory) (name : Str) (value : JsValue) : Memory :=
  Function.update memory name (some value)

def remove (memory : Memory) (name : Str) : Memory := Function.update memory name none

end Memory

structure WorkflowError where
  message : Str
  details : Option JsValue := none
  nodeId : Option Str := none

/-- How a node ends: with an error, with a value, with an exception of its future or with one
that it throws at once. -/
inductive Ended
  | left (err : WorkflowError)
  | right (res : JsValue)
  | failed
  | thrown

/-- What is logged. `running` is the line that a node prints on a gateway in development,
and `saving` is the session that a pause saves. -/
inductive LogMessage
  | starting
  | running
  | saving (fromPath : List Nat)
  | pausing
  | endingAt
  | endingWithError
  | ending
  | endingWithException
  | endingWithSyncException
  deriving DecidableEq

structure LogItem where
  path : List Nat
  message : LogMessage
  deriving DecidableEq

/-- What was run: its result, the memory after it and what it logged. -/
structure Ran (α : Type) where
  result : α
  memory : Memory
  log : List LogItem

/-- What the nodes use of the gateway. A function of the workflow is run at the position of
the call, and what it logs is left out. -/
structure WorkflowEnv where
  /-- with `none` where it throws -/
  processOperators : JsValue → Memory → Option JsValue
  function : Str → Option (JsValue → Memory → Ended × Memory)
  selfFunction : Str → Option (List Nat → Memory → Except WorkflowError JsValue × Memory)
  /-- the token of the session that a pause saves -/
  token : JsValue

/-- What every node has. -/
structure NodeInfo where
  id : Str
  enabled : Bool := true
  result : Option Str := none
  returned : Option JsValue := none

/-- The nodes that pass a position on, those that a position can name, and those between. -/
inductive Node
  | workflow (info : NodeInfo) (steps : List Node)
  | ifThenElse (info : NodeInfo) (predicate : Option JsValue) (thenNode : Node)
      (elseNode : Option Node)
  | assign (info : NodeInfo) (values : List (Str × JsValue))
  | value (info : NodeInfo) (value : Option JsValue)
  | call (info : NodeInfo) (functionName : Str) (args : JsValue) (async : Bool)
  | pause (info : NodeInfo)
  | jump (info : NodeInfo) (predicate : Option JsValue) (toId toPath : Str)

namespace Node

def info : Node → NodeInfo
  | workflow info _ => info
  | ifThenElse info _ _ _ => info
  | assign info _ => info
  | value info _ => info
  | call info _ _ _ => info
  | pause info => info
  | jump info _ _ _ => info

def subNodes : Node → List Node
  | workflow _ steps => steps
  | ifThenElse _ _ thenNode elseNode => thenNode :: elseNode.toList
  | _ => []

/-- The node at a position. -/
def at? : Node → List Nat → Option Node
  | node, [] => some node
  | node, idx :: path => node.subNodes[idx]?.bind (·.at? path)

/-- What holds of every node if it holds of one whose children have it. -/
theorem induction {motive : Node → Prop}
    (workflow : ∀ info steps, (∀ step ∈ steps, motive step) → motive (workflow info steps))
    (ifThenElse : ∀ info predicate thenNode elseNode, motive thenNode →
      (∀ node ∈ elseNode, motive node) → motive (ifThenElse info predicate thenNode elseNode))
    (assign : ∀ info values, motive (assign info values))
    (value : ∀ info json, motive (value info json))
    (call : ∀ info functionName args async, motive (call info functionName args async))
    (pause : ∀ info, motive (pause info))
    (jump : ∀ info predicate toId toPath, motive (jump info predicate toId toPath)) (node : Node) :
    motive node := by
  refine @Node.rec motive (fun steps => ∀ step ∈ steps, motive step)
    (fun elseNode => ∀ node ∈ elseNode, motive node) workflow ifThenElse assign value call pause
    jump ?_ ?_ ?_ ?_ node
  · exact List.forall_mem_nil _
  · intro step steps hstep hsteps
    exact List.forall_mem_cons.mpr ⟨hstep, hsteps⟩
  · intro node hnode
    contradiction
  · intro node hnode other hother
    cases hother
    exact hnode

end Node

/-! ## Running nodes -/

variable (E : WorkflowEnv)

/-- What runs a node at a position, with the remainder of the position to resume at. -/
abbrev Runner := List Nat → List Nat → Memory → Ran (Except WorkflowError JsValue)

def pausedMessage : Str := "_____otoroshi_workflow_paused".toList

def endedMessage : Str := "_____otoroshi_workflow_ended".toList

def jumpMessage : Str := "_____otoroshi_workflow_jump".toList

/-- `mkString(".")`. -/
def pathText (path : List Nat) : Str :=
  List.intercalate ['.'] (path.map fun idx => Nat.toDigits 10 idx)

namespace NodeInfo

variable (info : NodeInfo)

def caught (message : String) : WorkflowError where
  message := message.toList ++ info.id ++ ['\'']
  nodeId := some info.id

/-- The result is set in memory under the name that the node has for it. -/
def setResult (memory : Memory) (res : JsValue) : Memory :=
  match info.result with
  | none => memory
  | some name => memory.set name res

/-- The future of a node has failed. -/
def recover (path : List Nat) (memory : Memory) (log : List LogItem) :
    Ran (Except WorkflowError JsValue) where
  result := .error (info.caught "caught exception on task: '")
  memory := memory
  log := log ++ [⟨path, .endingWithException⟩]

/-- What `internalRun` makes of the way a node ends. -/
def finish (path : List Nat) (memory : Memory) : Ended → Ran (Except WorkflowError JsValue)
  | .left err =>
      if err.message = pausedMessage then
        match err.details.bind (·.select "access_token") with
        | none => info.recover path memory [⟨path, .pausing⟩]
        | some res => ⟨.error err, info.setResult memory res, [⟨path, .pausing⟩]⟩
      else if err.message = endedMessage then ⟨.error err, memory, [⟨path, .endingAt⟩]⟩
      else ⟨.error err, memory, [⟨path, .endingWithError⟩]⟩
  | .right res =>
      match info.returned with
      | none =>
          let memory := info.setResult memory res
          ⟨.ok res, if info.id ≠ "start".toList then memory.set "input".toList res else memory,
            [⟨path, .ending⟩]⟩
      | some returned =>
          match E.processOperators returned (info.setResult memory res) with
          | none => info.recover path (info.setResult memory res) [⟨path, .ending⟩]
          | some finalRes =>
              ⟨.ok finalRes, (info.setResult memory res).set "input".toList finalRes,
                [⟨path, .ending⟩]⟩
  | .failed => info.recover path memory []
  | .thrown =>
      ⟨.error (info.caught "caught sync exception on task1: '"), memory,
        [⟨path, .endingWithSyncException⟩]⟩

/-- `internalRun`, where no debugger is attached. -/
def internalRun (run : List Nat → List Nat → Memory → Ran Ended) : Runner :=
  fun path fromPath memory =>
    if info.enabled then
      let ran := run path fromPath memory
      let done := info.finish E path ran.memory ran.result
      ⟨done.result, done.memory, ⟨path, .starting⟩ :: (ran.log ++ done.log)⟩
    else ⟨.ok .null, memory, []⟩

end NodeInfo

/-- A node ends as the node it has run. -/
def Ran.ended (ran : Ran (Except WorkflowError JsValue)) : Ran Ended where
  result := ran.result.casesOn .left .right
  memory := ran.memory
  log := ran.log

/-- Go on if there is a value. -/
def Ran.andThen (ran : Ran (Except WorkflowError JsValue))
    (following : Memory → Ran (Except WorkflowError JsValue)) :
    Ran (Except WorkflowError JsValue) :=
  match ran.result with
  | .error err => ⟨.error err, ran.memory, ran.log⟩
  | .ok _ =>
      let rest := following ran.memory
      ⟨rest.result, rest.memory, ran.log ++ rest.log⟩

/-- `asOptBoolean.getOrElse(false)` of a predicate, with `none` where it throws. -/
def passes (predicate : Option JsValue) (memory : Memory) : Option Bool := do
  let json ← predicate
  let processed ← E.processOperators json memory
  return JsLookupResult.asOptOrElse (some processed) .boolean false

/-- `WorkflowNode.next`. -/
def WorkflowNode.next : List Runner → List Nat → List Nat → Nat → Memory →
    Ran (Except WorkflowError JsValue)
  | [], _, _, _, memory => ⟨.ok .null, memory, []⟩
  | head :: tail, path, fromPath, idx, memory =>
      (head (path ++ [idx]) fromPath memory).andThen
        (WorkflowNode.next tail path fromPath (idx + 1))

/-- `WorkflowNode.run`. -/
def WorkflowNode.run (steps : List Runner) (path fromPath : List Nat) (memory : Memory) :
    Ran Ended :=
  match fromPath with
  | [] => (WorkflowNode.next steps path [] 0 memory).ended
  | head :: rest => (WorkflowNode.next (steps.drop head) path rest head memory).ended

/-- Nothing is run. -/
def idle (memory : Memory) : Ran (Except WorkflowError JsValue) := ⟨.ok .null, memory, []⟩

/-- The branch is known when the node is resumed. -/
def IfThenElseNode.pass (predicate : Option JsValue) (memory : Memory) : List Nat → Option Bool
  | [] => passes E predicate memory
  | head :: _ => some (head == 0)

/-- `IfThenElseNode.run`. -/
def IfThenElseNode.run (predicate : Option JsValue) (thenNode : Runner) (elseNode : Option Runner)
    (path fromPath : List Nat) (memory : Memory) : Ran Ended :=
  match IfThenElseNode.pass E predicate memory fromPath with
  | none => ⟨.thrown, memory, []⟩
  | some true => (thenNode (path ++ [0]) fromPath.tail memory).ended
  | some false =>
      match elseNode with
      | none => (idle memory).ended
      | some node => (node (path ++ [1]) fromPath.tail memory).ended

namespace IfThenElseNode

variable {E} {predicate : Option JsValue} {thenNode : Runner} {elseNode : Option Runner}
  {path fromPath : List Nat} {memory : Memory}

theorem run_of_thrown (h : pass E predicate memory fromPath = none) :
    run E predicate thenNode elseNode path fromPath memory = ⟨.thrown, memory, []⟩ := by
  simp only [run, h]

theorem run_of_pass (h : pass E predicate memory fromPath = some true) :
    run E predicate thenNode elseNode path fromPath memory =
      (thenNode (path ++ [0]) fromPath.tail memory).ended := by
  simp only [run, h]

theorem run_of_not_pass (h : pass E predicate memory fromPath = some false) :
    run E predicate thenNode elseNode path fromPath memory =
      (elseNode.elim (idle memory) fun node => node (path ++ [1]) fromPath.tail memory).ended := by
  cases elseNode <;> simp only [run, h, Option.elim]

end IfThenElseNode

/-- `AssignOperation.execute`. A value that cannot be processed is left out. -/
def AssignOperation.execute (memory : Memory) (operation : Str × JsValue) : Memory :=
  match E.processOperators operation.2 memory with
  | none => memory
  | some value => memory.set operation.1 value

def cannotResume (kind : String) (info : NodeInfo) (path fromPath : List Nat) : WorkflowError where
  message := kind.toList ++ " Node (".toList ++ pathText path ++ ") cannot resume sub nodes: ".toList
    ++ pathText fromPath
  nodeId := some info.id

/-- `AssignNode.run`. -/
def AssignNode.run (info : NodeInfo) (values : List (Str × JsValue)) (path fromPath : List Nat)
    (memory : Memory) : Ran Ended :=
  match fromPath with
  | [] => ⟨.right .null, values.foldl (AssignOperation.execute E) memory, [⟨path, .running⟩]⟩
  | _ :: _ => ⟨.left (cannotResume "Assign" info path fromPath), memory, []⟩

/-- `ValueNode.run`. -/
def ValueNode.run (value : Option JsValue) (path _fromPath : List Nat) (memory : Memory) :
    Ran Ended :=
  match value.bind fun json => E.processOperators json memory with
  | none => ⟨.thrown, memory, [⟨path, .running⟩]⟩
  | some res => ⟨.right res, memory, [⟨path, .running⟩]⟩

namespace CallNode

def notSupported (what : String) (info : NodeInfo) (functionName : Str) : WorkflowError where
  message := what.toList ++ functionName ++ "' not supported in task '".toList ++ info.id ++ ['\'']
  nodeId := some info.id

/-- What a call answers. One that does not block answers before its function does. -/
def answer (info : NodeInfo) (async : Bool) : Ended → Ended
  | .thrown => .thrown
  | .left err => if async then .right .null else .left { err with nodeId := some info.id }
  | .right res => if async then .right .null else .right res
  | .failed => if async then .right .null else .failed

/-- The call of a function of the workflow. -/
def callSelf (info : NodeInfo) (functionName : Str) (args : JsValue) (async : Bool)
    (path : List Nat) (memory : Memory) : Ended × Memory :=
  match E.selfFunction (functionName.drop 5) with
  | none => (.left (notSupported "self function '" info functionName), memory)
  | some function =>
      match E.processOperators args memory with
      | none => (.thrown, memory)
      | some args =>
          let called := function path (memory.set "function_args".toList args)
          (answer info async (called.1.casesOn .left .right),
            called.2.remove "function_args".toList)

def callFunction (info : NodeInfo) (functionName : Str) (args : JsValue) (async : Bool)
    (memory : Memory) : Ended × Memory :=
  match E.function functionName with
  | none => (.left (notSupported "function '" info functionName), memory)
  | some function =>
      match E.processOperators args memory with
      | some (.object fields) =>
          let called := function (.object fields) memory
          (answer info async called.1, called.2)
      | _ => (.thrown, memory)

def run (info : NodeInfo) (functionName : Str) (args : JsValue) (async : Bool)
    (path fromPath : List Nat) (memory : Memory) : Ran Ended :=
  match fromPath with
  | _ :: _ => ⟨.left (cannotResume "Call" info path fromPath), memory, []⟩
  | [] =>
      let called :=
        if startsWith functionName "self.".toList then
          callSelf E info functionName args async path memory
        else callFunction E info functionName args async memory
      ⟨called.1, called.2, [⟨path, .running⟩]⟩

end CallNode

/-- The position that a pause saves. -/
def PauseNode.fromPath (path : List Nat) : List Nat :=
  match path.getLast? with
  | none => path
  | some last => if 1 < path.length then path.dropLast ++ [last + 1] else path

/-- `PauseNode.run`. -/
def PauseNode.run (info : NodeInfo) (path _fromPath : List Nat) (memory : Memory) : Ran Ended where
  result := .left {
    message := pausedMessage
    details := some (Json.obj [("access_token", E.token)])
    nodeId := some info.id }
  memory := memory
  log := [⟨path, .saving (PauseNode.fromPath path)⟩]

/-- `JumpNode.run`. -/
def JumpNode.run (info : NodeInfo) (predicate : Option JsValue) (toId toPath : Str)
    (_path _fromPath : List Nat) (memory : Memory) : Ran Ended where
  result :=
    match predicate with
    | none => jumps
    | some json =>
        match E.processOperators json memory with
        | none => .thrown
        | some processed =>
            if JsLookupResult.asOptOrElse (some processed) .boolean true then jumps
            else .right .null
  memory := memory
  log := []
where
  jumps : Ended := .left {
    message := jumpMessage
    details := some (Json.obj [("path", .string toPath), ("to", .string toId)])
    nodeId := some info.id }

namespace Node

mutual

def internalRun : Node → Runner
  | workflow info steps => info.internalRun E (WorkflowNode.run (runners steps))
  | ifThenElse info predicate thenNode elseNode =>
      info.internalRun E
        (IfThenElseNode.run E predicate (internalRun thenNode) (runner elseNode))
  | assign info values => info.internalRun E (AssignNode.run E info values)
  | value info json => info.internalRun E (ValueNode.run E json)
  | call info functionName args async =>
      info.internalRun E (CallNode.run E info functionName args async)
  | pause info => info.internalRun E (PauseNode.run E info)
  | jump info predicate toId toPath =>
      info.internalRun E (JumpNode.run E info predicate toId toPath)

def runners : List Node → List Runner
  | [] => []
  | step :: steps => internalRun step :: runners steps

def runner : Option Node → Option Runner
  | none => none
  | some node => some (internalRun node)

end

theorem runners_eq_map (steps : List Node) : runners E steps = steps.map (internalRun E) := by
  induction steps with
  | nil => rfl
  | cons step steps ih => rw [runners, ih, List.map_cons]

end Node

/-- A gateway where every value is itself, and every function answers. -/
def plainEnv : WorkflowEnv where
  processOperators json _ := some json
  function _ := some fun _ memory => (.right .null, memory)
  selfFunction _ := none
  token := .null

end Workflows

end Otoroshi
